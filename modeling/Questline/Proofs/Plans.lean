import Questline.Operation

/-!
# The rule of each operation

`Operation.plan` gives most operations a rule to apply to the journal of a player. Some it looks
up in the catalog first, and settles where there is no such quest or step. Its inversion is
proved once (`Operation.consults_of_plan`): an operation whose plan is to consult a journal is
one of the cases of `Operation.Consults`, with what the catalog had to hold for it, and what the
catalog settles is one of the cases of `Operation.Settles`. So what all operations do is proved
rule by rule, along these cases, and `plan` is not unfolded again.
-/

namespace Questline.Operation

/-- The operation `op` applies a rule to the journal of the player `username`. -/
inductive Consults (c : Catalog) (now : Instant) :
    (op : Operation) → (username : String) → (rule : Journal → Ruling Answer) → Prop
  | start (p : Player) (quest : String) (force : Bool) (step : Option String) {q : Quest}
      (hq : c.get? quest = some q) :
      Consults c now (.start p quest force step) p.username
        fun j => (Rules.start q p force step now j).map .started
  | abandon (username quest : String) :
      Consults c now (.abandon username quest) username
        fun j => (Rules.abandon username quest j).map .changed
  | complete (username quest : String) :
      Consults c now (.complete username quest) username
        fun j => (Rules.complete username quest ((c.get? quest).bind (·.rewards)) now j).map
          .completed
  | fail (username quest : String) (reason : Option String) :
      Consults c now (.fail username quest reason) username
        fun j => (Rules.fail username quest reason now j).map .changed
  | report (username event : String) (payload : Payload) :
      Consults c now (.report username event payload) username
        fun j => (Rules.report c username event payload now j).map .updates
  | poll (p : Player) :
      Consults c now (.poll p) p.username fun j => (Rules.poll c p now j).map .updates
  | advanceTo (username quest step : String) {q : Quest} {target : Step}
      (hq : c.get? quest = some q) (htarget : q.step? step = some target) :
      Consults c now (.advanceTo username quest step) username
        fun j => (Rules.advanceTo q target username now j).map fun _ => .done
  | setVariable (username quest key : String) (value : Value) :
      Consults c now (.setVariable username quest key value) username
        fun j => (Rules.setVariable quest key value j).map fun _ => .done
  | choose (p : Player) (npc quest option : String) :
      Consults c now (.choose p npc quest option) p.username
        fun j => (Rules.choose c p npc quest option now j).map .chosen
  | canStart (p : Player) (quest : String) {q : Quest} (hq : c.get? quest = some q) :
      Consults c now (.canStart p quest) p.username
        fun j => (Rules.canStart q p now j).map .eligibility
  | available (p : Player) :
      Consults c now (.available p) p.username fun j => (Rules.available c p now j).map .available
  | dialogues (p : Player) (npc : String) :
      Consults c now (.dialogues p npc) p.username
        fun j => (Rules.dialogues c p npc j).map .dialogues
  | allDialogues (username npc : String) :
      Consults c now (.allDialogues username npc) username
        fun j => (Rules.allDialogues c npc j).map .dialogues
  | progress (username : String) :
      Consults c now (.progress username) username fun j => .look (.ok (.progress j))
  | status (username quest : String) :
      Consults c now (.status username quest) username
        fun j => .look (.ok (.status quest (j.status quest)))

theorem consults_of_plan {c : Catalog} {now : Instant} {op : Operation} {username : String}
    {rule : Journal → Ruling Answer} (h : op.plan c now = .consult username rule) :
    Consults c now op username rule := by
  cases op with
  | start p quest force step =>
      cases hq : c.get? quest with
      | none => simp only [plan, hq, reduceCtorEq] at h
      | some q =>
          simp only [plan, hq, Plan.consult.injEq] at h
          obtain ⟨rfl, rfl⟩ := h
          exact .start p quest force step hq
  | canStart p quest =>
      cases hq : c.get? quest with
      | none => simp only [plan, hq, reduceCtorEq] at h
      | some q =>
          simp only [plan, hq, Plan.consult.injEq] at h
          obtain ⟨rfl, rfl⟩ := h
          exact .canStart p quest hq
  | advanceTo u quest step =>
      cases hq : c.get? quest with
      | none => simp only [plan, hq, reduceCtorEq] at h
      | some q =>
          cases htarget : q.step? step with
          | none => simp only [plan, hq, htarget, reduceCtorEq] at h
          | some target =>
              simp only [plan, hq, htarget, Plan.consult.injEq] at h
              obtain ⟨rfl, rfl⟩ := h
              exact .advanceTo u quest step hq htarget
  | abandon u quest => cases h; exact .abandon _ quest
  | complete u quest => cases h; exact .complete _ quest
  | fail u quest reason => cases h; exact .fail _ quest reason
  | report u event payload => cases h; exact .report _ event payload
  | poll p => cases h; exact .poll p
  | setVariable u quest key value => cases h; exact .setVariable _ quest key value
  | choose p npc quest option => cases h; exact .choose p npc quest option
  | available p => cases h; exact .available p
  | dialogues p npc => cases h; exact .dialogues p npc
  | allDialogues u npc => cases h; exact .allDialogues _ npc
  | progress u => cases h; exact .progress _
  | status u quest => cases h; exact .status _ quest
  | evict u => cases h

/-- The operation `op` is answered by the catalog alone. -/
inductive Settles (c : Catalog) : (op : Operation) → (answer : Except Refusal Answer) → Prop
  | start (p : Player) (quest : String) (force : Bool) (step : Option String)
      (hq : c.get? quest = none) : Settles c (.start p quest force step) (.error .notFound)
  | canStart (p : Player) (quest : String) (hq : c.get? quest = none) :
      Settles c (.canStart p quest) (.ok (.eligibility (some .notFound)))
  | advanceNowhere (username quest step : String) (hq : c.get? quest = none) :
      Settles c (.advanceTo username quest step) (.error .notFound)
  | advanceTo (username quest step : String) {q : Quest} (hq : c.get? quest = some q)
      (htarget : q.step? step = none) :
      Settles c (.advanceTo username quest step) (.error .invalidStep)

theorem settles_of_plan {c : Catalog} {now : Instant} {op : Operation}
    {answer : Except Refusal Answer} (h : op.plan c now = .settled answer) :
    Settles c op answer := by
  cases op with
  | start p quest force step =>
      cases hq : c.get? quest with
      | some q => simp only [plan, hq, reduceCtorEq] at h
      | none =>
          simp only [plan, hq, Plan.settled.injEq] at h
          subst h
          exact .start p quest force step hq
  | canStart p quest =>
      cases hq : c.get? quest with
      | some q => simp only [plan, hq, reduceCtorEq] at h
      | none =>
          simp only [plan, hq, Plan.settled.injEq] at h
          subst h
          exact .canStart p quest hq
  | advanceTo u quest step =>
      cases hq : c.get? quest with
      | none =>
          simp only [plan, hq, Plan.settled.injEq] at h
          subst h
          exact .advanceNowhere u quest step hq
      | some q =>
          cases htarget : q.step? step with
          | some target => simp only [plan, hq, htarget, reduceCtorEq] at h
          | none =>
              simp only [plan, hq, htarget, Plan.settled.injEq] at h
              subst h
              exact .advanceTo u quest step hq htarget
  | _ => cases h

/-- Only an `evict` has the plan to evict. -/
theorem isEvict_of_plan {c : Catalog} {now : Instant} {op : Operation} {username : String}
    (h : op.plan c now = .evict username) : ∃ u, op = .evict u := by
  cases op with
  | evict u => exact ⟨u, rfl⟩
  | start p quest force step =>
      simp only [plan] at h
      split at h <;> cases h
  | canStart p quest =>
      simp only [plan] at h
      split at h <;> cases h
  | advanceTo u quest step =>
      simp only [plan] at h
      split at h
      · cases h
      · split at h <;> cases h
  | _ => cases h

end Questline.Operation
