import Questline.Proofs.Edit

/-!
# Where variables come from

Variables are the one free-form part of a journal. No rule makes one up or looks into one: an
active quest has the variables that it had, none if it is just started, or one more or another one
if a `setVariable` says so. So a property of values that all variables of a journal have is
kept by every operation, unless the operation sets a value that does not have it
(`Operation.vars`).
-/

namespace Questline

/-- All variables of an active quest have a property. -/
def Activation.Vars (P : Value → Prop) (a : Activation) : Prop := ∀ e ∈ a.vars.entries, P e.2

/-- All variables of all active quests have a property. -/
def Journal.Vars (P : Value → Prop) (j : Journal) : Prop := ∀ a ∈ j.active, a.Vars P

namespace Activation

variable {P : Value → Prop} {a : Activation}

theorem vars_start (q : Quest) (s : Step) (now : Instant) : (Activation.start q s now).Vars P :=
  fun _ he => absurd he List.not_mem_nil

theorem Vars.setVariable (h : a.Vars P) (key : String) {value : Value} (hvalue : P value) :
    (a.setVariable key value).Vars P := by
  intro e he
  rcases Dict.mem_insertEntry he with rfl | he
  · exact hvalue
  · exact h e he

end Activation

namespace Journal

variable {P : Value → Prop} {j : Journal}

theorem vars_empty (username : String) (now : Instant) : (empty username now).Vars P :=
  fun _ ha => absurd ha List.not_mem_nil

theorem mem_replaceFirst {a x : Activation} {l : List Activation} (h : x ∈ replaceFirst a l) :
    x = a ∨ x ∈ l := by
  induction l with
  | nil => exact Or.inr h
  | cons b rest ih =>
      simp only [replaceFirst] at h
      split at h
      · rcases List.mem_cons.mp h with rfl | h
        · exact Or.inl rfl
        · exact Or.inr (List.mem_cons_of_mem _ h)
      · rcases List.mem_cons.mp h with rfl | h
        · exact Or.inr List.mem_cons_self
        · exact (ih h).imp_right (List.mem_cons_of_mem _)

theorem Vars.of_activation? (h : j.Vars P) {quest : String} {a : Activation}
    (ha : j.activation? quest = some a) : a.Vars P := h a (List.mem_of_find?_eq_some ha)

theorem Vars.activate (h : j.Vars P) {a : Activation} (ha : a.Vars P) : (j.activate a).Vars P := by
  intro x hx
  rcases List.mem_append.mp hx with hx | hx
  · exact h x hx
  · rw [List.mem_singleton.mp hx]
    exact ha

theorem Vars.update (h : j.Vars P) {a : Activation} (ha : a.Vars P) : (j.update a).Vars P := by
  intro x hx
  rcases mem_replaceFirst hx with rfl | hx
  · exact ha
  · exact h x hx

theorem Vars.deactivate (h : j.Vars P) (quest : String) : (j.deactivate quest).Vars P :=
  fun x hx => h x (List.mem_of_mem_eraseP hx)

end Journal

/-! ## Every rule -/

namespace Rules

variable {P : Value → Prop} {j : Journal}

theorem vars_stride (q : Quest) (s : Step) (username : String) (count : UInt32)
    (amount? : Objective → Option Amount) (now : Instant) (a : Activation) :
    (stride q s username count amount? now a).activation.vars = a.vars := by
  simp only [stride]
  split
  · rfl
  · split
    · rfl
    · split
      · rfl
      · split <;> rfl

theorem vars_branch (q : Quest) (target : Step) (origin username : String) (now : Instant)
    (a : Activation) : (branch q target origin username now a).1.vars = a.vars := by
  simp only [branch]
  split
  · rfl
  · split <;> rfl

variable (c : Catalog) (username : String) (amount? : Objective → Option Amount) (now : Instant)

theorem vars_advanceQuest (h : j.Vars P) (quest : String) :
    (advanceQuest c username amount? now j quest).journal.Vars P := by
  rw [advanceQuest_eq]
  cases hstride : (j.thread quest).stride? c username amount? now quest with
  | none => exact h
  | some r =>
      obtain ⟨⟨q, a, s⟩, hposition, rfl⟩ := Option.map_eq_some_iff.mp hstride
      obtain ⟨-, ha, -⟩ := Thread.position?_eq_some.mp hposition
      have hvars := vars_stride q s username ((j.thread quest).count.getD 0 + 1) amount? now a
      dsimp only
      generalize stride q s username ((j.thread quest).count.getD 0 + 1) amount? now a = r at *
      cases r.finished with
      | true => exact h.deactivate quest
      | false =>
          refine h.update fun e he => ?_
          rw [hvars] at he
          exact h.of_activation? ha e he

theorem vars_progress (h : j.Vars P) : (progress c username amount? now j).journal.Vars P := by
  unfold progress
  generalize j.active.map (·.quest) = quests
  induction quests generalizing j with
  | nil => exact h
  | cons quest rest ih => exact ih (vars_advanceQuest c username amount? now h quest)

theorem vars_update_branch (h : j.Vars P) {quest : String} {a : Activation}
    (ha : j.activation? quest = some a) (q : Quest) (target : Step) (origin : String) :
    (j.update (branch q target origin username now a).1).Vars P := by
  refine h.update fun e he => ?_
  rw [vars_branch] at he
  exact h.of_activation? ha e he

theorem vars_choose (h : j.Vars P) (p : Player) (npc quest option : String) :
    ((choose c p npc quest option now j).journal j).Vars P := by
  cases hchoice : choice? c p npc quest option j with
  | none =>
      simp only [choose, hchoice]
      exact h
  | some r =>
      obtain ⟨q, origin, picked⟩ := r
      have htalk := vars_progress c p.username
        (Objective.eventAmount? (talk npc option).name (talk npc option).payload) now h
      rcases choose_cases now hchoice with ⟨-, answer, hr⟩ | ⟨target, b, answer, -, hb, -, hr⟩
      · rw [hr, Transition.journal_ruling]
        exact htalk
      · rw [hr]
        exact vars_update_branch p.username now htalk hb q target origin

theorem vars_start (h : j.Vars P) (q : Quest) (p : Player) (force : Bool) (step : Option String) :
    ((start q p force step now j).journal j).Vars P := by
  rcases start_cases q p force step now j with ⟨refusal, hr⟩ | ⟨s, -, -, -, hr⟩
  · rw [hr]
    exact h
  · rw [hr]
    exact h.activate (Activation.vars_start q s now)

theorem vars_abandon (h : j.Vars P) (quest : String) :
    ((abandon username quest j).journal j).Vars P := by
  rw [abandon]
  split
  · exact h.deactivate quest
  · exact h

theorem vars_complete (h : j.Vars P) (quest : String) (rewards : Option Rewards) :
    ((complete username quest rewards now j).journal j).Vars P := by
  rw [complete]
  split
  · exact h.deactivate quest
  · exact h

theorem vars_fail (h : j.Vars P) (quest : String) (reason : Option String) :
    ((fail username quest reason now j).journal j).Vars P := by
  rw [fail]
  split
  · exact h.deactivate quest
  · exact h

theorem vars_report (h : j.Vars P) (event : String) (payload : Payload) :
    ((report c username event payload now j).journal j).Vars P := by
  rw [report, Transition.journal_ruling]
  exact vars_progress _ _ _ _ h

theorem vars_poll (h : j.Vars P) (p : Player) : ((poll c p now j).journal j).Vars P := by
  rw [poll, Transition.journal_ruling]
  exact vars_progress _ _ _ _ h

theorem vars_advanceTo (h : j.Vars P) (q : Quest) (target : Step) :
    ((advanceTo q target username now j).journal j).Vars P := by
  rw [advanceTo]
  split
  · exact h
  · rename_i a ha
    exact vars_update_branch username now h ha q target a.step

/-- `Rules.setVariable` is the only rule that brings a new value into a journal. -/
theorem vars_setVariable (h : j.Vars P) (quest key : String) {value : Value} (hvalue : P value) :
    ((setVariable quest key value j).journal j).Vars P := by
  rw [setVariable]
  split
  · rename_i a ha
    exact h.update ((h.of_activation? ha).setVariable key hvalue)
  · exact h

end Rules

/-- Every operation preserves a property of the variables that the values it sets have. -/
theorem Operation.vars {P : Value → Prop} {c : Catalog} {now : Instant} {op : Operation}
    {username : String} {rule : Journal → Ruling Answer}
    (hplan : op.plan c now = .consult username rule)
    (hop : ∀ u quest key value, op = .setVariable u quest key value → P value) {j : Journal}
    (h : j.Vars P) : ((rule j).journal j).Vars P := by
  cases consults_of_plan hplan with
  | start p quest force step hq =>
      rw [Ruling.journal_map]
      exact Rules.vars_start now h _ p force step
  | abandon _ quest =>
      rw [Ruling.journal_map]
      exact Rules.vars_abandon username h quest
  | complete _ quest =>
      rw [Ruling.journal_map]
      exact Rules.vars_complete username now h quest _
  | fail _ quest reason =>
      rw [Ruling.journal_map]
      exact Rules.vars_fail username now h quest reason
  | report _ event payload =>
      rw [Ruling.journal_map]
      exact Rules.vars_report c username now h event payload
  | poll p =>
      rw [Ruling.journal_map]
      exact Rules.vars_poll c now h p
  | advanceTo _ quest step hq htarget =>
      rw [Ruling.journal_map]
      exact Rules.vars_advanceTo username now h _ _
  | setVariable _ quest key value =>
      rw [Ruling.journal_map]
      exact Rules.vars_setVariable h quest key (hop _ _ _ _ rfl)
  | choose p npc quest option =>
      rw [Ruling.journal_map]
      exact Rules.vars_choose c now h p npc quest option
  | _ => exact h

end Questline
