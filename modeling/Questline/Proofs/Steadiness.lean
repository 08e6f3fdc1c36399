import Questline.Proofs.Durability
import Questline.Proofs.Edit
import Questline.Proofs.Faultless
import Questline.Proofs.Transparency
import Questline.Proofs.Unfinished

/-!
# Journals that are handled without a change

A rule answers with `Ruling.handle` when it has opened a journal for a change and found nothing to
do: a quest that is not active is abandoned, an event moves no counter. Then nothing is written, and
the slot is dirty all the same. The journal has not changed, though (`Operation.handled`): where
every objective of every current step is recorded, amounts that move no counter leave the journal as
it was, to the last entry. So where nothing fails, the journal in use never differs from the stored
one (`Engine.FaultlessInvariant.run`).
-/

namespace Questline

/-! ## Entries put back as they were -/

theorem Dict.insert_self {α : Type} {d : Dict α} {key : String} {value : α}
    (h : d.get? key = some value) : d.insert key value = d := by
  refine Dict.ext_get? fun k => ?_
  rw [Dict.get?_insert]
  split
  · rename_i hk
    rw [← hk, h]
  · rfl

theorem StepProgress.setCounter_self {p : StepProgress} {id : String} {c : Counter}
    (h : p.counters.get? id = some c) : p.setCounter id c = p := by
  rw [setCounter, Dict.insert_self h]

theorem Activation.setCurrentProgress_self {a : Activation} {p : StepProgress}
    (h : a.progress.get? a.step = some p) : a.setCurrentProgress p = a := by
  rw [setCurrentProgress, Dict.insert_self h]

theorem Journal.update_self {j : Journal} {a : Activation}
    (h : j.activation? a.quest = some a) : j.update a = j := by
  have hreplace : ∀ l : List Activation, l.find? (·.quest = a.quest) = some a →
      replaceFirst a l = l := by
    intro l hl
    induction l with
    | nil => rfl
    | cons b rest ih =>
        rw [List.find?_cons] at hl
        unfold replaceFirst
        by_cases hb : b.quest = a.quest
        · rw [decide_eq_true hb] at hl
          rw [if_pos hb, Option.some.inj hl]
        · rw [decide_eq_false hb] at hl
          rw [if_neg hb, ih hl]
  rw [update, hreplace j.active h]

/-! ## Amounts that move no counter -/

namespace Rules

variable {amount? : Objective → Option Amount}

/-- Amounts that move no counter leave the progress of a step as it was, if its objectives are
recorded. -/
theorem offer_unmoved {objectives : List Objective} {p : StepProgress}
    (hrecorded : ∀ o ∈ objectives, ∃ c, p.counters.get? o.id = some c)
    (h : (offer amount? objectives p).2.1 = []) : offer amount? objectives p = (p, [], false) := by
  induction objectives with
  | nil => rfl
  | cons o rest ih =>
      have hrest := ih fun x hx => hrecorded x (List.mem_cons_of_mem _ hx)
      cases hamount : amount? o with
      | none =>
          simp only [offer, hamount] at h ⊢
          exact hrest h
      | some amount =>
          obtain ⟨c, hc⟩ := hrecorded o List.mem_cons_self
          have hcounter : p.counter o.id o.requiredCount = c := by
            rw [StepProgress.counter, hc, Option.getD_some]
          simp only [offer, hamount, hcounter] at h ⊢
          cases hchanged : (c.apply amount).2.1 with
          | true =>
              rw [hchanged, if_pos rfl] at h
              cases h
          | false =>
              have hput : p.setCounter o.id (c.apply amount).1 = p := by
                rw [c.apply_unchanged amount hchanged, StepProgress.setCounter_self hc]
              simp only [hchanged, Bool.false_eq_true, if_false, hput] at h ⊢
              rw [hrest h]

/-- A `Rules.stride` without an update leaves the activation as it was. -/
theorem stride_unmoved {q : Quest} {s : Step} {username : String} {count : UInt32}
    {now : Instant} {a : Activation} {p : StepProgress}
    (hp : a.progress.get? a.step = some p)
    (hrecorded : ∀ o ∈ s.objectives, ∃ c, p.counters.get? o.id = some c)
    (h : (stride q s username count amount? now a).update = none) :
    (stride q s username count amount? now a).activation = a := by
  have hbefore : a.currentProgress s now = p := by
    rw [Activation.currentProgress, hp, Option.getD_some]
  simp only [stride, hbefore] at h ⊢
  cases hdone : p.completed with
  | true =>
      rw [if_pos rfl]
      exact Activation.setCurrentProgress_self hp
  | false =>
      rw [hdone, if_neg Bool.false_ne_true] at h
      rw [if_neg Bool.false_ne_true]
      by_cases hmoved : (offer amount? s.objectives p).2.1 = []
      · rw [offer_unmoved hrecorded hmoved]
        exact Activation.setCurrentProgress_self hp
      · rw [if_neg fun hempty => hmoved (List.isEmpty_iff.mp hempty)] at h
        split at h
        · cases h
        · split at h <;> cases h

variable {c : Catalog} {username : String} {now : Instant} {j : Journal}

theorem advanceQuest_unmoved (hj : j.log.Unfinished c) {quest : String}
    (h : (advanceQuest c username amount? now j quest).updates = []) :
    (advanceQuest c username amount? now j quest).journal = j := by
  rw [advanceQuest_eq] at h ⊢
  cases hstride : (j.thread quest).stride? c username amount? now quest with
  | none => rfl
  | some r =>
      rw [hstride] at h
      have hupdate : r.update = none := Option.toList_eq_nil_iff.mp h
      obtain ⟨⟨q, a, s⟩, hposition, rfl⟩ := Option.map_eq_some_iff.mp hstride
      obtain ⟨-, ha, -⟩ := Thread.position?_eq_some.mp hposition
      obtain ⟨p, hp, -⟩ := hj.orderly.opened quest a ha
      obtain ⟨hrecorded, -⟩ := hj.pending quest q a s p hposition hp
      have hquest : a.quest = quest := Journal.quest_of_activation? ha
      dsimp only
      rw [(stride_still hupdate).1, stride_unmoved hp hrecorded hupdate,
        if_neg Bool.false_ne_true]
      exact Journal.update_self (hquest.symm ▸ ha)

theorem advanceAll_unmoved (hj : j.log.Unfinished c) {quests : List String}
    (h : (advanceAll c username amount? now quests j).updates = []) :
    (advanceAll c username amount? now quests j).journal = j := by
  induction quests with
  | nil => rfl
  | cons quest rest ih =>
      simp only [advanceAll] at h ⊢
      obtain ⟨hfirst, hlater⟩ := List.append_eq_nil_iff.mp h
      rw [advanceQuest_unmoved hj hfirst] at hlater ⊢
      exact ih hlater

theorem progress_unmoved (hj : j.log.Unfinished c)
    (h : (progress c username amount? now j).updates = []) :
    (progress c username amount? now j).journal = j := advanceAll_unmoved hj h

end Rules

/-! ## Rulings without a write -/

/-- A ruling `handle` leaves the journal as it was. -/
def Ruling.HandleUnchanged {α : Type} (j : Journal) (r : Ruling α) : Prop :=
  ∀ i answer, r = .handle i answer → i = j

namespace Ruling

variable {α β : Type} {j : Journal}

theorem handleUnchanged_look (answer : Except Refusal α) : (look answer).HandleUnchanged j := by
  intro i answer' h
  cases h

theorem handleUnchanged_handle (answer : Except Refusal α) :
    (handle j answer).HandleUnchanged j := by
  intro i answer' h
  cases h
  rfl

theorem handleUnchanged_commit (i : Journal) (news : List Notification) (answer : α) :
    (commit i news answer).HandleUnchanged j := by
  intro i' answer' h
  cases h

theorem HandleUnchanged.map {r : Ruling α} (h : r.HandleUnchanged j) (f : α → β) :
    (r.map f).HandleUnchanged j := by
  intro i answer hr
  cases r with
  | look a => cases hr
  | handle i' a =>
      cases hr
      exact h i a rfl
  | commit i' news a => cases hr

end Ruling

namespace Rules

variable {c : Catalog} {username : String} {amount? : Objective → Option Amount} {now : Instant}
  {j : Journal}

theorem handleUnchanged_progress {α : Type} (hj : j.log.Unfinished c) (answer : α) :
    ((progress c username amount? now j).ruling answer).HandleUnchanged j := by
  intro i answer' h
  unfold Transition.ruling at h
  split at h
  · rename_i hempty
    cases h
    exact progress_unmoved hj (List.isEmpty_iff.mp hempty)
  · cases h

theorem handleUnchanged_choose (hj : j.log.Unfinished c) (p : Player) (npc quest option : String) :
    (choose c p npc quest option now j).HandleUnchanged j := by
  cases hchoice : choice? c p npc quest option j with
  | none =>
      simp only [choose, hchoice]
      exact Ruling.handleUnchanged_look _
  | some picked =>
      obtain ⟨q, origin, picked⟩ := picked
      rcases choose_cases now hchoice with ⟨-, answer, hr⟩ | ⟨target, b, answer, -, -, -, hr⟩
      · rw [hr]
        exact handleUnchanged_progress hj _
      · rw [hr]
        exact Ruling.handleUnchanged_commit _ _ _

theorem handleUnchanged_start (q : Quest) (p : Player) (force : Bool) (step : Option String) :
    (start q p force step now j).HandleUnchanged j := by
  rcases start_cases q p force step now j with ⟨refusal, hr⟩ | ⟨s, -, -, -, hr⟩
  · rw [hr]
    exact Ruling.handleUnchanged_look _
  · rw [hr]
    exact Ruling.handleUnchanged_commit _ _ _

theorem handleUnchanged_abandon (quest : String) :
    (abandon username quest j).HandleUnchanged j := by
  rw [abandon]
  split
  · exact Ruling.handleUnchanged_commit _ _ _
  · exact Ruling.handleUnchanged_handle _

theorem handleUnchanged_complete (quest : String) (rewards : Option Rewards) :
    (complete username quest rewards now j).HandleUnchanged j := by
  rw [complete]
  split
  · exact Ruling.handleUnchanged_commit _ _ _
  · exact Ruling.handleUnchanged_handle _

theorem handleUnchanged_fail (quest : String) (reason : Option String) :
    (fail username quest reason now j).HandleUnchanged j := by
  rw [fail]
  split
  · exact Ruling.handleUnchanged_commit _ _ _
  · exact Ruling.handleUnchanged_handle _

theorem handleUnchanged_advanceTo (q : Quest) (target : Step) :
    (advanceTo q target username now j).HandleUnchanged j := by
  rw [advanceTo]
  split
  · exact Ruling.handleUnchanged_handle _
  · exact Ruling.handleUnchanged_commit _ _ _

theorem handleUnchanged_setVariable (quest key : String) (value : Value) :
    (setVariable quest key value j).HandleUnchanged j := by
  rw [setVariable]
  split
  · exact Ruling.handleUnchanged_commit _ _ _
  · exact Ruling.handleUnchanged_handle _

end Rules

/-- **What is not written has not changed.** An operation on an unfinished journal whose ruling is a
`handle` leaves the journal as it was. -/
theorem Operation.handled {c : Catalog} {now : Instant} {op : Operation} {username : String}
    {rule : Journal → Ruling Answer} (hplan : op.plan c now = .consult username rule)
    {j : Journal} (hj : j.log.Unfinished c) : (rule j).HandleUnchanged j := by
  cases consults_of_plan hplan with
  | start p quest force step hq => exact (Rules.handleUnchanged_start _ p force step).map _
  | abandon _ quest => exact (Rules.handleUnchanged_abandon quest).map _
  | complete _ quest => exact (Rules.handleUnchanged_complete quest _).map _
  | fail _ quest reason => exact (Rules.handleUnchanged_fail quest reason).map _
  | report _ event payload => exact (Rules.handleUnchanged_progress hj _).map _
  | poll p => exact (Rules.handleUnchanged_progress hj _).map _
  | advanceTo _ quest step hq htarget => exact (Rules.handleUnchanged_advanceTo _ _).map _
  | setVariable _ quest key value => exact (Rules.handleUnchanged_setVariable quest key value).map _
  | choose p npc quest option => exact (Rules.handleUnchanged_choose hj p npc quest option).map _
  | _ => exact Ruling.handleUnchanged_look _

/-! ## The journal in use and the stored one -/

/-- The next access finds the record, or there is none and it finds the blank quest log. -/
def Place.Synced (p : Place) : Prop := p.kept? = p.record ∨ p.record = none ∧ p.log = .blank

/-- A ruling that changes nothing with `handle` keeps a place synced where nothing fails. -/
theorem Ruling.Leaves.synced {α : Type} {stamp : Instant} {j : Journal} {record : Option Journal}
    {r : Ruling α} {p : Place} (h : r.Leaves stamp j record p) (hunchanged : r.HandleUnchanged j)
    (hj : record = some j ∨ record = none ∧ j.log = .blank) : p.Synced := by
  cases h with
  | look answer dirty => exact hj.imp Eq.symm id
  | handle i answer =>
      cases hunchanged i answer rfl
      exact hj.imp Eq.symm id
  | commit i news answer => exact Or.inl rfl

variable {ρ : Type} [Repository ρ] [TableRepository ρ]

/-- At a synced place, an access finds the record or a journal with the blank quest log. -/
theorem Store.opened_of_synced {s : Store ρ} {username : String}
    (h : (s.place (playerKey username)).Synced) (c : Circumstances) :
    (s.place (playerKey username)).record = some (s.opened c username)
      ∨ (s.place (playerKey username)).record = none ∧ (s.opened c username).log = .blank := by
  have hlog := s.log_opened c username
  rcases h with hsame | ⟨hnone, hblank⟩
  · cases hrecord : (s.place (playerKey username)).record with
    | none =>
        refine Or.inr ⟨rfl, ?_⟩
        rw [opened, hsame, hrecord]
        rfl
    | some x =>
        refine Or.inl ?_
        rw [opened, hsame, hrecord]
        rfl
  · exact Or.inr ⟨hnone, hlog.trans hblank⟩

namespace Engine

/-- The invariant of runs in which nothing fails: `RunInvariant`, every journal is unfinished, and
every place is synced. -/
structure FaultlessInvariant (catalog : Catalog) (e : Engine ρ) : Prop where
  settled : e.RunInvariant catalog
  unfinished : ∀ key, (e.store.place key).All (·.Unfinished catalog)
  synced : ∀ key, (e.store.place key).Synced

theorem faultlessInvariant_new (catalog : Catalog) {repository : ρ}
    (hempty : TableRepository.records repository = ∅) (limit : Nat) :
    (new catalog repository limit).FaultlessInvariant catalog where
  settled := runInvariant_new catalog hempty limit
  unfinished := all_new QuestLog.Unfinished.blank catalog hempty limit
  synced _ := Or.inl rfl

/-- Step lemma: every operation but an eviction preserves the invariant where nothing fails. -/
theorem FaultlessInvariant.run {catalog : Catalog} (hvalid : catalog.Valid) {e : Engine ρ}
    (h : e.FaultlessInvariant catalog) {c : Circumstances} (hc : c.Faultless) {op : Operation}
    (hop : ∀ u, op ≠ .evict u) : (e.run c op).engine.FaultlessInvariant catalog where
  settled := h.settled.take hvalid (t := .perform c op) trivial
  unfinished key := take_unfinished hvalid h.settled (h.unfinished key) (.perform c op)
  synced := by
    intro key
    obtain ⟨rfl, hs, -, -⟩ := h.settled
    cases hplan : op.plan e.catalog c.now with
    | settled answer =>
        rw [show (e.run c op).engine = e by simp only [Engine.run, hplan]]
        exact h.synced key
    | evict username =>
        obtain ⟨u, hu⟩ := Operation.isEvict_of_plan hplan
        exact absurd hu (hop u)
    | consult username rule =>
        have hruled := run_faultless hs hc hplan
        by_cases hkey : playerKey username = key
        · subst hkey
          have hlog : (e.store.opened c username).log.Unfinished e.catalog := by
            rw [Store.log_opened]
            exact (h.unfinished _).log
          exact hruled.place.synced (Operation.handled hplan hlog)
            (Store.opened_of_synced (h.synced _) c)
        · rw [hruled.frame key hkey]
          exact h.synced key

end Engine

end Questline
