import Mathlib.Data.List.Forall2
import Questline.Proofs.Durability
import Questline.Proofs.Replica

/-!
# Entries that are filled in

`Activation.currentProgress` and `StepProgress.counter` record a missing entry when it is looked
up. A journal from the storage may lack some of them, and then an event fills them in though it
moves nothing. `Journal.Filled` says that this is all: the same journal but for entries without
progress on the current steps, where there were none.

An event that moves no counter leaves a filled journal behind (`Rules.filled_progress`), whatever
the journal was before: the entries of a step may be missing, its objectives may share ids, and a
quest may even be active twice. Hence the relation is transitive, since an entry can be filled in
twice.
-/

namespace Questline

theorem Dict.insert_insert {α : Type} (d : Dict α) (key : String) (v w : α) :
    (d.insert key v).insert key w = d.insert key w := by
  refine Dict.ext_get? fun k => ?_
  simp only [Dict.get?_insert]
  split <;> rfl

/-! ## Counters -/

/-- Progress with fresh counters for some objectives of a step that had none. -/
structure StepProgress.Extends (s : Step) (p p' : StepProgress) : Prop where
  completed : p'.completed = p.completed
  startedAt : p'.startedAt = p.startedAt
  completedAt : p'.completedAt = p.completedAt
  counters : ∀ id, p'.counters.get? id = p.counters.get? id
    ∨ p.counters.get? id = none ∧ ∃ o ∈ s.objectives, o.id = id
      ∧ p'.counters.get? id = some (Counter.fresh o.requiredCount)

namespace StepProgress.Extends

variable {s : Step} {p p' p'' : StepProgress}

theorem refl (s : Step) (p : StepProgress) : p.Extends s p := ⟨rfl, rfl, rfl, fun _ => Or.inl rfl⟩

theorem trans (h : p.Extends s p') (h' : p'.Extends s p'') : p.Extends s p'' where
  completed := h'.completed.trans h.completed
  startedAt := h'.startedAt.trans h.startedAt
  completedAt := h'.completedAt.trans h.completedAt
  counters id := by
    rcases h'.counters id with hsame' | ⟨hnone', hfresh'⟩
    · rw [hsame']
      exact h.counters id
    · rcases h.counters id with hsame | ⟨-, o, -, -, hsome⟩
      · exact Or.inr ⟨hsame ▸ hnone', hfresh'⟩
      · rw [hnone'] at hsome
        cases hsome

/-- Putting a counter back that was there, or a fresh one that was not, fills in at most. -/
theorem setCounter {o : Objective} (ho : o ∈ s.objectives) (p : StepProgress) :
    p.Extends s (p.setCounter o.id (p.counter o.id o.requiredCount)) where
  completed := rfl
  startedAt := rfl
  completedAt := rfl
  counters id := by
    simp only [StepProgress.setCounter, StepProgress.counter, Dict.get?_insert]
    by_cases hid : o.id = id
    · subst hid
      rw [if_pos rfl]
      cases hc : p.counters.get? o.id with
      | none => exact Or.inr ⟨rfl, o, ho, rfl, rfl⟩
      | some c => exact Or.inl rfl
    · exact Or.inl (if_neg hid)

end StepProgress.Extends

/-! ## Active quests -/

/-- The same run through a quest, or with entries filled in for its current step. -/
inductive Activation.Filled (c : Catalog) (now : Instant) (a : Activation) : Activation → Prop
  | same : Filled c now a a
  | filled {q : Quest} {s : Step} {p : StepProgress} (hq : c.get? a.quest = some q)
      (hs : q.step? a.step = some s) (hp : (a.currentProgress s now).Extends s p) :
      Filled c now a (a.setCurrentProgress p)

namespace Activation.Filled

variable {c : Catalog} {now : Instant} {a b d : Activation}

theorem quest (h : a.Filled c now b) : b.quest = a.quest := by
  cases h <;> rfl

theorem trans (h : a.Filled c now b) (h' : b.Filled c now d) : a.Filled c now d := by
  cases h with
  | same => exact h'
  | @filled q s p hq hs hp =>
      cases h' with
      | same => exact .filled hq hs hp
      | @filled q' s' p' hq' hs' hp' =>
          have hcurrent : (a.setCurrentProgress p).currentProgress s' now = p := by
            simp only [setCurrentProgress, currentProgress, Dict.get?_insert, if_true,
              Option.getD_some]
          have htwice : (a.setCurrentProgress p).setCurrentProgress p'
              = a.setCurrentProgress p' := by
            simp only [setCurrentProgress, Dict.insert_insert]
          cases hq.symm.trans hq'
          cases hs.symm.trans hs'
          rw [hcurrent] at hp'
          rw [htwice]
          exact .filled hq hs (hp.trans hp')

/-- Filling in the entries of a list twice is filling them in. -/
theorem trans_list {as bs ds : List Activation} (h : List.Forall₂ (Filled c now) as bs)
    (h' : List.Forall₂ (Filled c now) bs ds) : List.Forall₂ (Filled c now) as ds := by
  induction h generalizing ds with
  | nil => exact h'
  | cons hfirst _ ih =>
      obtain ⟨d, rest, hfirst', hrest', rfl⟩ := List.forall₂_cons_left_iff.mp h'
      exact .cons (hfirst.trans hfirst') (ih hrest')

/-- Entries filled in for the first activation of a quest. -/
theorem replaceFirst {l : List Activation} (hfirst : l.find? (·.quest = b.quest) = some a)
    (h : a.Filled c now b) : List.Forall₂ (Filled c now) l (Journal.replaceFirst b l) := by
  induction l with
  | nil => cases hfirst
  | cons d rest ih =>
      rw [List.find?_cons] at hfirst
      unfold Journal.replaceFirst
      have hrefl : List.Forall₂ (Filled c now) rest rest := List.forall₂_same.mpr fun _ _ => .same
      by_cases hd : d.quest = b.quest
      · rw [decide_eq_true hd] at hfirst
        cases hfirst
        rw [if_pos hd]
        exact .cons h hrefl
      · rw [decide_eq_false hd] at hfirst
        rw [if_neg hd]
        exact .cons .same (ih hfirst)

end Activation.Filled

/-! ## Journals -/

/-- The same journal, but for entries filled in for the current steps of active quests. -/
structure Journal.Filled (c : Catalog) (now : Instant) (j i : Journal) : Prop where
  username : i.username = j.username
  active : List.Forall₂ (Activation.Filled c now) j.active i.active
  completed : i.completed = j.completed
  failed : i.failed = j.failed
  lastUpdated : i.lastUpdated = j.lastUpdated

namespace Journal.Filled

variable {c : Catalog} {now : Instant} {j i k : Journal}

theorem refl (c : Catalog) (now : Instant) (j : Journal) : j.Filled c now j :=
  ⟨rfl, List.forall₂_same.mpr fun _ _ => .same, rfl, rfl, rfl⟩

theorem trans (h : j.Filled c now i) (h' : i.Filled c now k) : j.Filled c now k where
  username := h'.username.trans h.username
  active := Activation.Filled.trans_list h.active h'.active
  completed := h'.completed.trans h.completed
  failed := h'.failed.trans h.failed
  lastUpdated := h'.lastUpdated.trans h.lastUpdated

theorem update {a b : Activation} (ha : j.activation? a.quest = some a) (h : a.Filled c now b) :
    j.Filled c now (j.update b) where
  username := rfl
  active := Activation.Filled.replaceFirst (h.quest ▸ ha) h
  completed := rfl
  failed := rfl
  lastUpdated := rfl

end Journal.Filled

/-! ## Amounts that move no counter -/

namespace Rules

variable {amount? : Objective → Option Amount}

/-- `Rules.offer` that moves no counter only adds fresh counters. -/
theorem extends_offer {s : Step} {objectives : List Objective}
    (hobjectives : ∀ o ∈ objectives, o ∈ s.objectives) (p : StepProgress)
    (h : (offer amount? objectives p).2.1 = []) :
    p.Extends s (offer amount? objectives p).1 := by
  induction objectives generalizing p with
  | nil => exact .refl s p
  | cons o rest ih =>
      have hrest := ih fun x hx => hobjectives x (List.mem_cons_of_mem _ hx)
      cases hamount : amount? o with
      | none =>
          simp only [offer, hamount] at h ⊢
          exact hrest p h
      | some amount =>
          have hput := StepProgress.Extends.setCounter (hobjectives o List.mem_cons_self) p
          simp only [offer, hamount] at h ⊢
          cases hchanged : ((p.counter o.id o.requiredCount).apply amount).2.1 with
          | true =>
              rw [hchanged, if_pos rfl] at h
              cases h
          | false =>
              rw [Counter.apply_unchanged _ _ hchanged] at h ⊢
              simp only [hchanged, Bool.false_eq_true, if_false] at h ⊢
              exact hput.trans (hrest _ h)

/-- A `Rules.stride` without an update fills in entries of its step. -/
theorem filled_stride {c : Catalog} {q : Quest} {s : Step} {username : String} {count : UInt32}
    {now : Instant} {a : Activation} (hq : c.get? a.quest = some q)
    (hs : q.step? a.step = some s)
    (h : (stride q s username count amount? now a).update = none) :
    a.Filled c now (stride q s username count amount? now a).activation := by
  cases hopen : (a.currentProgress s now).completed with
  | true =>
      simp only [stride, hopen, if_true]
      exact .filled hq hs (.refl s _)
  | false =>
      have hextends := @extends_offer amount? s s.objectives (fun _ ho => ho)
        (a.currentProgress s now)
      have hmoved := offer_moved amount? s.objectives (a.currentProgress s now)
      rcases hoffer : offer amount? s.objectives (a.currentProgress s now) with
        ⟨p, moved, anyCompleted⟩
      simp only [hoffer] at hextends hmoved
      simp only [stride, hopen, hoffer, Bool.false_eq_true, if_false] at h ⊢
      cases moved with
      | nil =>
          have hnone : anyCompleted = false := Bool.eq_false_iff.mpr fun hany => hmoved hany rfl
          rw [hnone]
          exact .filled hq hs (hextends rfl)
      | cons m rest =>
          -- what has moved is answered
          simp only [List.isEmpty_cons, Bool.false_eq_true, if_false] at h
          split at h
          · cases h
          · split at h <;> cases h

variable {c : Catalog} {username : String} {now : Instant}

theorem filled_advanceQuest {j : Journal} {quest : String}
    (h : (advanceQuest c username amount? now j quest).updates = []) :
    j.Filled c now (advanceQuest c username amount? now j quest).journal := by
  rw [advanceQuest_eq] at h ⊢
  cases hstride : (j.thread quest).stride? c username amount? now quest with
  | none => exact .refl c now j
  | some r =>
      rw [hstride] at h
      have hupdate : r.update = none := Option.toList_eq_nil_iff.mp h
      obtain ⟨⟨q, a, s⟩, hposition, rfl⟩ := Option.map_eq_some_iff.mp hstride
      obtain ⟨hq, ha, hs⟩ := Thread.position?_eq_some.mp hposition
      obtain rfl : a.quest = quest := Journal.quest_of_activation? ha
      dsimp only
      rw [(stride_still hupdate).1, if_neg Bool.false_ne_true]
      exact .update ha (filled_stride hq hs hupdate)

theorem filled_advanceAll {quests : List String} {j : Journal}
    (h : (advanceAll c username amount? now quests j).updates = []) :
    j.Filled c now (advanceAll c username amount? now quests j).journal := by
  induction quests generalizing j with
  | nil => exact .refl c now j
  | cons quest rest ih =>
      obtain ⟨hfirst, hlater⟩ := List.append_eq_nil_iff.mp h
      exact (filled_advanceQuest hfirst).trans (ih hlater)

/-- A `Rules.progress` without updates fills in entries, and changes nothing else. -/
theorem filled_progress {j : Journal} (h : (progress c username amount? now j).updates = []) :
    j.Filled c now (progress c username amount? now j).journal := filled_advanceAll h

end Rules

end Questline
