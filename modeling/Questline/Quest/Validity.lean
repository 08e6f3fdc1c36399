import Questline.Quest.Basic

/-!
# Valid quests

A quest is valid when it has a step, no two steps share an id, and every branch leads
to one of its steps (`Quest.Valid`). `Quest.defect?` looks for the first thing that is
wrong with a quest and finds nothing exactly in valid ones (`defect?_eq_none_iff`).
-/

namespace Questline

/-- What can be wrong with a quest. -/
inductive Defect where
  | noSteps
  | duplicateStep (id : String)
  | unknownTarget (step target : String)
  deriving DecidableEq, Repr

namespace Defect

def message : Defect → String
  | noSteps => "quest has no steps"
  | duplicateStep id => "duplicate step id '" ++ id ++ "'"
  | unknownTarget step target =>
    "step '" ++ step ++ "' advances to unknown step '" ++ target ++ "'"

end Defect

namespace Quest

/-- A quest that can be played. -/
structure Valid (q : Quest) : Prop where
  steps_ne_nil : q.steps ≠ []
  stepIds_nodup : q.stepIds.Nodup
  targets_known : ∀ s ∈ q.steps, ∀ t ∈ s.branchTargets, t ∈ q.stepIds

/-- The first name that has occurred before. -/
def firstRepeated? (seen : List String) : List String → Option String
  | [] => none
  | x :: xs => if x ∈ seen then some x else firstRepeated? (x :: seen) xs

/-- The first defect: a missing step, else a repeated id, else a branch to nowhere. -/
def defect? (q : Quest) : Option Defect :=
  if q.steps.isEmpty then some .noSteps
  else
    match firstRepeated? [] q.stepIds with
    | some id => some (.duplicateStep id)
    | none =>
      q.steps.findSome? fun s =>
        (s.branchTargets.find? (· ∉ q.stepIds)).map (Defect.unknownTarget s.id)

theorem firstRepeated?_eq_none_iff {seen xs : List String} :
    firstRepeated? seen xs = none ↔ xs.Nodup ∧ ∀ x ∈ xs, x ∉ seen := by
  induction xs generalizing seen with
  | nil => simp [firstRepeated?]
  | cons x xs ih =>
    by_cases h : x ∈ seen
    · simp [firstRepeated?, h]
    · rw [firstRepeated?, if_neg h, ih]
      simp only [List.mem_cons, List.nodup_cons, not_or, forall_eq_or_imp]
      constructor
      · rintro ⟨hnodup, hall⟩
        exact ⟨⟨fun hx => (hall x hx).1 rfl, hnodup⟩, h, fun y hy => (hall y hy).2⟩
      · rintro ⟨⟨hx, hnodup⟩, _, hall⟩
        exact ⟨hnodup, fun y hy => ⟨fun heq => hx (heq ▸ hy), hall y hy⟩⟩

/-- Nothing is found exactly in valid quests. -/
theorem defect?_eq_none_iff {q : Quest} : q.defect? = none ↔ q.Valid := by
  unfold defect?
  split
  · rename_i h
    have h : q.steps = [] := by simpa using h
    simp only [reduceCtorEq, false_iff]
    exact fun hv => hv.steps_ne_nil h
  · rename_i h
    have h : q.steps ≠ [] := by simpa using h
    split
    · rename_i id hid
      simp only [reduceCtorEq, false_iff]
      intro hv
      rw [firstRepeated?_eq_none_iff.mpr ⟨hv.stepIds_nodup, by simp⟩] at hid
      cases hid
    · rename_i hrep
      obtain ⟨hnodup, _⟩ := firstRepeated?_eq_none_iff.mp hrep
      simp only [List.findSome?_eq_none_iff, Option.map_eq_none_iff, List.find?_eq_none,
        decide_eq_true_eq, Classical.not_not]
      exact ⟨fun ht => ⟨h, hnodup, ht⟩, fun hv => hv.targets_known⟩

instance (q : Quest) : Decidable q.Valid := decidable_of_iff _ defect?_eq_none_iff

end Quest

end Questline
