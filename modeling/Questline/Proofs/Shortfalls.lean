import Mathlib.Data.List.Forall2
import Questline.Gate

/-!
# The first shortfall

A gate looks at its requirements one after another. `Prerequisites.each` and
`ChoiceRequirements.each` list them in the order in which they are looked at: the six that both
gates share come first, and a requirement on a list of names is one requirement per name. What it
is to meet a requirement (`Requirement.Holds`) and what is said of one that is not met
(`Requirement.shortfall`) is a matter of that requirement alone.

A gate passes exactly if all its requirements are met, and else it reports the first that is not
(`gates_report_first`). That follows from one relation between a list of requirements and a verdict,
`Reports`, which carries over from two lists to the one after the other.
-/

namespace Questline

/-! ## Names up to case -/

namespace Text

/-- The same character, or an ASCII capital and its small letter. -/
def SameLetter (a b : Char) : Prop :=
  a = b ∨ (a.isUpper = true ∧ b.toNat = a.toNat + 32) ∨ (b.isUpper = true ∧ a.toNat = b.toNat + 32)

/-- Names that differ at most in the case of ASCII letters. -/
def SameName (s t : String) : Prop := List.Forall₂ SameLetter s.toList t.toList

theorem between_iff {c : Char} :
    (c.val ≥ 'A'.val ∧ c.val ≤ 'Z'.val) ↔ 65 ≤ c.toNat ∧ c.toNat ≤ 90 := by
  simp only [ge_iff_le, UInt32.le_iff_toNat_le]
  rfl

theorem isUpper_iff {c : Char} : c.isUpper = true ↔ 65 ≤ c.toNat ∧ c.toNat ≤ 90 :=
  decide_eq_true_iff.trans between_iff

theorem toNat_toLower (c : Char) :
    c.toLower.toNat = if 65 ≤ c.toNat ∧ c.toNat ≤ 90 then c.toNat + 32 else c.toNat := by
  unfold Char.toLower
  split
  · rename_i h
    have hbounds := between_iff.mp h
    rw [if_pos hbounds]
    show (c.val + 32).toNat = c.toNat + 32
    have hval : c.val.toNat = c.toNat := rfl
    have hplus : (32 : UInt32).toNat = 32 := rfl
    rw [UInt32.toNat_add, hval, hplus]
    omega
  · rename_i h
    rw [if_neg fun hbounds => h (between_iff.mpr hbounds)]

theorem toLower_eq_iff {a b : Char} : a.toLower = b.toLower ↔ SameLetter a b := by
  simp only [SameLetter, ← Char.toNat_inj, toNat_toLower, isUpper_iff]
  split <;> split <;> omega

theorem sameUpToAsciiCase_iff {s t : String} : sameUpToAsciiCase s t = true ↔ SameName s t := by
  rw [sameUpToAsciiCase, beq_iff_eq, SameName, ← List.forall₂_eq_eq_eq,
    List.forall₂_map_left_iff, List.forall₂_map_right_iff]
  simp only [toLower_eq_iff]

end Text

/-! ## Requirements one by one -/

/-- One thing that a gate looks at. -/
inductive Requirement where
  | minLevel (n : UInt32)
  | maxLevel (n : UInt32)
  | className (name : String)
  | race (name : String)
  | questFlag (flag : String)
  | flag (flag : String)
  /-- A quest that must have been completed. -/
  | completed (quest : String)
  /-- A quest that must not have been completed. -/
  | notCompleted (quest : String)
  /-- A flag that must not be set. -/
  | noFlag (flag : String)
  | onStep (position : QuestPosition)
  deriving DecidableEq, Repr

namespace Requirement

/-- Whether a player meets a requirement. -/
def Holds (p : Player) (j : Journal) : Requirement → Prop
  | minLevel n => n ≤ p.level
  | maxLevel n => p.level ≤ n
  | className name => ∃ given, p.className = some given ∧ Text.SameName given name
  | race name => ∃ given, p.race = some given ∧ Text.SameName given name
  | questFlag f => f ∈ p.questFlags.toList
  | flag f => f ∈ p.flags.toList
  | completed quest => ∃ d ∈ j.completed, d.quest = quest
  | notCompleted quest => ∀ d ∈ j.completed, d.quest ≠ quest
  | noFlag f => f ∉ p.flags.toList ∧ f ∉ p.questFlags.toList
  | onStep position => ∃ a, j.activation? position.quest = some a ∧ a.step = position.step

/-- What is said of a requirement that is not met. -/
def shortfall : Requirement → Shortfall
  | minLevel n => .levelTooLow n
  | maxLevel n => .levelTooHigh n
  | className name => .wrongClass name
  | race name => .wrongRace name
  | questFlag f => .missingQuestFlag f
  | flag f => .missingFlag f
  | completed quest => .questNotCompleted quest
  | notCompleted quest => .questAlreadyCompleted quest
  | noFlag f => .forbiddenFlag f
  | onStep position => .notOnStep position

end Requirement

/-- The shared requirements in the order in which a gate looks at them. -/
def Requirements.each (r : Requirements) : List Requirement :=
  r.minLevel.toList.map .minLevel ++ r.maxLevel.toList.map .maxLevel
    ++ r.className.toList.map .className ++ r.race.toList.map .race
    ++ r.questFlags.map .questFlag ++ r.flags.map .flag

def Prerequisites.each (r : Prerequisites) : List Requirement :=
  r.toRequirements.each ++ r.questsCompleted.map .completed
    ++ r.questsNotCompleted.map .notCompleted

def ChoiceRequirements.each (r : ChoiceRequirements) : List Requirement :=
  r.toRequirements.each ++ r.notFlags.map .noFlag ++ r.activeStep.toList.map .onStep

/-! ## Verdicts on requirements in order -/

/-- The verdict on requirements that are looked at in order: the first that is not met decides. -/
inductive Reports (p : Player) (j : Journal) : List Requirement → Option Shortfall → Prop
  | nil : Reports p j [] none
  | met {r : Requirement} {rest : List Requirement} {verdict : Option Shortfall}
      (hr : r.Holds p j) (hrest : Reports p j rest verdict) : Reports p j (r :: rest) verdict
  | unmet {r : Requirement} {rest : List Requirement} (hr : ¬ r.Holds p j) :
      Reports p j (r :: rest) (some r.shortfall)

/-- A shortfall is that of the first requirement that is not met. -/
def IsFirst (p : Player) (j : Journal) (rs : List Requirement) (f : Shortfall) : Prop :=
  ∃ before r after, rs = before ++ r :: after ∧ (∀ b ∈ before, b.Holds p j)
    ∧ ¬ r.Holds p j ∧ f = r.shortfall

section Verdicts

variable {p : Player} {j : Journal}

theorem not_isFirst_nil {f : Shortfall} : ¬ IsFirst p j [] f := by
  rintro ⟨before, r, after, h, -⟩
  exact List.append_ne_nil_of_right_ne_nil before (List.cons_ne_nil r after) h.symm

theorem isFirst_cons {r : Requirement} {rest : List Requirement} {f : Shortfall} :
    IsFirst p j (r :: rest) f
      ↔ (¬ r.Holds p j ∧ f = r.shortfall) ∨ (r.Holds p j ∧ IsFirst p j rest f) := by
  constructor
  · rintro ⟨before, r', after, hsplit, hbefore, hr', hf⟩
    cases before with
    | nil =>
        obtain ⟨rfl, -⟩ := List.cons.inj hsplit
        exact Or.inl ⟨hr', hf⟩
    | cons b before =>
        obtain ⟨rfl, hrest⟩ := List.cons.inj hsplit
        obtain ⟨hb, hbefore⟩ := List.forall_mem_cons.mp hbefore
        exact Or.inr ⟨hb, before, r', after, hrest, hbefore, hr', hf⟩
  · rintro (⟨hr, hf⟩ | ⟨hr, before, r', after, hrest, hbefore, hr', hf⟩)
    · exact ⟨[], r, rest, rfl, List.forall_mem_nil _, hr, hf⟩
    · refine ⟨r :: before, r', after, ?_, List.forall_mem_cons.mpr ⟨hr, hbefore⟩, hr', hf⟩
      rw [hrest, List.cons_append]

/-- A second list is looked at if the requirements of the first are met. -/
theorem isFirst_append {rs rs' : List Requirement} {f : Shortfall} :
    IsFirst p j (rs ++ rs') f
      ↔ IsFirst p j rs f ∨ ((∀ r ∈ rs, r.Holds p j) ∧ IsFirst p j rs' f) := by
  induction rs with
  | nil => simp [not_isFirst_nil]
  | cons r rest ih =>
      rw [List.cons_append, isFirst_cons, isFirst_cons, ih, List.forall_mem_cons]
      by_cases hr : r.Holds p j
      · simp [hr]
      · simp [hr]

namespace Reports

variable {rs rs' : List Requirement} {verdict verdict' : Option Shortfall}

theorem eq_none_iff (h : Reports p j rs verdict) :
    verdict = none ↔ ∀ r ∈ rs, r.Holds p j := by
  induction h with
  | nil => simp
  | met hr _ ih => rw [ih, List.forall_mem_cons, and_iff_right hr]
  | @unmet r _ hr =>
      refine ⟨nofun, fun hall => absurd (hall r List.mem_cons_self) hr⟩

theorem eq_some_iff (h : Reports p j rs verdict) {f : Shortfall} :
    verdict = some f ↔ IsFirst p j rs f := by
  induction h with
  | nil => exact ⟨nofun, fun h => absurd h not_isFirst_nil⟩
  | met hr _ ih =>
      rw [ih, isFirst_cons]
      exact ⟨fun h => Or.inr ⟨hr, h⟩, fun h => (h.resolve_left fun hl => hl.1 hr).2⟩
  | unmet hr =>
      rw [isFirst_cons, Option.some_inj, eq_comm]
      exact ⟨fun h => Or.inl ⟨hr, h⟩, fun h => (h.resolve_right fun hl => hr hl.1).2⟩

theorem append (h : Reports p j rs verdict) (h' : Reports p j rs' verdict') :
    Reports p j (rs ++ rs') (verdict.or verdict') := by
  induction h with
  | nil => simpa using h'
  | met hr _ ih => exact .met hr ih
  | unmet hr => exact .unmet hr

/-- One requirement per name of a list. -/
theorem of_find? {α : Type} {make : α → Requirement} {bad : α → Bool}
    (hbad : ∀ x, bad x = false ↔ (make x).Holds p j) (xs : List α) :
    Reports p j (xs.map make) ((xs.find? bad).map fun x => (make x).shortfall) := by
  induction xs with
  | nil => exact .nil
  | cons x rest ih =>
      cases hx : bad x with
      | true =>
          rw [List.find?_cons_of_pos hx]
          exact .unmet fun hr => Bool.false_ne_true (((hbad x).mpr hr).symm.trans hx)
      | false =>
          rw [List.find?_cons_of_neg (Bool.eq_false_iff.mp hx)]
          exact .met ((hbad x).mp hx) ih

/-- A requirement that there may be. -/
theorem of_bind {α : Type} {make : α → Requirement} {check : α → Option Shortfall}
    (hcheck : ∀ x, Reports p j [make x] (check x)) (x? : Option α) :
    Reports p j (x?.toList.map make) (x?.bind check) := by
  cases x? with
  | none => exact .nil
  | some x => exact hcheck x

theorem of_ite {r : Requirement} {good : Prop} [Decidable good] (hgood : good ↔ r.Holds p j) :
    Reports p j [r] (if good then none else some r.shortfall) := by
  split
  · rename_i h
    exact .met (hgood.mp h) .nil
  · rename_i h
    exact .unmet fun hr => h (hgood.mpr hr)

end Reports

/-! ## The two gates -/

theorem isNamed_iff {given : Option String} {name : String} :
    isNamed given name = true ↔ ∃ s, given = some s ∧ Text.SameName s name := by
  simp only [isNamed, Option.any_eq_true, Text.sameUpToAsciiCase_iff]

theorem NameSet.contains_iff {s : NameSet} {name : String} :
    s.contains name = true ↔ name ∈ s.toList := by
  unfold Dict.contains Dict.get?
  constructor
  · intro h
    obtain ⟨u, hu⟩ := Option.isSome_iff_exists.mp h
    exact List.mem_map.mpr ⟨(name, u), mem_of_findValue? hu, rfl⟩
  · intro h
    obtain ⟨⟨k, u⟩, hmem, rfl⟩ := List.mem_map.mp h
    exact Option.isSome_iff_ne_none.mpr (findValue?_ne_none hmem)

theorem Journal.isCompleted_iff {quest : String} :
    j.isCompleted quest = true ↔ ∃ d ∈ j.completed, d.quest = quest := by
  simp only [Journal.isCompleted, Journal.completion?, List.find?_isSome, decide_eq_true_iff]

theorem Journal.isOn_iff {position : QuestPosition} :
    j.isOn position = true
      ↔ ∃ a, j.activation? position.quest = some a ∧ a.step = position.step := by
  simp only [Journal.isOn, Option.any_eq_true, beq_iff_eq]

theorem Player.hasAnyFlag_eq_false_iff {flag : String} :
    p.hasAnyFlag flag = false ↔ flag ∉ p.flags.toList ∧ flag ∉ p.questFlags.toList := by
  rw [Player.hasAnyFlag, Bool.or_eq_false_iff, Bool.eq_false_iff, Bool.eq_false_iff, ne_eq, ne_eq,
    NameSet.contains_iff, NameSet.contains_iff]

/-- The six requirements that both gates share. -/
theorem Requirements.reports (r : Requirements) : Reports p j r.each (r.shortfall? p) := by
  refine ((((Reports.append ?_ ?_).append ?_).append ?_).append ?_).append ?_
  · refine Reports.of_bind (fun n => ?_) r.minLevel
    rw [← ite_not]
    exact .of_ite UInt32.not_lt
  · refine Reports.of_bind (fun n => ?_) r.maxLevel
    rw [← ite_not]
    exact .of_ite UInt32.not_lt
  · refine Reports.of_bind (fun name => ?_) r.className
    exact .of_ite isNamed_iff
  · refine Reports.of_bind (fun name => ?_) r.race
    exact .of_ite isNamed_iff
  · refine Reports.of_find? (fun f => ?_) r.questFlags
    rw [Bool.not_eq_false', NameSet.contains_iff]
    rfl
  · refine Reports.of_find? (fun f => ?_) r.flags
    rw [Bool.not_eq_false', NameSet.contains_iff]
    rfl

theorem Prerequisites.reports (r : Prerequisites) : Reports p j r.each (r.shortfall? p j) := by
  refine (Reports.append r.toRequirements.reports ?_).append ?_
  · refine Reports.of_find? (fun quest => ?_) r.questsCompleted
    rw [Bool.not_eq_false']
    exact Journal.isCompleted_iff
  · refine Reports.of_find? (fun quest => ?_) r.questsNotCompleted
    rw [Bool.eq_false_iff, ne_eq, Journal.isCompleted_iff]
    exact ⟨fun h d hd hquest => h ⟨d, hd, hquest⟩, fun h ⟨d, hd, hquest⟩ => h d hd hquest⟩

theorem ChoiceRequirements.reports (r : ChoiceRequirements) :
    Reports p j r.each (r.shortfall? p j) := by
  refine (Reports.append r.toRequirements.reports ?_).append ?_
  · exact Reports.of_find? (fun f => Player.hasAnyFlag_eq_false_iff) r.notFlags
  · exact Reports.of_bind (fun position => .of_ite Journal.isOn_iff) r.activeStep

/-- With equal shared requirements the two gates report the same, unless all of these are met. -/
theorem shared_first (r : Requirements) (completed notCompleted notFlags : List String)
    (activeStep : Option QuestPosition) :
    let quest : Prerequisites := ⟨r, completed, notCompleted⟩
    let choice : ChoiceRequirements := ⟨r, notFlags, activeStep⟩
    (∃ f, IsFirst p j r.each f ∧ quest.shortfall? p j = some f ∧ choice.shortfall? p j = some f)
    ∨ ((∀ x ∈ r.each, x.Holds p j)
      ∧ (∀ f, quest.shortfall? p j = some f
        ↔ IsFirst p j (completed.map .completed ++ notCompleted.map .notCompleted) f)
      ∧ ∀ f, choice.shortfall? p j = some f
        ↔ IsFirst p j (notFlags.map .noFlag ++ activeStep.toList.map .onStep) f) := by
  intro quest choice
  have hquest : ∀ f, quest.shortfall? p j = some f ↔ IsFirst p j r.each f
      ∨ ((∀ x ∈ r.each, x.Holds p j)
        ∧ IsFirst p j (completed.map .completed ++ notCompleted.map .notCompleted) f) := by
    intro f
    have heach : quest.each
        = r.each ++ (completed.map .completed ++ notCompleted.map .notCompleted) :=
      List.append_assoc ..
    rw [quest.reports.eq_some_iff, heach, isFirst_append]
  have hchoice : ∀ f, choice.shortfall? p j = some f ↔ IsFirst p j r.each f
      ∨ ((∀ x ∈ r.each, x.Holds p j)
        ∧ IsFirst p j (notFlags.map .noFlag ++ activeStep.toList.map .onStep) f) := by
    intro f
    have heach : choice.each
        = r.each ++ (notFlags.map .noFlag ++ activeStep.toList.map .onStep) :=
      List.append_assoc ..
    rw [choice.reports.eq_some_iff, heach, isFirst_append]
  cases hshared : r.shortfall? p with
  | some f =>
      have hfirst : IsFirst p j r.each f := r.reports.eq_some_iff.mp hshared
      exact Or.inl ⟨f, hfirst, (hquest f).mpr (Or.inl hfirst), (hchoice f).mpr (Or.inl hfirst)⟩
  | none =>
      have hmet : ∀ x ∈ r.each, x.Holds p j := r.reports.eq_none_iff.mp hshared
      have hnone : ∀ f, ¬ IsFirst p j r.each f := fun f hf => by
        cases hshared.symm.trans (r.reports.eq_some_iff.mpr hf)
      refine Or.inr ⟨hmet, fun f => ?_, fun f => ?_⟩
      · rw [hquest f, or_iff_right (hnone f), and_iff_right hmet]
      · rw [hchoice f, or_iff_right (hnone f), and_iff_right hmet]

end Verdicts

/-- **A gate passes if all its requirements are met, and else reports the first that is not.** The
requirements of a quest are looked at in the order of `Prerequisites.each`, those of a dialogue
option in the order of `ChoiceRequirements.each`, and what is reported is the shortfall of the first
requirement that does not hold. Where both have the same shared requirements, either both report the
same one of these, or all of these are met and each gate is decided by the rest. -/
theorem gates_report_first (p : Player) (j : Journal) :
    (∀ q : Quest,
      (q.prerequisites.shortfall? p j = none ↔ ∀ r ∈ q.prerequisites.each, r.Holds p j)
      ∧ ∀ f, q.prerequisites.shortfall? p j = some f ↔ IsFirst p j q.prerequisites.each f)
    ∧ (∀ c : Choice,
      (c.requirements.shortfall? p j = none ↔ ∀ r ∈ c.requirements.each, r.Holds p j)
      ∧ (c.isOffered p j = true ↔ ∀ r ∈ c.requirements.each, r.Holds p j)
      ∧ ∀ f, c.requirements.shortfall? p j = some f ↔ IsFirst p j c.requirements.each f)
    ∧ ∀ (r : Requirements) (completed notCompleted notFlags : List String)
        (activeStep : Option QuestPosition),
      let quest : Prerequisites := ⟨r, completed, notCompleted⟩
      let choice : ChoiceRequirements := ⟨r, notFlags, activeStep⟩
      (∃ f, IsFirst p j r.each f ∧ quest.shortfall? p j = some f
        ∧ choice.shortfall? p j = some f)
      ∨ ((∀ x ∈ r.each, x.Holds p j)
        ∧ (∀ f, quest.shortfall? p j = some f
          ↔ IsFirst p j (completed.map .completed ++ notCompleted.map .notCompleted) f)
        ∧ ∀ f, choice.shortfall? p j = some f
          ↔ IsFirst p j (notFlags.map .noFlag ++ activeStep.toList.map .onStep) f) := by
  refine ⟨fun q => ?_, fun c => ?_, shared_first⟩
  · have hreports : Reports p j q.prerequisites.each _ := q.prerequisites.reports
    exact ⟨hreports.eq_none_iff, fun f => hreports.eq_some_iff⟩
  · have hreports : Reports p j c.requirements.each _ := c.requirements.reports
    refine ⟨hreports.eq_none_iff, ?_, fun f => hreports.eq_some_iff⟩
    rw [Choice.isOffered, Option.isNone_iff_eq_none]
    exact hreports.eq_none_iff

/-- The level is enough and one of the flags is set; the next one is named. -/
example :
    let r : Prerequisites := ⟨⟨some 3, none, none, none, [], ["oath", "seal", "ring"]⟩, [], []⟩
    r.shortfall? ((Player.named "ann" 3).withFlag "oath") (.empty "ann" .epoch)
      = some (.missingFlag "seal") := by
  decide +kernel

end Questline
