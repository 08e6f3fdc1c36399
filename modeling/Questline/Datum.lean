import Questline.Binary64
import Questline.Dict

/-!
# Document trees

A `Datum` is what a document says once its notation is left behind: the tree that
both the JSON and the TOML reader produce and that every record of the library can be
read from and written to. The members of a record stand in the order of the document
and a name may occur twice, because some readers of records must notice that.

A `Value` is a tree that a program would hold: names in increasing order, each once,
and no infinite numbers. `Datum.canonical` turns any tree into one, the last of several
members of one name counting, and leaves canonical trees as they are
(`canonical_eq_self`).
-/

namespace Questline

/-- A document tree. -/
inductive Datum where
  | null
  | bool (value : Bool)
  | int (value : Int)
  | float (value : Binary64)
  | text (value : String)
  | list (items : List Datum)
  | record (members : List (String × Datum))
  deriving Repr, Inhabited

namespace Datum

/-! ## Equality -/

mutual

def beq : Datum → Datum → Bool
  | null, null => true
  | bool a, bool b => a == b
  | int a, int b => a == b
  | float a, float b => decide (a = b)
  | text a, text b => a == b
  | list xs, list ys => beqItems xs ys
  | record ms, record ns => beqMembers ms ns
  | _, _ => false

def beqItems : List Datum → List Datum → Bool
  | [], [] => true
  | x :: xs, y :: ys => beq x y && beqItems xs ys
  | _, _ => false

def beqMembers : List (String × Datum) → List (String × Datum) → Bool
  | [], [] => true
  | (k, x) :: ms, (l, y) :: ns => k == l && beq x y && beqMembers ms ns
  | _, _ => false

end

mutual

theorem beq_iff_eq : ∀ a b : Datum, beq a b = true ↔ a = b
  | null, b => by cases b <;> simp [beq]
  | bool x, b => by cases b <;> simp [beq]
  | int x, b => by cases b <;> simp [beq]
  | float x, b => by cases b <;> simp [beq]
  | text x, b => by cases b <;> simp [beq]
  | list xs, b => by
    cases b with
    | list ys => simp [beq, beqItems_iff_eq xs ys]
    | _ => simp [beq]
  | record ms, b => by
    cases b with
    | record ns => simp [beq, beqMembers_iff_eq ms ns]
    | _ => simp [beq]

theorem beqItems_iff_eq : ∀ xs ys : List Datum, beqItems xs ys = true ↔ xs = ys
  | [], ys => by cases ys <;> simp [beqItems]
  | x :: xs, ys => by
    cases ys with
    | nil => simp [beqItems]
    | cons y ys => simp [beqItems, beq_iff_eq x y, beqItems_iff_eq xs ys]

theorem beqMembers_iff_eq :
    ∀ ms ns : List (String × Datum), beqMembers ms ns = true ↔ ms = ns
  | [], ns => by cases ns <;> simp [beqMembers]
  | (k, x) :: ms, ns => by
    cases ns with
    | nil => simp [beqMembers]
    | cons n ns =>
      obtain ⟨l, y⟩ := n
      simp [beqMembers, beq_iff_eq x y, beqMembers_iff_eq ms ns]

end

instance : DecidableEq Datum := fun a b => decidable_of_iff _ (beq_iff_eq a b)

/-! ## Depth -/

mutual

/-- How many lists and records are nested around the innermost leaf. -/
def depth : Datum → Nat
  | list xs => depthItems xs + 1
  | record ms => depthMembers ms + 1
  | _ => 0

def depthItems : List Datum → Nat
  | [] => 0
  | x :: xs => max (depth x) (depthItems xs)

def depthMembers : List (String × Datum) → Nat
  | [] => 0
  | (_, x) :: ms => max (depth x) (depthMembers ms)

end

/-! ## Canonical trees -/

mutual

/-- Whether names stand in increasing order, each once, and all numbers are finite. -/
def isCanonical : Datum → Bool
  | float x => x.isFinite
  | list xs => areCanonical xs
  | record ms => decide (ms.Pairwise fun a b => a.1 < b.1) && areCanonicalMembers ms
  | _ => true

def areCanonical : List Datum → Bool
  | [] => true
  | x :: xs => isCanonical x && areCanonical xs

def areCanonicalMembers : List (String × Datum) → Bool
  | [] => true
  | (_, x) :: ms => isCanonical x && areCanonicalMembers ms

end

mutual

/-- The tree with the members of each record in order, the last of a name counting;
a number that is not finite becomes `null`. -/
def canonical : Datum → Datum
  | float x => if x.isFinite then float x else null
  | list xs => list (canonicalItems xs)
  | record ms => record (Dict.ofList (canonicalMembers ms)).entries
  | d => d

def canonicalItems : List Datum → List Datum
  | [] => []
  | x :: xs => canonical x :: canonicalItems xs

def canonicalMembers : List (String × Datum) → List (String × Datum)
  | [] => []
  | (k, x) :: ms => (k, canonical x) :: canonicalMembers ms

end

theorem areCanonicalMembers_iff {ms : List (String × Datum)} :
    areCanonicalMembers ms = true ↔ ∀ m ∈ ms, isCanonical m.2 = true := by
  induction ms with
  | nil => simp [areCanonicalMembers]
  | cons m ms ih => obtain ⟨k, x⟩ := m; simp [areCanonicalMembers, ih]

/-- A table of entries holds only values that were in the list. -/
theorem mem_entries_ofList {ms : List (String × Datum)} {m : String × Datum}
    (h : m ∈ (Dict.ofList ms).entries) : m ∈ ms := by
  have hget : (Dict.ofList ms).get? m.1 = some m.2 :=
    Dict.findValue?_of_mem (Dict.ofList ms).sorted h
  rw [Dict.get?_ofList] at hget
  exact List.mem_reverse.mp (mem_of_findValue? hget)

mutual

theorem isCanonical_canonical : ∀ d : Datum, isCanonical (canonical d) = true
  | null => rfl
  | bool _ => rfl
  | int _ => rfl
  | text _ => rfl
  | float x => by
    by_cases h : x.isFinite = true <;> simp [canonical, h, isCanonical]
  | list xs => by
    simpa [canonical, isCanonical] using areCanonical_canonicalItems xs
  | record ms => by
    simp only [canonical, isCanonical, Bool.and_eq_true, decide_eq_true_eq]
    refine ⟨(Dict.ofList _).sorted, areCanonicalMembers_iff.mpr fun m hm => ?_⟩
    exact areCanonicalMembers_iff.mp (areCanonicalMembers_canonicalMembers ms) m
      (mem_entries_ofList hm)

theorem areCanonical_canonicalItems :
    ∀ xs : List Datum, areCanonical (canonicalItems xs) = true
  | [] => rfl
  | x :: xs => by
    simp [canonicalItems, areCanonical, isCanonical_canonical x, areCanonical_canonicalItems xs]

theorem areCanonicalMembers_canonicalMembers :
    ∀ ms : List (String × Datum), areCanonicalMembers (canonicalMembers ms) = true
  | [] => rfl
  | (k, x) :: ms => by
    simp [canonicalMembers, areCanonicalMembers, isCanonical_canonical x,
      areCanonicalMembers_canonicalMembers ms]

end

mutual

/-- A canonical tree stays as it is. -/
theorem canonical_eq_self : ∀ d : Datum, isCanonical d = true → canonical d = d
  | null, _ => rfl
  | bool _, _ => rfl
  | int _, _ => rfl
  | text _, _ => rfl
  | float x, h => by
    simp only [isCanonical] at h
    simp [canonical, h]
  | list xs, h => by
    simp only [isCanonical] at h
    simp [canonical, canonicalItems_eq_self xs h]
  | record ms, h => by
    simp only [isCanonical, Bool.and_eq_true, decide_eq_true_eq] at h
    have := Dict.ofList_entries (α := Datum) ⟨ms, h.1⟩
    simp only [canonical, canonicalMembers_eq_self ms h.2]
    exact congrArg (fun d => record d.entries) this

theorem canonicalItems_eq_self :
    ∀ xs : List Datum, areCanonical xs = true → canonicalItems xs = xs
  | [], _ => rfl
  | x :: xs, h => by
    simp only [areCanonical, Bool.and_eq_true] at h
    simp [canonicalItems, canonical_eq_self x h.1, canonicalItems_eq_self xs h.2]

theorem canonicalMembers_eq_self :
    ∀ ms : List (String × Datum), areCanonicalMembers ms = true → canonicalMembers ms = ms
  | [], _ => rfl
  | (k, x) :: ms, h => by
    simp only [areCanonicalMembers, Bool.and_eq_true] at h
    simp [canonicalMembers, canonical_eq_self x h.1, canonicalMembers_eq_self ms h.2]

end

end Datum

/-- A tree in canonical form: a free-form value as the game holds it. -/
structure Value where
  tree : Datum
  canonical : tree.isCanonical = true
  deriving DecidableEq

namespace Value

/-- The value of any tree. -/
def ofDatum (d : Datum) : Value := ⟨d.canonical, d.isCanonical_canonical⟩

instance : Inhabited Value := ⟨⟨.null, rfl⟩⟩
instance : Repr Value := ⟨fun v prec => reprPrec v.tree prec⟩

def text (s : String) : Value := ⟨.text s, rfl⟩

def int (n : Int) : Value := ⟨.int n, rfl⟩

/-- A value read back from its own tree is the same value. -/
@[simp] theorem ofDatum_tree (v : Value) : ofDatum v.tree = v := by
  obtain ⟨tree, h⟩ := v
  simp [ofDatum, Datum.canonical_eq_self tree h]

end Value

end Questline
