import Questline.Datum

/-!
# Reading records off document trees

A record type is read from a tree field by field. `fields?` finds the members: by
name in a record, or by position in a list that gives the fields in their declared
order. A field that occurs twice is refused, members of other names are passed over.
Then each field is read as `required`, `optional` (absent or `null` reads as `none`) or
`withDefault` (absent reads as the default, `null` is refused).

JSON and TOML documents are read alike but for three leniencies, which a `Dialect`
names.
-/

namespace Questline

/-- The notation that a document was written in. -/
inductive Dialect where
  | json
  | toml
  deriving DecidableEq, Repr

namespace Dialect

/-- Whether a list may hold more elements than the record has fields. -/
def allowsSurplus : Dialect → Bool
  | json => false
  | toml => true

/-- Whether the kind of an objective may be given by its position among the kinds. -/
def countsKinds : Dialect → Bool
  | json => true
  | toml => false

/-- Whether a tree stands for "no content" after the name of a variant. -/
def isNothing : Dialect → Datum → Bool
  | json, .null => true
  | toml, .list [] => true
  | toml, .record [] => true
  | _, _ => false

end Dialect

namespace Datum

/-- The named members of a record. -/
abbrev Fields := List (String × Datum)

/-- How often a name occurs. -/
def occurrences (name : String) : Fields → Nat
  | [] => 0
  | (k, _) :: rest => (if k = name then 1 else 0) + occurrences name rest

/-- The fields of a record with the given names. In a list at least the first `needed`
of them must be given, and more than all of them only if a surplus is allowed. -/
def fields? (names : List String) (needed : Nat) (surplus : Bool) : Datum → Option Fields
  | .record ms => if names.all fun n => occurrences n ms ≤ 1 then some ms else none
  | .list xs =>
    if needed ≤ xs.length && (surplus || xs.length ≤ names.length) then some (names.zip xs)
    else none
  | _ => none

section Fields

variable {α : Type}

/-- A field that must be there. -/
def required (name : String) (read : Datum → Option α) (fs : Fields) : Option α :=
  match findValue? name fs with
  | some d => read d
  | none => none

/-- A field that may be absent or `null`. -/
def optional (name : String) (read : Datum → Option α) (fs : Fields) : Option (Option α) :=
  match findValue? name fs with
  | some .null => some none
  | some d => (read d).map some
  | none => some none

/-- A field that may be absent. -/
def withDefault (name : String) (read : Datum → Option α) (fallback : α) (fs : Fields) :
    Option α :=
  match findValue? name fs with
  | some d => read d
  | none => some fallback

end Fields

/-! ## Leaves -/

def bool? : Datum → Option Bool
  | .bool b => some b
  | _ => none

def text? : Datum → Option String
  | .text s => some s
  | _ => none

def uint32? : Datum → Option UInt32
  | .int n => if 0 ≤ n && n < UInt32.size then some (UInt32.ofNat n.toNat) else none
  | _ => none

def uint64? : Datum → Option UInt64
  | .int n => if 0 ≤ n && n < UInt64.size then some (UInt64.ofNat n.toNat) else none
  | _ => none

def int64? : Datum → Option Int64
  | .int n =>
    if Int64.minValue.toInt ≤ n && n ≤ Int64.maxValue.toInt then some (Int64.ofInt n) else none
  | _ => none

/-! ## Lists and tables -/

section Collections

variable {α : Type}

/-- Read each tree of a list. -/
def readAll (read : Datum → Option α) : List Datum → Option (List α)
  | [] => some []
  | d :: ds =>
    match read d, readAll read ds with
    | some x, some xs => some (x :: xs)
    | _, _ => none

/-- Read the tree of each entry. -/
def readEntries (read : Datum → Option α) : List (String × Datum) → Option (List (String × α))
  | [] => some []
  | (k, d) :: es =>
    match read d, readEntries read es with
    | some x, some xs => some ((k, x) :: xs)
    | _, _ => none

def listOf? (read : Datum → Option α) : Datum → Option (List α)
  | .list xs => readAll read xs
  | _ => none

/-- A table; of two entries of one name the later counts. -/
def dictOf? (read : Datum → Option α) : Datum → Option (Dict α)
  | .record ms => (readEntries read ms).map Dict.ofList
  | _ => none

end Collections

/-- Any tree, as a value. -/
def value? (d : Datum) : Option Value := some (Value.ofDatum d)

/-! ## Writing -/

section Writing

variable {α : Type}

/-- `null` for an absent value. -/
def ofOption (write : α → Datum) : Option α → Datum
  | some x => write x
  | none => .null

def ofListWith (write : α → Datum) (xs : List α) : Datum := .list (xs.map write)

def ofDict (write : α → Datum) (d : Dict α) : Datum :=
  .record (d.entries.map fun e => (e.1, write e.2))

def ofUInt32 (n : UInt32) : Datum := .int n.toNat

def ofUInt64 (n : UInt64) : Datum := .int n.toNat

def ofInt64 (n : Int64) : Datum := .int n.toInt

end Writing

/-! ## Reading what was written -/

section RoundTrip

variable {α : Type}

theorem uint32?_ofUInt32 (n : UInt32) : uint32? (ofUInt32 n) = some n := by
  have := n.toNat_lt
  simp [uint32?, ofUInt32]
  omega

theorem uint64?_ofUInt64 (n : UInt64) : uint64? (ofUInt64 n) = some n := by
  have := n.toNat_lt
  simp [uint64?, ofUInt64]
  omega

theorem int64?_ofInt64 (n : Int64) : int64? (ofInt64 n) = some n := by
  have hlow := n.minValue_le_toInt
  have hhigh := n.toInt_le
  simp only [int64?, ofInt64, hlow, hhigh, decide_true, Bool.and_self, if_true, Int64.ofInt_toInt]

theorem readAll_map {read : Datum → Option α} {write : α → Datum}
    (h : ∀ x, read (write x) = some x) (xs : List α) : readAll read (xs.map write) = some xs := by
  induction xs with
  | nil => rfl
  | cons x xs ih => simp [readAll, h, ih]

theorem readEntries_map {read : Datum → Option α} {write : α → Datum}
    (h : ∀ x, read (write x) = some x) (es : List (String × α)) :
    readEntries read (es.map fun e => (e.1, write e.2)) = some es := by
  induction es with
  | nil => rfl
  | cons e es ih => simp [readEntries, h, ih]

theorem listOf?_ofListWith {read : Datum → Option α} {write : α → Datum}
    (h : ∀ x, read (write x) = some x) (xs : List α) :
    listOf? read (ofListWith write xs) = some xs := readAll_map h xs

theorem dictOf?_ofDict {read : Datum → Option α} {write : α → Datum}
    (h : ∀ x, read (write x) = some x) (d : Dict α) :
    dictOf? read (ofDict write d) = some d := by
  simp [dictOf?, ofDict, readEntries_map h]

end RoundTrip

end Datum

end Questline
