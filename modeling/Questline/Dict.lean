/-!
# Tables keyed by name

`Dict α` is a finite table from names to values. Its entries are kept in strictly
increasing order of their names, so a table has one representation only: two
tables with the same look-ups are equal (`Dict.ext_get?`), and reading a table
back from its own entries changes nothing (`Dict.ofList_entries`).

Every operation is pinned down by what it does to look-ups (`get?_insert`,
`get?_erase`); nothing downstream unfolds the list underneath.
-/

namespace Questline

/-- The value of the first entry with a name. -/
def findValue? {α : Type} (key : String) : List (String × α) → Option α
  | [] => none
  | (k, v) :: rest => if k = key then some v else findValue? key rest

section FindValue

variable {α : Type}

@[simp] theorem findValue?_nil (key : String) : findValue? key ([] : List (String × α)) = none :=
  rfl

@[simp] theorem findValue?_cons (key k : String) (v : α) (rest : List (String × α)) :
    findValue? key ((k, v) :: rest) = if k = key then some v else findValue? key rest := rfl

theorem findValue?_append (key : String) (es fs : List (String × α)) :
    findValue? key (es ++ fs) = (findValue? key es).or (findValue? key fs) := by
  induction es with
  | nil => rfl
  | cons e es ih => obtain ⟨k, v⟩ := e; by_cases h : k = key <;> simp [h, ih]

theorem mem_of_findValue? {key : String} {v : α} {es : List (String × α)}
    (h : findValue? key es = some v) : (key, v) ∈ es := by
  induction es with
  | nil => simp at h
  | cons e es ih =>
    obtain ⟨k, w⟩ := e
    by_cases hk : k = key
    · subst hk
      simp only [findValue?_cons, if_true, Option.some.injEq] at h
      exact h ▸ List.mem_cons_self
    · rw [findValue?_cons, if_neg hk] at h
      exact List.mem_cons_of_mem _ (ih h)

theorem findValue?_ne_none {key : String} {v : α} {es : List (String × α)}
    (h : (key, v) ∈ es) : findValue? key es ≠ none := by
  induction es with
  | nil => simp at h
  | cons e es ih =>
    obtain ⟨k, w⟩ := e
    by_cases hk : k = key
    · simp [hk]
    · rw [findValue?_cons, if_neg hk]
      rcases List.mem_cons.mp h with h | h
      · exact absurd (congrArg Prod.fst h).symm hk
      · exact ih h

end FindValue

/-- A finite table from names to values, entries in strictly increasing order. -/
structure Dict (α : Type) where
  entries : List (String × α)
  sorted : entries.Pairwise fun a b => a.1 < b.1
  deriving DecidableEq

namespace Dict

variable {α β : Type}

instance [Repr α] : Repr (Dict α) where
  reprPrec d prec := reprPrec d.entries prec

/-- The table with no entry. -/
def empty : Dict α := ⟨[], .nil⟩

instance : EmptyCollection (Dict α) := ⟨empty⟩
instance : Inhabited (Dict α) := ⟨empty⟩

/-- The value stored under a name. -/
def get? (d : Dict α) (key : String) : Option α := findValue? key d.entries

/-- Whether a name has a value. -/
def contains (d : Dict α) (key : String) : Bool := (d.get? key).isSome

def keys (d : Dict α) : List String := d.entries.map (·.1)

def values (d : Dict α) : List α := d.entries.map (·.2)

def size (d : Dict α) : Nat := d.entries.length

def isEmpty (d : Dict α) : Bool := d.entries.isEmpty

/-! ## Insertion and removal -/

/-- Put a value in its place of an ordered entry list. -/
def insertEntry (key : String) (value : α) : List (String × α) → List (String × α)
  | [] => [(key, value)]
  | (k, v) :: rest =>
    if key < k then (key, value) :: (k, v) :: rest
    else if key = k then (key, value) :: rest
    else (k, v) :: insertEntry key value rest

theorem mem_insertEntry {key : String} {value : α} {e : String × α} :
    ∀ {es : List (String × α)}, e ∈ insertEntry key value es → e = (key, value) ∨ e ∈ es
  | [], h => by simp [insertEntry] at h; exact .inl h
  | (k, v) :: rest, h => by
    unfold insertEntry at h
    split at h
    · rcases List.mem_cons.mp h with h | h
      · exact .inl h
      · exact .inr h
    · split at h
      · rcases List.mem_cons.mp h with h | h
        · exact .inl h
        · exact .inr (List.mem_cons_of_mem _ h)
      · rcases List.mem_cons.mp h with h | h
        · exact .inr (h ▸ List.mem_cons_self)
        · rcases mem_insertEntry h with h | h
          · exact .inl h
          · exact .inr (List.mem_cons_of_mem _ h)

/-- Of two different names, the one that is not smaller is greater. -/
theorem lt_of_not_lt_of_ne {a b : String} (h : ¬ a < b) (hne : a ≠ b) : b < a := by
  rcases String.le_total a b with hab | hab
  · exact absurd (String.le_antisymm hab (String.not_lt.mp h)) hne
  · exact Classical.byContradiction fun hba => hne (String.le_antisymm (String.not_lt.mp hba) hab)

theorem sorted_insertEntry {key : String} {value : α} :
    ∀ {es : List (String × α)}, es.Pairwise (fun a b => a.1 < b.1) →
      (insertEntry key value es).Pairwise fun a b => a.1 < b.1
  | [], _ => by simp [insertEntry]
  | (k, v) :: rest, h => by
    have hrest := List.pairwise_cons.mp h
    unfold insertEntry
    split
    · rename_i hlt
      refine List.pairwise_cons.mpr ⟨fun e he => ?_, h⟩
      rcases List.mem_cons.mp he with rfl | he
      · exact hlt
      · exact String.lt_trans hlt (hrest.1 e he)
    · split
      · rename_i heq
        subst heq
        exact List.pairwise_cons.mpr ⟨fun e he => hrest.1 e he, hrest.2⟩
      · rename_i hlt hne
        refine List.pairwise_cons.mpr ⟨fun e he => ?_, sorted_insertEntry hrest.2⟩
        rcases mem_insertEntry he with rfl | he
        · exact lt_of_not_lt_of_ne hlt hne
        · exact hrest.1 e he

/-- Store a value under a name; an earlier value of that name is replaced. -/
def insert (d : Dict α) (key : String) (value : α) : Dict α :=
  ⟨insertEntry key value d.entries, sorted_insertEntry d.sorted⟩

/-- Remove a name and its value. -/
def erase (d : Dict α) (key : String) : Dict α :=
  ⟨d.entries.filter (·.1 ≠ key), d.sorted.filter _⟩

/-- The table of a list of entries; of two entries with one name the later wins. -/
def ofList (es : List (String × α)) : Dict α :=
  es.foldl (fun d e => d.insert e.1 e.2) empty

/-- The same names with other values. -/
def map (f : α → β) (d : Dict α) : Dict β :=
  ⟨d.entries.map fun e => (e.1, f e.2), by
    rw [List.pairwise_map]; exact d.sorted⟩

/-! ## Look-ups -/

@[simp] theorem get?_empty (k : String) : (empty : Dict α).get? k = none := rfl

theorem findValue?_insertEntry (key : String) (value : α) (k : String) :
    ∀ es : List (String × α),
      findValue? k (insertEntry key value es)
        = if key = k then some value else findValue? k es
  | [] => rfl
  | (k', v') :: rest => by
    unfold insertEntry
    split
    · rfl
    · split
      · rename_i heq
        subst heq
        by_cases h : key = k <;> simp [h]
      · rename_i hne
        rw [findValue?_cons, findValue?_insertEntry key value k rest]
        by_cases h : k' = k
        · have hne' : key ≠ k := h ▸ hne
          simp [h, hne']
        · simp [h]

/-- Storing under one name leaves the look-ups of all others alone. -/
@[simp] theorem get?_insert (d : Dict α) (key k : String) (value : α) :
    (d.insert key value).get? k = if key = k then some value else d.get? k :=
  findValue?_insertEntry key value k d.entries

theorem findValue?_filter_ne (key k : String) (es : List (String × α)) :
    findValue? k (es.filter (·.1 ≠ key)) = if key = k then none else findValue? k es := by
  induction es with
  | nil => simp
  | cons e rest ih =>
    obtain ⟨k', v'⟩ := e
    rw [List.filter_cons]
    by_cases h : k' = key
    · subst h
      by_cases hk : k' = k <;> simp_all
    · by_cases hk : k' = k
      · have hne : key ≠ k := fun heq => h (hk.trans heq.symm)
        rw [if_pos (by simpa using h), if_neg hne]
        simp [hk]
      · by_cases hkey : key = k <;> simp_all

@[simp] theorem get?_erase (d : Dict α) (key k : String) :
    (d.erase key).get? k = if key = k then none else d.get? k :=
  findValue?_filter_ne key k d.entries

@[simp] theorem get?_map (f : α → β) (d : Dict α) (k : String) :
    (d.map f).get? k = (d.get? k).map f := by
  obtain ⟨es, hs⟩ := d
  show findValue? k (es.map fun e => (e.1, f e.2)) = (findValue? k es).map f
  clear hs
  induction es with
  | nil => rfl
  | cons e rest ih => obtain ⟨k', v'⟩ := e; by_cases h : k' = k <;> simp [h, ih]

/-! ## One representation per table -/

/-- A name below every name of a list is not in it. -/
theorem findValue?_eq_none_of_lt {k : String} {es : List (String × α)}
    (h : ∀ e ∈ es, k < e.1) : findValue? k es = none := by
  cases hf : findValue? k es with
  | none => rfl
  | some v => exact absurd (h _ (mem_of_findValue? hf)) (String.lt_irrefl k)

theorem findValue?_of_mem {k : String} {v : α} {es : List (String × α)}
    (hs : es.Pairwise fun a b => a.1 < b.1) (h : (k, v) ∈ es) : findValue? k es = some v := by
  induction es with
  | nil => simp at h
  | cons e es ih =>
    obtain ⟨k', v'⟩ := e
    obtain ⟨hlt, hs⟩ := List.pairwise_cons.mp hs
    rcases List.mem_cons.mp h with h | h
    · cases h; simp
    · have hne : k' ≠ k := fun heq => String.lt_irrefl k (by simpa [heq] using hlt _ h)
      rw [findValue?_cons, if_neg hne]
      exact ih hs h

theorem entries_ext {es fs : List (String × α)}
    (hes : es.Pairwise fun a b => a.1 < b.1) (hfs : fs.Pairwise fun a b => a.1 < b.1)
    (h : ∀ k, findValue? k es = findValue? k fs) : es = fs := by
  induction es generalizing fs with
  | nil =>
    cases fs with
    | nil => rfl
    | cons f fs => obtain ⟨k, v⟩ := f; simpa using h k
  | cons e es ih =>
    cases fs with
    | nil => obtain ⟨k, v⟩ := e; simpa using h k
    | cons f fs =>
      obtain ⟨k, v⟩ := e
      obtain ⟨k', v'⟩ := f
      obtain ⟨hle, hes'⟩ := List.pairwise_cons.mp hes
      obtain ⟨hlf, hfs'⟩ := List.pairwise_cons.mp hfs
      have hkey : k = k' := by
        refine Classical.byContradiction fun hne => ?_
        by_cases hlt : k < k'
        · have hnone : findValue? k ((k', v') :: fs) = none :=
            findValue?_eq_none_of_lt fun g hg => by
              rcases List.mem_cons.mp hg with rfl | hg
              · exact hlt
              · exact String.lt_trans hlt (hlf g hg)
          have := h k
          rw [hnone] at this
          simp at this
        · have hgt := lt_of_not_lt_of_ne hlt hne
          have hnone : findValue? k' ((k, v) :: es) = none :=
            findValue?_eq_none_of_lt fun g hg => by
              rcases List.mem_cons.mp hg with rfl | hg
              · exact hgt
              · exact String.lt_trans hgt (hle g hg)
          have := h k'
          rw [hnone] at this
          simp at this
      subst hkey
      have hval : v = v' := by simpa using h k
      have hrest : es = fs := by
        refine ih hes' hfs' fun j => ?_
        by_cases hj : k = j
        · rw [findValue?_eq_none_of_lt (fun g hg => hj ▸ hle g hg),
            findValue?_eq_none_of_lt (fun g hg => hj ▸ hlf g hg)]
        · have := h j
          simpa only [findValue?_cons, if_neg hj] using this
      rw [hval, hrest]

/-- Tables with the same look-ups are equal. -/
theorem ext_get? {d e : Dict α} (h : ∀ k, d.get? k = e.get? k) : d = e := by
  obtain ⟨ds, hds⟩ := d
  obtain ⟨es, hes⟩ := e
  have := entries_ext hds hes h
  subst this
  rfl

theorem get?_foldl_insert (k : String) (es : List (String × α)) (d : Dict α) :
    (es.foldl (fun d e => d.insert e.1 e.2) d).get? k
      = (findValue? k es.reverse).or (d.get? k) := by
  induction es generalizing d with
  | nil => simp
  | cons e es ih =>
    obtain ⟨k', v'⟩ := e
    rw [List.foldl_cons, ih, get?_insert, List.reverse_cons, findValue?_append, Option.or_assoc]
    by_cases h : k' = k <;> simp [h]

/-- In a list of entries the last one of a name counts. -/
theorem get?_ofList (es : List (String × α)) (k : String) :
    (ofList es).get? k = findValue? k es.reverse := by
  simp [ofList, get?_foldl_insert]

/-- Reading a table back from its own entries gives the table. -/
@[simp] theorem ofList_entries (d : Dict α) : ofList d.entries = d := by
  refine ext_get? fun k => ?_
  rw [get?_ofList]
  show findValue? k d.entries.reverse = findValue? k d.entries
  cases hl : findValue? k d.entries.reverse with
  | some v => exact (findValue?_of_mem d.sorted (List.mem_reverse.mp (mem_of_findValue? hl))).symm
  | none =>
    cases hl' : findValue? k d.entries with
    | none => rfl
    | some v =>
      exact absurd hl (findValue?_ne_none (List.mem_reverse.mpr (mem_of_findValue? hl')))

end Dict

/-! ## Sets of names -/

/-- A finite set of names. -/
abbrev NameSet := Dict Unit

namespace NameSet

def ofList (names : List String) : NameSet := Dict.ofList (names.map (·, ()))

def insert (s : NameSet) (name : String) : NameSet := Dict.insert s name ()

/-- The names in increasing order. -/
def toList (s : NameSet) : List String := s.keys

end NameSet

end Questline
