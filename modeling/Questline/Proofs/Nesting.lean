import Questline.Proofs.Archive
import Questline.Proofs.Variables

/-!
# What is nested too deeply is refused

The other half of reading what was written: a tree that is nested deeper than the reader goes is
written all the same, and its text is refused (`Json.read?_deep`). The reader is followed to the
first item that is too deep; those before it are read as ever, so it is reached, and from there
no list or record around it is read.

Around the variables of a journal lie four lists and records, and nothing else of a journal is
nested more than a few levels. So a kept journal can be read if and only if its variables are
nested no deeper than the limit less four (`DocumentRepository.decode?_encode_eq`).
-/

namespace Questline

namespace Json

/-- Whether a reader refuses a text, whatever comes after. -/
def Refuses {α : Type} (item : List Char → Option (α × List Char)) (text : List Char) : Prop :=
  Opens text ∧ ∀ rest, Delimited rest → item (text ++ rest) = none

section Items

variable {α : Type} {item : List Char → Option (α × List Char)} {text : α → List Char}
  {close : Char}

theorem delimited_comma (rest : List Char) : Delimited (',' :: rest) := by
  rintro c ⟨⟩
  exact .inl rfl

theorem delimited_close (hclose : close = ']' ∨ close = '\x7d') (rest : List Char) :
    Delimited (close :: rest) := by
  rintro c ⟨⟩
  exact .inr hclose

/-- Items are refused if one of them is and the others are read or refused. -/
theorem items?_refused (hclose : close = ']' ∨ close = '\x7d') {x : α} {xs : List α}
    (hitems : ∀ y ∈ x :: xs, Reads item (text y) y ∨ Refuses item (text y))
    (hrefused : ∃ y ∈ x :: xs, Refuses item (text y)) (fuel : Nat) (rest : List Char) :
    items? item close fuel (text x ++ (xs.flatMap (fun y => ',' :: text y) ++ close :: rest))
      = none := by
  induction xs generalizing x fuel with
  | nil =>
    cases fuel with
    | zero => rfl
    | succ fuel =>
      obtain ⟨y, hy, hopens, hnone⟩ := hrefused
      rw [List.mem_singleton.mp hy] at hopens hnone
      rw [items?, hopens.skip, List.flatMap_nil, List.nil_append,
        hnone _ (delimited_close hclose rest)]
  | cons y ys ih =>
    cases fuel with
    | zero => rfl
    | succ fuel =>
      rw [List.flatMap_cons, List.cons_append, List.cons_append, List.append_assoc]
      rcases hitems x List.mem_cons_self with ⟨hopens, hreads⟩ | ⟨hopens, hnone⟩
      · by_cases hlater : ∃ z ∈ y :: ys, Refuses item (text z)
        · have hrest := ih (fun z hz => hitems z (List.mem_cons_of_mem _ hz)) hlater fuel
          rw [items?, hopens.skip, hreads _ (delimited_comma _)]
          simp [skipSpaces, isSpace, hrest]
        · -- `x` is read, so it is none that is refused
          obtain ⟨z, hz, hrefuses⟩ := hrefused
          rcases List.mem_cons.mp hz with rfl | hz
          · have hread := hreads [] (by rintro c ⟨⟩)
            rw [hrefuses.2 [] (by rintro c ⟨⟩)] at hread
            cases hread
          · exact absurd ⟨z, hz, hrefuses⟩ hlater
      · rw [items?, hopens.skip, hnone _ (delimited_comma _)]

theorem enclosed?_refused (hclose : close = ']' ∨ close = '\x7d') {x : α} {xs : List α}
    (hitems : ∀ y ∈ x :: xs, Reads item (text y) y ∨ Refuses item (text y))
    (hrefused : ∃ y ∈ x :: xs, Refuses item (text y)) (fuel : Nat) (rest : List Char) :
    enclosed? item close fuel (text x ++ (xs.flatMap (fun y => ',' :: text y) ++ close :: rest))
      = none := by
  have hnone := items?_refused hclose hitems hrefused fuel rest
  have hopens : Opens (text x) := by
    rcases hitems x List.mem_cons_self with h | h
    · exact h.1
    · exact h.1
  have hskip := hopens.skip (xs.flatMap (fun y => ',' :: text y) ++ close :: rest)
  obtain ⟨c, tail, heq, -, hlist, hrecord⟩ := hopens
  unfold enclosed?
  rw [hskip]
  rw [heq, List.cons_append] at hnone ⊢
  have hne : c ≠ close := by
    rcases hclose with rfl | rfl
    · exact hlist
    · exact hrecord
  simp only [if_neg hne, hnone]

end Items

/-- A member is refused if its value is. -/
theorem refuses_member {value : List Char → Option (Datum × List Char)} {text : List Char}
    (name : String) (h : Refuses value text) :
    Refuses (member? value) ((quoted name).toList ++ ':' :: text) := by
  obtain ⟨hopens, hvalue⟩ := h
  refine ⟨⟨'"', _, by rw [toList_quoted, List.cons_append], rfl, by decide, by decide⟩, ?_⟩
  intro rest hrest
  have hname : string? ((quoted name).toList ++ ':' :: (text ++ rest))
      = some (name, ':' :: (text ++ rest)) := by
    rw [toList_quoted, List.cons_append, List.append_assoc, List.singleton_append]
    simp [string?, stringBody?_quoted]
  have hcolon : skipSpaces (':' :: (text ++ rest)) = ':' :: (text ++ rest) := by
    simp [skipSpaces, isSpace]
  rw [List.append_assoc, List.cons_append, member?, hname]
  simp only [hcolon, hopens.skip, hvalue rest hrest, Option.map_none]

theorem opens_bracket (cs : List Char) : Opens ('[' :: cs) :=
  ⟨'[', cs, rfl, rfl, by decide, by decide⟩

theorem opens_brace (cs : List Char) : Opens ('\x7b' :: cs) :=
  ⟨'\x7b', cs, rfl, rfl, by decide, by decide⟩

/-- No list or record is read where none may be nested. -/
theorem value?_bracket (fuel : Nat) (cs : List Char) : value? fuel 0 ('[' :: cs) = none := rfl

theorem value?_brace (fuel : Nat) (cs : List Char) : value? fuel 0 ('\x7b' :: cs) = none := rfl

theorem refuses_list {fuel nesting : Nat} {xs : List Datum}
    (hitems : ∀ x ∈ xs, Reads (value? fuel nesting) (write x).toList x
      ∨ Refuses (value? fuel nesting) (write x).toList)
    (hrefused : ∃ x ∈ xs, Refuses (value? fuel nesting) (write x).toList) :
    Refuses (value? fuel (nesting + 1)) (write (.list xs)).toList := by
  cases xs with
  | nil =>
    obtain ⟨x, hx, -⟩ := hrefused
    cases hx
  | cons x xs =>
    rw [toList_write_list]
    refine ⟨opens_bracket _, fun rest _ => ?_⟩
    rw [List.cons_append, value?_list, List.append_assoc, List.append_assoc,
      List.singleton_append, enclosed?_refused (.inl rfl) hitems hrefused, Option.map_none]

theorem refuses_record {fuel nesting : Nat} {ms : List (String × Datum)}
    (hitems : ∀ m ∈ ms, Reads (value? fuel nesting) (write m.2).toList m.2
      ∨ Refuses (value? fuel nesting) (write m.2).toList)
    (hrefused : ∃ m ∈ ms, Refuses (value? fuel nesting) (write m.2).toList) :
    Refuses (value? fuel (nesting + 1)) (write (.record ms)).toList := by
  have hmembers : ∀ m ∈ ms, Reads (member? (value? fuel nesting)) (memberText m) m
      ∨ Refuses (member? (value? fuel nesting)) (memberText m) := fun m hm =>
    (hitems m hm).imp (reads_member m.1) (refuses_member m.1)
  obtain ⟨n, hn, hrefuses⟩ := hrefused
  cases ms with
  | nil => cases hn
  | cons m ms =>
    rw [toList_write_record]
    refine ⟨opens_brace _, fun rest _ => ?_⟩
    rw [List.cons_append, value?_record, List.append_assoc, List.append_assoc,
      List.singleton_append,
      enclosed?_refused (.inr rfl) hmembers ⟨n, hn, refuses_member n.1 hrefuses⟩, Option.map_none]

theorem exists_deep_item {nesting : Nat} {xs : List Datum} (h : nesting < Datum.depthItems xs) :
    ∃ x ∈ xs, nesting < x.depth := by
  induction xs with
  | nil => exact absurd h (Nat.not_lt_zero _)
  | cons x xs ih =>
    rw [Datum.depthItems] at h
    rcases Nat.lt_or_ge nesting x.depth with hx | hx
    · exact ⟨x, List.mem_cons_self, hx⟩
    · obtain ⟨y, hy, hdeep⟩ := ih (by omega)
      exact ⟨y, List.mem_cons_of_mem _ hy, hdeep⟩

theorem exists_deep_member {nesting : Nat} {ms : List (String × Datum)}
    (h : nesting < Datum.depthMembers ms) : ∃ m ∈ ms, nesting < m.2.depth := by
  induction ms with
  | nil => exact absurd h (Nat.not_lt_zero _)
  | cons m ms ih =>
    rw [Datum.depthMembers] at h
    rcases Nat.lt_or_ge nesting m.2.depth with hm | hm
    · exact ⟨m, List.mem_cons_self, hm⟩
    · obtain ⟨n, hn, hdeep⟩ := ih (by omega)
      exact ⟨n, List.mem_cons_of_mem _ hn, hdeep⟩

/-- A tree that is nested deeper than the reader goes is refused. -/
theorem refuses_write {fuel : Nat} (nesting : Nat) (d : Datum) (hnumbers : holdsNumbers d = true)
    (hdepth : nesting < d.depth) (hfuel : (write d).toList.length ≤ fuel) :
    Refuses (value? fuel nesting) (write d).toList := by
  cases d with
  | list xs =>
    obtain ⟨-, hlength⟩ := length_write_list xs
    have hitem : ∀ x ∈ xs, holdsNumbers x = true ∧ (write x).toList.length ≤ fuel := fun x hx =>
      ⟨holdsItems_iff.mp hnumbers x hx, Nat.le_trans (hlength x hx) hfuel⟩
    cases nesting with
    | zero =>
      cases xs with
      | nil => exact ⟨opens_bracket _, fun _ _ => value?_bracket ..⟩
      | cons x xs =>
        rw [toList_write_list]
        exact ⟨opens_bracket _, fun _ _ => value?_bracket ..⟩
    | succ nesting =>
      obtain ⟨x, hx, hdeep⟩ := exists_deep_item (Nat.lt_of_succ_lt_succ hdepth)
      refine refuses_list (fun y hy => ?_)
        ⟨x, hx, refuses_write nesting x (hitem x hx).1 hdeep (hitem x hx).2⟩
      by_cases hy' : y.depth ≤ nesting
      · exact .inl (reads_write nesting y (hitem y hy).1 hy' (hitem y hy).2)
      · exact .inr (refuses_write nesting y (hitem y hy).1 (Nat.lt_of_not_le hy') (hitem y hy).2)
  | record ms =>
    obtain ⟨-, hlength⟩ := length_write_record ms
    have hmember : ∀ m ∈ ms, holdsNumbers m.2 = true ∧ (write m.2).toList.length ≤ fuel :=
      fun m hm => ⟨holdsMembers_iff.mp hnumbers m hm, Nat.le_trans (hlength m hm) hfuel⟩
    cases nesting with
    | zero =>
      cases ms with
      | nil => exact ⟨opens_brace _, fun _ _ => value?_brace ..⟩
      | cons m ms =>
        rw [toList_write_record]
        exact ⟨opens_brace _, fun _ _ => value?_brace ..⟩
    | succ nesting =>
      obtain ⟨m, hm, hdeep⟩ := exists_deep_member (Nat.lt_of_succ_lt_succ hdepth)
      refine refuses_record (fun n hn => ?_)
        ⟨m, hm, refuses_write nesting m.2 (hmember m hm).1 hdeep (hmember m hm).2⟩
      by_cases hn' : n.2.depth ≤ nesting
      · exact .inl (reads_write nesting n.2 (hmember n hn).1 hn' (hmember n hn).2)
      · exact .inr
          (refuses_write nesting n.2 (hmember n hn).1 (Nat.lt_of_not_le hn') (hmember n hn).2)
  | _ => exact absurd hdepth (Nat.not_lt_zero _)

/-- No tree is read from the text of one that is nested too deeply. -/
theorem read?_deep {d : Datum} (hnumbers : holdsNumbers d = true)
    (hdepth : nestingLimit < d.depth) : read? (write d) = none := by
  obtain ⟨hopens, hnone⟩ := refuses_write nestingLimit d hnumbers hdepth (Nat.le_succ _)
  have hwhole := hnone [] (by rintro c ⟨⟩)
  have hskip := hopens.skip []
  rw [List.append_nil] at hwhole hskip
  simp only [read?, hskip, hwhole]

end Json

open Json

/-! ## Journals -/

/-- Whether the variables of a journal are nested no deeper than they may be within a text. -/
def Journal.Shallow (j : Journal) : Prop := j.Vars fun v => v.tree.depth ≤ nestingLimit - 4

instance (j : Journal) : Decidable j.Shallow :=
  inferInstanceAs (Decidable (∀ a ∈ j.active, ∀ e ∈ a.vars.entries,
    e.2.tree.depth ≤ nestingLimit - 4))

/-- A text can hold the numbers of a value. -/
def Value.Numeric (v : Value) : Prop := holdsNumbers v.tree = true

theorem Journal.writable_iff {j : Journal} (h : j.Vars Value.Numeric) :
    j.Writable ↔ j.Shallow := by
  constructor
  · intro hw a ha e he
    exact (hw a ha e he).depth
  · intro hs a ha e he
    exact ⟨h a ha e he, hs a ha e he⟩

/-- A variable of a journal lies within four lists and records. -/
theorem Journal.depth_variable {j : Journal} {a : Activation} (ha : a ∈ j.active)
    {e : String × Value} (he : e ∈ a.vars.entries) : e.2.tree.depth + 4 ≤ j.toDatum.depth := by
  have hvars : e.2.tree.depth + 1 ≤ (Datum.ofDict Value.tree a.vars).depth := by
    refine Nat.succ_le_succ (depth_member (m := (e.1, e.2.tree)) ?_)
    exact List.mem_map.mpr ⟨e, he, rfl⟩
  have hactivation : e.2.tree.depth + 2 ≤ a.toDatum.depth := by
    refine Nat.le_trans (Nat.succ_le_succ hvars) (Nat.succ_le_succ
      (depth_member (m := ("variables", Datum.ofDict Value.tree a.vars)) ?_))
    simp
  have hactive : e.2.tree.depth + 3 ≤ (Datum.ofListWith Activation.toDatum j.active).depth := by
    refine Nat.le_trans (Nat.succ_le_succ hactivation) (Nat.succ_le_succ (depth_item ?_))
    exact List.mem_map.mpr ⟨a, ha, rfl⟩
  refine Nat.le_trans (Nat.succ_le_succ hactive) (Nat.succ_le_succ (depth_member
    (m := ("active_quests", Datum.ofListWith Activation.toDatum j.active)) ?_))
  simp

/-- A text can hold the numbers of a journal if it can hold those of the variables. -/
theorem Journal.numbers {j : Journal} (h : j.Vars Value.Numeric) :
    holdsNumbers j.toDatum = true := by
  refine (Journal.fits (n := j.toDatum.depth + 3) (Nat.le_add_left _ _) fun a ha e he => ?_).numbers
  have hdepth := Journal.depth_variable ha he
  exact ⟨h a ha e he, by omega⟩

/-- A kept journal is read again, or refused, by how deep its variables are nested. -/
theorem DocumentRepository.decode?_encode_eq {j : Journal} (h : j.Vars Value.Numeric) :
    decode? (encode j) = if j.Shallow then some j else none := by
  split
  · rename_i hshallow
    exact decode?_encode ((Journal.writable_iff h).mpr hshallow)
  · rename_i hdeep
    have hlimit : nestingLimit < j.toDatum.depth := by
      unfold Journal.Shallow Journal.Vars Activation.Vars at hdeep
      push Not at hdeep
      obtain ⟨a, ha, e, he, hvariable⟩ := hdeep
      have hdepth := Journal.depth_variable ha he
      unfold nestingLimit at *
      omega
    rw [decode?, encode, read?_deep (Journal.numbers h) hlimit, Option.bind_none]

end Questline
