import Mathlib.Data.List.TakeWhile
import Questline.Json.Printer
import Questline.Json.Reader
import Questline.Proofs.Digits

/-!
# Reading JSON that was written

A tree that fits into a text is read back from it (`read?_write`). It fits when it is nested
no deeper than the reader goes and a text can hold its numbers: the integers in the range that
is read as integers, and the doubles whose decimals lead back to them.

The reader is followed along the text. `Reads` says that it takes a text for a value whatever
comes after, provided that a value may end there (`Delimited`); a list or a record reads if
its items do, and the induction is on the depth that is left.
-/

namespace Questline.Json

open Questline.Text

/-! ## Strings -/

/-- Four digits that name no surrogate stand for a character of their own. -/
theorem stringBody?_unit {a b c d : Char} {u : Nat} {cs : List Char}
    (hu : codeUnit? a b c d = some u) (hhigh : isHighSurrogate u = false)
    (hlow : isLowSurrogate u = false) :
    stringBody? ('\\' :: 'u' :: a :: b :: c :: d :: cs)
      = (stringBody? cs).map fun (s, rest) => (Char.ofNat u :: s, rest) := by
  rw [stringBody?.eq_def]
  split
  -- whether another escape of this kind follows makes no difference
  case h_3 | h_4 => simp_all
  case h_5 hother heq =>
    simp only [List.cons.injEq, true_and] at heq
    exact absurd heq.2.symm (hother _ _ _ _ _ heq.1.symm)
  case h_6 hother heq =>
    simp only [List.cons.injEq] at heq
    exact absurd heq.2.symm (hother _ _ heq.1.symm)
  all_goals simp_all

theorem stringBody?_plain {c : Char} {cs : List Char} (hquote : c ≠ '"') (hslash : c ≠ '\\')
    (hcontrol : ¬ c.toNat < 0x20) :
    stringBody? (c :: cs) = (stringBody? cs).map fun (s, rest) => (c :: s, rest) := by
  simp [stringBody?, hslash, hcontrol]

theorem codeUnit?_control :
    ∀ n < 0x20, codeUnit? '0' '0' (hexDigit (n / 16)) (hexDigit (n % 16)) = some n := by
  decide

/-- A character is read back from the form it has within a string. -/
theorem stringBody?_escaped (c : Char) (cs : List Char) :
    stringBody? (escaped c ++ cs) = (stringBody? cs).map fun (s, rest) => (c :: s, rest) := by
  unfold escaped
  -- the characters with an escape of their own
  iterate 7
    split
    case isTrue h =>
      subst h
      rfl
  split
  case isTrue h =>
    have hunit := codeUnit?_control c.toNat h
    have hhigh : isHighSurrogate c.toNat = false := by simp [isHighSurrogate]; omega
    have hlow : isLowSurrogate c.toNat = false := by simp [isLowSurrogate]; omega
    exact (stringBody?_unit hunit hhigh hlow).trans (by rw [Char.ofNat_toNat]; rfl)
  case isFalse hquote hslash _ _ _ _ _ hcontrol =>
    exact stringBody?_plain hquote hslash hcontrol

theorem stringBody?_quoted (s rest : List Char) :
    stringBody? (s.flatMap escaped ++ '"' :: rest) = some (s, rest) := by
  induction s with
  | nil => rfl
  | cons c s ih => simp [stringBody?_escaped, ih]

/-! ## Numbers -/

/-- What may follow a value within a text: nothing, a comma or the end of a list or a record. -/
def Delimited (rest : List Char) : Prop := ∀ c ∈ rest.head?, c = ',' ∨ c = ']' ∨ c = '\x7d'

theorem Delimited.stops {rest : List Char} (h : Delimited rest) : Stops rest := by
  intro c hc
  rcases h c hc with rfl | rfl | rfl <;> rfl

/-! What the reader of numbers makes of a whole text, it makes of that text in front of
anything that may follow a value. -/

theorem fraction?_append {cs cs' rest : List Char} {f : Option (List Char)} (h : Delimited rest)
    (hcs : fraction? cs = some (f, cs')) : fraction? (cs ++ rest) = some (f, cs' ++ rest) := by
  unfold fraction? at hcs
  split at hcs
  case h_1 cs =>
    simp only [List.cons_append, fraction?, takeWhile_append_stops h.stops,
      dropWhile_append_stops h.stops]
    dsimp only at hcs
    split at hcs
    · cases hcs
    · next hdigits =>
      cases hcs
      rw [if_neg hdigits]
  case h_2 hpoint =>
    cases hcs
    unfold fraction?
    split
    case h_1 tail heq =>
      cases cs with
      | nil => exact absurd (h '.' (by simp_all)) (by decide)
      | cons c cs => exact absurd (by simp_all) (hpoint cs)
    case h_2 => rfl

/-- The sign of an exponent and what follows. -/
def exponentSign (cs : List Char) : Bool × List Char :=
  match cs with
  | '-' :: cs => (true, cs)
  | '+' :: cs => (false, cs)
  | _ => (false, cs)

/-- The digits of an exponent. -/
def exponentDigits? (negative : Bool) (cs : List Char) : Option (Option Int × List Char) :=
  if (cs.takeWhile isDigit).isEmpty then none
  else
    some (some (if negative then -(natOfDigits 10 (cs.takeWhile isDigit) : Int)
      else natOfDigits 10 (cs.takeWhile isDigit)), cs.dropWhile isDigit)

theorem exponent?_small (cs : List Char) :
    exponent? ('e' :: cs) = exponentDigits? (exponentSign cs).1 (exponentSign cs).2 := rfl

theorem exponent?_large (cs : List Char) :
    exponent? ('E' :: cs) = exponentDigits? (exponentSign cs).1 (exponentSign cs).2 := rfl

theorem exponent?_nothing {cs : List Char} (h : ∀ c ∈ cs.head?, c ≠ 'e' ∧ c ≠ 'E') :
    exponent? cs = some (none, cs) := by
  cases cs with
  | nil => rfl
  | cons c cs =>
    obtain ⟨hsmall, hlarge⟩ := h c rfl
    simp [exponent?, hsmall, hlarge]

theorem exponentSign_append {cs rest : List Char} (h : Delimited rest) :
    exponentSign (cs ++ rest) = ((exponentSign cs).1, (exponentSign cs).2 ++ rest) := by
  cases cs with
  | nil =>
    cases rest with
    | nil => rfl
    | cons c rest => rcases h c rfl with rfl | rfl | rfl <;> rfl
  | cons c cs =>
    rw [List.cons_append]
    by_cases hminus : c = '-'
    · subst hminus
      rfl
    · by_cases hplus : c = '+'
      · subst hplus
        rfl
      · simp [exponentSign, hminus, hplus]

theorem exponentDigits?_append {negative : Bool} {cs cs' rest : List Char} {e : Option Int}
    (h : Delimited rest) (hcs : exponentDigits? negative cs = some (e, cs')) :
    exponentDigits? negative (cs ++ rest) = some (e, cs' ++ rest) := by
  unfold exponentDigits? at hcs ⊢
  rw [takeWhile_append_stops h.stops, dropWhile_append_stops h.stops]
  split at hcs
  case isTrue => cases hcs
  case isFalse hdigits =>
    cases hcs
    rw [if_neg hdigits]

theorem exponent?_append {cs cs' rest : List Char} {e : Option Int} (h : Delimited rest)
    (hcs : exponent? cs = some (e, cs')) : exponent? (cs ++ rest) = some (e, cs' ++ rest) := by
  cases cs with
  | nil =>
    cases hcs
    refine exponent?_nothing fun c hc => ?_
    rcases h c hc with rfl | rfl | rfl <;> decide
  | cons c cs =>
    rw [List.cons_append]
    by_cases hsmall : c = 'e'
    · subst hsmall
      rw [exponent?_small] at hcs ⊢
      rw [exponentSign_append h]
      exact exponentDigits?_append h hcs
    · by_cases hlarge : c = 'E'
      · subst hlarge
        rw [exponent?_large] at hcs ⊢
        rw [exponentSign_append h]
        exact exponentDigits?_append h hcs
      · rw [exponent?_nothing (by rintro d ⟨⟩; exact ⟨hsmall, hlarge⟩)] at hcs
        cases hcs
        exact exponent?_nothing (by rintro d ⟨⟩; exact ⟨hsmall, hlarge⟩)

theorem number?_append {negative : Bool} {cs cs' rest : List Char} {d : Datum} (h : Delimited rest)
    (hcs : number? negative cs = some (d, cs')) :
    number? negative (cs ++ rest) = some (d, cs' ++ rest) := by
  unfold number? at hcs ⊢
  rw [takeWhile_append_stops h.stops, dropWhile_append_stops h.stops]
  dsimp only at hcs ⊢
  split at hcs
  case isTrue => cases hcs
  case isFalse hdigits =>
    rw [if_neg hdigits]
    simp only [Option.bind_eq_bind, Option.bind_eq_some_iff] at hcs
    obtain ⟨⟨f, afterPoint⟩, hfraction, ⟨e, afterExponent⟩, hexponent, hcs⟩ := hcs
    simp only [Option.bind_eq_bind, fraction?_append h hfraction, exponent?_append h hexponent,
      Option.bind_some]
    split at hcs
    case isTrue hint =>
      cases hcs
      rw [if_pos hint]
    case isFalse hint =>
      obtain ⟨x, hx, hcs⟩ := Option.bind_eq_some_iff.mp hcs
      cases hcs
      rw [if_neg hint, hx]
      rfl

theorem gather_all {ds : List Char} {n : Nat} (hds : ∀ c ∈ ds, isDigit c = true)
    (h : Nat.ofDigitChars 10 ds n < UInt64.size) :
    gather n ds = (Nat.ofDigitChars 10 ds n, ds.length, []) := by
  induction ds generalizing n with
  | nil => simp [gather]
  | cons d ds ih =>
    have hd : d.isDigit = true := isDigit_eq d ▸ hds d (by simp)
    have hnext : n * 10 + (digitValue? 10 d).getD 0 = 10 * n + (d.toNat - '0'.toNat) := by
      rw [digitValue?_ten, if_pos hd, Option.getD_some, Nat.mul_comm]
    rw [Nat.ofDigitChars_cons, ← hnext] at h ⊢
    have hlt : n * 10 + (digitValue? 10 d).getD 0 < UInt64.size := by
      refine Nat.lt_of_le_of_lt ?_ h
      rw [Nat.ofDigitChars_eq_ofDigitChars_zero]
      exact Nat.le_add_right_of_le (Nat.le_mul_of_pos_left _ (Nat.pow_pos (by decide)))
    simp only [gather, if_pos hlt, ih (fun c hc => hds c (List.mem_cons_of_mem _ hc)) h,
      List.length_cons]

/-- The digits of a number are read as the number. Minus zero is read as a double. -/
theorem number?_toDigits (negative : Bool) {n : Nat}
    (hlt : n < UInt64.size) (hneg : negative = true → 0 < n ∧ n ≤ 2 ^ 63) :
    number? negative (Nat.toDigits 10 n)
      = some (.int (if negative then -(n : Int) else n), []) := by
  have hdigits : ∀ c ∈ Nat.toDigits 10 n, isDigit c = true := isDigit_of_mem_toDigits
  have htake : (Nat.toDigits 10 n).takeWhile isDigit = Nat.toDigits 10 n :=
    List.takeWhile_eq_self_iff.mpr hdigits
  have hdrop : (Nat.toDigits 10 n).dropWhile isDigit = [] :=
    List.dropWhile_eq_nil_iff.mpr hdigits
  have hshape : ¬ ((Nat.toDigits 10 n).isEmpty
      || (1 < (Nat.toDigits 10 n).length && (Nat.toDigits 10 n).head? == some '0')) = true := by
    intro h
    rw [Bool.or_eq_true, Bool.and_eq_true, decide_eq_true_eq, beq_iff_eq, List.isEmpty_iff] at h
    rcases h with h | ⟨hlong, hzero⟩
    · exact Nat.toDigits_ne_nil h
    · rw [head?_toDigits n hzero] at hlong
      exact absurd hlong (by decide)
  have hgather : gather 0 (Nat.toDigits 10 n) = (n, (Nat.toDigits 10 n).length, []) := by
    rw [gather_all hdigits (by rwa [Nat.ofDigitChars_ten_toDigits]), Nat.ofDigitChars_ten_toDigits]
  unfold number?
  dsimp only
  rw [htake, hdrop, if_neg hshape]
  simp only [fraction?, exponent?, Option.bind_eq_bind, Option.bind_some, hgather]
  rw [if_pos]
  cases negative with
  | false => rfl
  | true =>
    obtain ⟨hpos, hle⟩ := hneg rfl
    have : Int64.minValue.toInt = -(2 ^ 63 : Nat) := rfl
    simp [hpos, this]
    omega

/-! ## Values -/

/-- Whether the text of a double is read as that double. -/
def survives (x : Binary64) : Bool :=
  x.isFinite && number? x.isNegative (decimalText x.shortest).toList = some (.float x, [])

mutual

/-- Whether a text can hold the numbers of a tree: its integers are in the range that is
read as integers, and its doubles are read back. -/
def holdsNumbers : Datum → Bool
  | .int n => Int64.minValue.toInt ≤ n && n < UInt64.size
  | .float x => survives x
  | .list xs => holdsItems xs
  | .record ms => holdsMembers ms
  | _ => true

def holdsItems : List Datum → Bool
  | [] => true
  | x :: xs => holdsNumbers x && holdsItems xs

def holdsMembers : List (String × Datum) → Bool
  | [] => true
  | (_, x) :: ms => holdsNumbers x && holdsMembers ms

end

theorem holdsNumbers_int {n : Int} :
    holdsNumbers (.int n) = true ↔ -9223372036854775808 ≤ n ∧ n < 18446744073709551616 := by
  have hmin : Int64.minValue.toInt = -9223372036854775808 := rfl
  have hmax : UInt64.size = 18446744073709551616 := rfl
  simp only [holdsNumbers, hmin, hmax, Bool.and_eq_true, decide_eq_true_eq]
  omega

/-! What a value starts with decides how it is read. -/

theorem value?_digit {fuel nesting : Nat} {c : Char} {cs : List Char} (h : isDigit c = true) :
    value? fuel nesting (c :: cs) = number? false (c :: cs) := by
  unfold value?
  split
  case h_8 => rfl
  all_goals
    rename_i heq
    obtain ⟨rfl, -⟩ := List.cons.inj heq
    exact absurd h (by decide)

theorem value?_minus (fuel nesting : Nat) (cs : List Char) :
    value? fuel nesting ('-' :: cs) = number? true cs := by
  cases nesting <;> rfl

theorem value?_quote (fuel nesting : Nat) (cs : List Char) :
    value? fuel nesting ('"' :: cs)
      = (stringBody? cs).map fun (s, rest) => (.text (String.ofList s), rest) := by
  cases nesting <;> rfl

theorem value?_list (fuel nesting : Nat) (cs : List Char) :
    value? fuel (nesting + 1) ('[' :: cs)
      = (enclosed? (value? fuel nesting) ']' fuel cs).map fun (xs, rest) => (.list xs, rest) := rfl

theorem value?_record (fuel nesting : Nat) (cs : List Char) :
    value? fuel (nesting + 1) ('\x7b' :: cs)
      = (enclosed? (member? (value? fuel nesting)) '\x7d' fuel cs).map
          fun (ms, rest) => (.record ms, rest) := rfl

/-- Whether a text starts like a value. -/
def Opens (cs : List Char) : Prop :=
  ∃ c rest, cs = c :: rest ∧ isSpace c = false ∧ c ≠ ']' ∧ c ≠ '\x7d'

/-- Only what starts like a value is read as one. -/
theorem opens_of_value? {fuel nesting : Nat} {cs rest : List Char} {d : Datum}
    (h : value? fuel nesting cs = some (d, rest)) : Opens cs := by
  cases cs with
  | nil => cases nesting <;> cases h
  | cons c cs =>
    have hne : ∀ e, e ∈ [' ', '\n', '\t', '\r', ']', '\x7d'] → c ≠ e := by
      rintro e he rfl
      have hnone : value? fuel nesting (c :: cs) = none := by
        simp only [List.mem_cons, List.not_mem_nil, or_false] at he
        rcases he with rfl | rfl | rfl | rfl | rfl | rfl <;> cases nesting <;> rfl
      rw [hnone] at h
      cases h
    refine ⟨c, cs, rfl, ?_, hne _ (by simp), hne _ (by simp)⟩
    simp [isSpace, hne]

theorem Opens.skip {cs : List Char} (h : Opens cs) (rest : List Char) :
    skipSpaces (cs ++ rest) = cs ++ rest := by
  obtain ⟨c, tail, rfl, hspace, -, -⟩ := h
  simp [skipSpaces, hspace]

/-! ## Lists and records -/

/-- Whether a reader takes a text, in front of anything that may follow a value, for a value. -/
def Reads {α : Type} (item : List Char → Option (α × List Char)) (text : List Char) (x : α) :
    Prop :=
  Opens text ∧ ∀ rest, Delimited rest → item (text ++ rest) = some (x, rest)

section Items

variable {α : Type} {item : List Char → Option (α × List Char)} {text : α → List Char}
  {close : Char}

theorem items?_texts (hclose : close = ']' ∨ close = '\x7d') {x : α} {xs : List α}
    (hreads : ∀ y ∈ x :: xs, Reads item (text y) y) {fuel : Nat} (hfuel : xs.length < fuel)
    (rest : List Char) :
    items? item close fuel (text x ++ (xs.flatMap (fun y => ',' :: text y) ++ close :: rest))
      = some (x :: xs, rest) := by
  obtain ⟨hopens, hitem⟩ := hreads x (by simp)
  induction xs generalizing x fuel with
  | nil =>
    cases fuel with
    | zero => exact absurd hfuel (by simp)
    | succ fuel =>
      have hdelimited : Delimited (close :: rest) := by
        rintro c ⟨⟩
        exact .inr hclose
      rw [items?, hopens.skip, List.flatMap_nil, List.nil_append, hitem _ hdelimited]
      rcases hclose with rfl | rfl <;> rfl
  | cons y ys ih =>
    cases fuel with
    | zero => exact absurd hfuel (by simp)
    | succ fuel =>
      obtain ⟨hopens', hitem'⟩ := hreads y (by simp)
      have hrest := ih (fun z hz => hreads z (List.mem_cons_of_mem _ hz)) (by simpa using hfuel)
        hopens' hitem'
      have hdelimited : ∀ tail, Delimited (',' :: tail) := by
        rintro tail c ⟨⟩
        exact .inl rfl
      rw [items?, hopens.skip, List.flatMap_cons, List.cons_append, List.cons_append,
        hitem _ (hdelimited _), List.append_assoc]
      simp [skipSpaces, isSpace, hrest]

theorem enclosed?_texts (hclose : close = ']' ∨ close = '\x7d') {x : α} {xs : List α}
    (hreads : ∀ y ∈ x :: xs, Reads item (text y) y) {fuel : Nat} (hfuel : xs.length < fuel)
    (rest : List Char) :
    enclosed? item close fuel
        (text x ++ (xs.flatMap (fun y => ',' :: text y) ++ close :: rest))
      = some (x :: xs, rest) := by
  have hitems := items?_texts hclose hreads hfuel rest
  obtain ⟨hopens, -⟩ := hreads x (by simp)
  have hskip := hopens.skip (xs.flatMap (fun y => ',' :: text y) ++ close :: rest)
  obtain ⟨c, tail, heq, -, hlist, hrecord⟩ := hopens
  unfold enclosed?
  rw [hskip]
  rw [heq, List.cons_append] at hitems ⊢
  have hne : c ≠ close := by
    rcases hclose with rfl | rfl
    · exact hlist
    · exact hrecord
  simp only [if_neg hne, hitems]

theorem enclosed?_nothing (hclose : close = ']' ∨ close = '\x7d') (fuel : Nat)
    (rest : List Char) : enclosed? item close fuel (close :: rest) = some ([], rest) := by
  rcases hclose with rfl | rfl <;> rfl

end Items

/-- Texts after commas are as long as each of them, and have a character for each at least. -/
theorem length_texts {α : Type} (text : α → List Char) (xs : List α) :
    xs.length ≤ (xs.flatMap fun y => ',' :: text y).length
      ∧ ∀ y ∈ xs, (text y).length ≤ (xs.flatMap fun y => ',' :: text y).length := by
  induction xs with
  | nil => exact ⟨Nat.le_refl _, fun _ h => absurd h List.not_mem_nil⟩
  | cons x xs ih =>
    obtain ⟨hcount, hlength⟩ := ih
    simp only [List.flatMap_cons, List.length_append, List.length_cons]
    refine ⟨by omega, fun y hy => ?_⟩
    rcases List.mem_cons.mp hy with rfl | hy
    · omega
    · have := hlength y hy
      omega

theorem toList_quoted (s : String) :
    (quoted s).toList = '"' :: (s.toList.flatMap escaped ++ ['"']) := by
  simp [quoted]

/-- A member is read from its name, a colon and the text of its value. -/
theorem reads_member {value : List Char → Option (Datum × List Char)} {text : List Char}
    {x : Datum} (name : String) (h : Reads value text x) :
    Reads (member? value) ((quoted name).toList ++ ':' :: text) (name, x) := by
  obtain ⟨hopens, hvalue⟩ := h
  refine ⟨⟨'"', _, by rw [toList_quoted, List.cons_append], rfl, by decide, by decide⟩, ?_⟩
  intro rest hrest
  have hname : string? ((quoted name).toList ++ ':' :: (text ++ rest))
      = some (name, ':' :: (text ++ rest)) := by
    rw [toList_quoted, List.cons_append, List.append_assoc, List.singleton_append]
    simp [string?, stringBody?_quoted]
  have hcolon : skipSpaces (':' :: (text ++ rest)) = ':' :: (text ++ rest) := by
    simp [skipSpaces, isSpace]
  rw [List.append_assoc, List.cons_append, member?, hname]
  simp only [hcolon, hopens.skip, hvalue rest hrest, Option.map_some]

/-- The text of a member. -/
def memberText (m : String × Datum) : List Char :=
  (quoted m.1).toList ++ ':' :: (write m.2).toList

theorem toList_write_int (n : Int) :
    (write (.int n)).toList
      = (if decide (n < 0) then ['-'] else []) ++ Nat.toDigits 10 n.natAbs := by
  rw [show write (.int n) = toString n from rfl]
  cases n with
  | ofNat n => exact toList_toString n
  | negSucc n =>
    rw [show toString (Int.negSucc n) = "-" ++ toString (n + 1) from rfl, String.toList_append,
      toList_toString, if_pos (by simp)]
    rfl

theorem toList_writeItems (xs : List Datum) :
    (writeItems xs).toList = xs.flatMap fun x => ',' :: (write x).toList := by
  induction xs with
  | nil => rfl
  | cons x xs ih =>
    rw [show writeItems (x :: xs) = "," ++ write x ++ writeItems xs from rfl]
    simp [ih]

theorem toList_writeMembers (ms : List (String × Datum)) :
    (writeMembers ms).toList = ms.flatMap fun m => ',' :: memberText m := by
  induction ms with
  | nil => rfl
  | cons m ms ih =>
    rw [show writeMembers (m :: ms)
      = "," ++ quoted m.1 ++ ":" ++ write m.2 ++ writeMembers ms from rfl]
    simp [memberText, ih]

theorem toList_write_list (x : Datum) (xs : List Datum) :
    (write (.list (x :: xs))).toList
      = '[' :: ((write x).toList ++ (xs.flatMap (fun y => ',' :: (write y).toList) ++ [']'])) := by
  rw [show write (.list (x :: xs)) = "[" ++ write x ++ writeItems xs ++ "]" from rfl]
  simp [toList_writeItems]

theorem toList_write_record (m : String × Datum) (ms : List (String × Datum)) :
    (write (.record (m :: ms))).toList
      = '\x7b' :: (memberText m ++ (ms.flatMap (fun n => ',' :: memberText n) ++ ['\x7d'])) := by
  rw [show write (.record (m :: ms))
    = "\x7b" ++ quoted m.1 ++ ":" ++ write m.2 ++ writeMembers ms ++ "\x7d" from rfl]
  simp [toList_writeMembers, memberText]

theorem reads_of_value? {fuel nesting : Nat} {text : List Char} {d : Datum}
    (h : ∀ rest, Delimited rest → value? fuel nesting (text ++ rest) = some (d, rest)) :
    Reads (value? fuel nesting) text d := by
  have hwhole := h [] (by rintro c ⟨⟩)
  rw [List.append_nil] at hwhole
  exact ⟨opens_of_value? hwhole, h⟩

/-- The text of a number, after its sign, is read as what the reader of numbers makes of it. -/
theorem reads_number {fuel nesting : Nat} {text : List Char} {d : Datum} {negative : Bool}
    (h : number? negative text = some (d, [])) :
    Reads (value? fuel nesting) ((if negative then ['-'] else []) ++ text) d := by
  refine reads_of_value? fun rest hrest => ?_
  have hnumber := number?_append hrest h
  rw [List.nil_append] at hnumber
  cases negative with
  | true => exact (value?_minus fuel nesting (text ++ rest)).trans hnumber
  | false =>
    cases text with
    | nil => cases h
    | cons c cs =>
      have hdigit : isDigit c = true := by
        rw [← Bool.not_eq_false]
        intro hfalse
        simp [number?, hfalse] at h
      exact (value?_digit hdigit).trans hnumber

theorem reads_int {fuel nesting : Nat} {n : Int} (h : holdsNumbers (.int n) = true) :
    Reads (value? fuel nesting) (write (.int n)).toList (.int n) := by
  obtain ⟨hlow, hhigh⟩ := holdsNumbers_int.mp h
  have hmax : UInt64.size = 18446744073709551616 := rfl
  have hread : number? (decide (n < 0)) (Nat.toDigits 10 n.natAbs) = some (.int n, []) := by
    rw [number?_toDigits _ (by omega) (by simp; omega)]
    simp only [decide_eq_true_eq]
    congr 3
    split <;> omega
  rw [toList_write_int]
  exact reads_number hread

theorem reads_float {fuel nesting : Nat} {x : Binary64} (h : survives x = true) :
    Reads (value? fuel nesting) (write (.float x)).toList (.float x) := by
  simp only [survives, Bool.and_eq_true, decide_eq_true_eq] at h
  obtain ⟨hfinite, hnumber⟩ := h
  have htext : (write (.float x)).toList
      = (if x.isNegative then ['-'] else []) ++ (decimalText x.shortest).toList := by
    rw [show write (.float x) = if x.isFinite then floatText x else "null" from rfl,
      if_pos hfinite, floatText, String.toList_append]
    cases x.isNegative <;> rfl
  rw [htext]
  exact reads_number hnumber

theorem reads_bool (fuel nesting : Nat) (b : Bool) :
    Reads (value? fuel nesting) (write (.bool b)).toList (.bool b) := by
  refine reads_of_value? fun rest _ => ?_
  cases b with
  | true =>
    rw [show (write (.bool true)).toList = ['t', 'r', 'u', 'e'] from rfl]
    cases nesting <;> rfl
  | false =>
    rw [show (write (.bool false)).toList = ['f', 'a', 'l', 's', 'e'] from rfl]
    cases nesting <;> rfl

theorem reads_null (fuel nesting : Nat) :
    Reads (value? fuel nesting) (write .null).toList .null := by
  refine reads_of_value? fun rest _ => ?_
  rw [show (write .null).toList = ['n', 'u', 'l', 'l'] from rfl]
  cases nesting <;> rfl

theorem reads_text (fuel nesting : Nat) (s : String) :
    Reads (value? fuel nesting) (write (.text s)).toList (.text s) := by
  refine reads_of_value? fun rest _ => ?_
  rw [show write (.text s) = quoted s from rfl, toList_quoted, List.cons_append, value?_quote,
    List.append_assoc,
    List.singleton_append, stringBody?_quoted, Option.map_some]
  dsimp only
  rw [String.ofList_toList]

theorem reads_list {fuel nesting : Nat} {xs : List Datum}
    (hreads : ∀ x ∈ xs, Reads (value? fuel nesting) (write x).toList x)
    (hfuel : xs.length ≤ fuel) :
    Reads (value? fuel (nesting + 1)) (write (.list xs)).toList (.list xs) := by
  refine reads_of_value? fun rest _ => ?_
  cases xs with
  | nil =>
    rw [show (write (.list [])).toList = ['[', ']'] from rfl, List.cons_append,
      value?_list, List.singleton_append, enclosed?_nothing (.inl rfl)]
    rfl
  | cons x xs =>
    rw [toList_write_list, List.cons_append, value?_list, List.append_assoc, List.append_assoc,
      List.singleton_append, enclosed?_texts (.inl rfl) hreads hfuel]
    rfl

theorem reads_record {fuel nesting : Nat} {ms : List (String × Datum)}
    (hreads : ∀ m ∈ ms, Reads (value? fuel nesting) (write m.2).toList m.2)
    (hfuel : ms.length ≤ fuel) :
    Reads (value? fuel (nesting + 1)) (write (.record ms)).toList (.record ms) := by
  refine reads_of_value? fun rest _ => ?_
  have hmembers : ∀ m ∈ ms, Reads (member? (value? fuel nesting)) (memberText m) m :=
    fun m hm => reads_member m.1 (hreads m hm)
  cases ms with
  | nil =>
    rw [show (write (.record [])).toList = ['\x7b', '\x7d'] from rfl, List.cons_append,
      value?_record, List.singleton_append, enclosed?_nothing (.inr rfl)]
    rfl
  | cons m ms =>
    rw [toList_write_record, List.cons_append, value?_record, List.append_assoc,
      List.append_assoc, List.singleton_append, enclosed?_texts (.inr rfl) hmembers hfuel]
    rfl

/-! ## Whole texts -/

theorem holdsItems_iff {xs : List Datum} :
    holdsItems xs = true ↔ ∀ x ∈ xs, holdsNumbers x = true := by
  induction xs with
  | nil => simp [holdsItems]
  | cons x xs ih => simp [holdsItems, ih]

theorem holdsMembers_iff {ms : List (String × Datum)} :
    holdsMembers ms = true ↔ ∀ m ∈ ms, holdsNumbers m.2 = true := by
  induction ms with
  | nil => simp [holdsMembers]
  | cons m ms ih =>
    obtain ⟨k, x⟩ := m
    simp [holdsMembers, ih]

theorem depth_item {x : Datum} {xs : List Datum} (h : x ∈ xs) :
    x.depth ≤ Datum.depthItems xs := by
  induction h with
  | head => exact Nat.le_max_left _ _
  | tail _ _ ih => exact Nat.le_trans ih (Nat.le_max_right _ _)

theorem depth_member {m : String × Datum} {ms : List (String × Datum)} (h : m ∈ ms) :
    m.2.depth ≤ Datum.depthMembers ms := by
  induction h with
  | head => exact Nat.le_max_left _ _
  | tail _ _ ih => exact Nat.le_trans ih (Nat.le_max_right _ _)

theorem length_write_list (xs : List Datum) :
    xs.length ≤ (write (.list xs)).toList.length
      ∧ ∀ x ∈ xs, (write x).toList.length ≤ (write (.list xs)).toList.length := by
  cases xs with
  | nil => exact ⟨Nat.zero_le _, fun _ h => absurd h List.not_mem_nil⟩
  | cons x xs =>
    obtain ⟨hcount, hlength⟩ := length_texts (fun y => (write y).toList) (x :: xs)
    simp only [toList_write_list, List.flatMap_cons, List.length_append, List.length_cons,
      List.length_nil] at hcount hlength ⊢
    refine ⟨by omega, fun y hy => ?_⟩
    have := hlength y hy
    omega

theorem length_write_record (ms : List (String × Datum)) :
    ms.length ≤ (write (.record ms)).toList.length
      ∧ ∀ m ∈ ms, (write m.2).toList.length ≤ (write (.record ms)).toList.length := by
  cases ms with
  | nil => exact ⟨Nat.zero_le _, fun _ h => absurd h List.not_mem_nil⟩
  | cons m ms =>
    obtain ⟨hcount, hlength⟩ := length_texts memberText (m :: ms)
    have hmember : ∀ n, (write n.2).toList.length ≤ (memberText n).length := by
      intro n
      simp only [memberText, List.length_append, List.length_cons]
      omega
    simp only [toList_write_record, List.flatMap_cons, List.length_append, List.length_cons,
      List.length_nil] at hcount hlength ⊢
    refine ⟨by omega, fun n hn => ?_⟩
    have := hlength n hn
    have := hmember n
    omega

/-- A tree that is nested no deeper than the reader goes is read back from its text. -/
theorem reads_write {fuel : Nat} (nesting : Nat) (d : Datum) (hnumbers : holdsNumbers d = true)
    (hdepth : d.depth ≤ nesting) (hfuel : (write d).toList.length ≤ fuel) :
    Reads (value? fuel nesting) (write d).toList d := by
  cases d with
  | null => exact reads_null fuel nesting
  | bool b => exact reads_bool fuel nesting b
  | int n => exact reads_int hnumbers
  | float x => exact reads_float hnumbers
  | text s => exact reads_text fuel nesting s
  | list xs =>
    obtain ⟨hcount, hlength⟩ := length_write_list xs
    cases nesting with
    | zero => exact absurd hdepth (by simp [Datum.depth])
    | succ nesting =>
      refine reads_list (fun x hx => reads_write nesting x ?_ ?_ ?_) (Nat.le_trans hcount hfuel)
      · exact holdsItems_iff.mp hnumbers x hx
      · exact Nat.le_trans (depth_item hx) (Nat.le_of_succ_le_succ hdepth)
      · exact Nat.le_trans (hlength x hx) hfuel
  | record ms =>
    obtain ⟨hcount, hlength⟩ := length_write_record ms
    cases nesting with
    | zero => exact absurd hdepth (by simp [Datum.depth])
    | succ nesting =>
      refine reads_record (fun m hm => reads_write nesting m.2 ?_ ?_ ?_)
        (Nat.le_trans hcount hfuel)
      · exact holdsMembers_iff.mp hnumbers m hm
      · exact Nat.le_trans (depth_member hm) (Nat.le_of_succ_le_succ hdepth)
      · exact Nat.le_trans (hlength m hm) hfuel

/-- A tree whose numbers a text can hold and that is nested no deeper than given. -/
structure Fits (nesting : Nat) (d : Datum) : Prop where
  numbers : holdsNumbers d = true
  depth : d.depth ≤ nesting

instance (nesting : Nat) (d : Datum) : Decidable (Fits nesting d) :=
  decidable_of_iff (holdsNumbers d = true ∧ d.depth ≤ nesting)
    ⟨fun h => ⟨h.1, h.2⟩, fun h => ⟨h.numbers, h.depth⟩⟩

/-- A tree is read back from its text. -/
theorem read?_write {d : Datum} (h : Fits nestingLimit d) : read? (write d) = some d := by
  obtain ⟨hopens, hreads⟩ := reads_write nestingLimit d h.numbers h.depth (Nat.le_succ _)
  have hwhole := hreads [] (by rintro c ⟨⟩)
  have hskip := hopens.skip []
  rw [List.append_nil] at hwhole hskip
  simp only [read?, hskip, hwhole]
  rfl

end Questline.Json
