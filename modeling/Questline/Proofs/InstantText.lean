import Questline.Instant.Text
import Questline.Proofs.Dates
import Questline.Proofs.Digits

/-!
# Reading an instant that was written

Every instant is read back from its text (`ofText?_toText`): of every year that instants are
limited to, with a fraction of any number of places, and also within a leap second. The text
is followed from its start to its end; at each point one lemma says what the reader makes of
the next part of it, whatever comes after.
-/

namespace Questline.Instant

open Questline.Text

/-! ## Parts of a text -/

theorem takeDigits_append {most : Nat} {ds rest : List Char} (hds : ∀ c ∈ ds, isDigit c = true)
    (hlength : ds.length ≤ most) (hstop : ds.length = most ∨ Stops rest) :
    takeDigits most (ds ++ rest) = (ds, rest) := by
  induction ds generalizing most with
  | nil =>
    cases most with
    | zero => cases rest <;> rfl
    | succ most =>
      cases rest with
      | nil => rfl
      | cons c cs =>
        have hc : isDigit c = false := (hstop.resolve_left (by simp)) c rfl
        simp [takeDigits, hc]
  | cons d ds ih =>
    cases most with
    | zero => exact absurd hlength (by simp)
    | succ most =>
      have hrest := ih (fun c hc => hds c (List.mem_cons_of_mem _ hc)) (by simpa using hlength)
        (hstop.imp_left (by simp))
      simp [takeDigits, hds d (by simp), hrest]

theorem isBlank_of_isDigit {c : Char} (h : isDigit c = true) : isBlank c = false := by
  rw [isDigit_eq, Char.isDigit_iff_toNat] at h
  have hlow : 48 ≤ c.toNat := h.1
  have hhigh : c.toNat ≤ 57 := h.2
  simp [isBlank]
  omega

theorem trimStart_cons {c : Char} {cs : List Char} (h : isBlank c = false) :
    trimStart (c :: cs) = c :: cs := by
  simp [trimStart, h]

/-- There is no white space before a number. -/
theorem trimStart_digits {ds rest : List Char} (hds : ∀ c ∈ ds, isDigit c = true)
    (hne : ds ≠ []) : trimStart (ds ++ rest) = ds ++ rest := by
  cases ds with
  | nil => exact absurd rfl hne
  | cons d ds => exact trimStart_cons (isBlank_of_isDigit (hds d (by simp)))

theorem number?_padded {width n : Nat} {rest : List Char} (hpos : 0 < width)
    (h : n < 10 ^ width) :
    number? width ((padded width n).toList ++ rest) = some (n, rest) := by
  have hlength := length_padded hpos h
  unfold number?
  rw [trimStart_digits isDigit_of_mem_padded (padded_ne_nil width n),
    takeDigits_append isDigit_of_mem_padded (Nat.le_of_eq hlength) (.inl hlength)]
  split
  · next heq => exact absurd (Prod.mk.inj heq).1 (padded_ne_nil width n)
  · next heq =>
    obtain ⟨rfl, rfl⟩ := Prod.mk.inj heq
    rw [natOfDigits_padded]

theorem mark?_self {c : Char} {cs : List Char} (h : isBlank c = false) :
    mark? c (c :: cs) = some cs := by
  simp [mark?, trimStart_cons h]

/-! ## The year -/

theorem signed_padded {width n : Nat} {rest : List Char} (hstop : Stops rest) :
    year?.signed ((padded width n).toList ++ rest) = some (n, rest) := by
  unfold year?.signed
  rw [takeDigits_append isDigit_of_mem_padded (by simp) (.inr hstop)]
  split
  · next heq => exact absurd (Prod.mk.inj heq).1 (padded_ne_nil width n)
  · next heq =>
    obtain ⟨rfl, rfl⟩ := Prod.mk.inj heq
    rw [natOfDigits_padded]

theorem year?_of_digits {n : Nat} {rest : List Char} (h : n < 10 ^ 4) :
    year? ((padded 4 n).toList ++ rest) = some ((n : Int), rest) := by
  have hnumber : number? 4 ((padded 4 n).toList ++ rest) = some (n, rest) :=
    number?_padded (by decide) h
  have hdigit : ∀ c ∈ (padded 4 n).toList, isDigit c = true := isDigit_of_mem_padded
  unfold year?
  rw [trimStart_digits isDigit_of_mem_padded (padded_ne_nil 4 n)]
  cases hds : (padded 4 n).toList with
  | nil => exact absurd hds (padded_ne_nil 4 n)
  | cons d ds =>
    rw [hds] at hnumber hdigit
    split
    · next heq => exact absurd (hdigit '-' (by simp_all)) (by decide)
    · next heq => exact absurd (hdigit '+' (by simp_all)) (by decide)
    · rw [hnumber]
      rfl

theorem year?_yearText {year : Int} {rest : List Char} (hstop : Stops rest) :
    year? ((yearText year).toList ++ rest) = some (year, rest) := by
  unfold yearText
  split
  case isTrue h =>
    rw [Bool.and_eq_true, decide_eq_true_eq, decide_eq_true_eq] at h
    obtain ⟨n, rfl⟩ := Int.eq_ofNat_of_zero_le h.1
    exact year?_of_digits (by omega)
  case isFalse h =>
    rw [String.toList_append, List.append_assoc]
    have hsigned : year?.signed ((padded 4 year.natAbs).toList ++ rest)
        = some (year.natAbs, rest) := signed_padded hstop
    by_cases hneg : year < 0
    · rw [if_pos hneg, show "-".toList = ['-'] from rfl, List.singleton_append, year?,
        trimStart_cons (show isBlank '-' = false by decide)]
      simp only [hsigned, Option.map_some]
      rw [show -(year.natAbs : Int) = year by omega]
    · rw [if_neg hneg, show "+".toList = ['+'] from rfl, List.singleton_append, year?,
        trimStart_cons (show isBlank '+' = false by decide)]
      simp only [hsigned, Option.map_some]
      rw [show (year.natAbs : Int) = year by omega]

/-! ## The fraction -/

theorem fraction?_places {places n : Nat} {rest : List Char} (hpos : 0 < places)
    (hplaces : places ≤ 9) (h : n < 10 ^ places) (hstop : Stops rest) :
    fraction? ('.' :: ((padded places n).toList ++ rest))
      = some (n * 10 ^ (9 - places), rest) := by
  have hlength := length_padded hpos h
  simp only [fraction?]
  rw [takeDigits_append isDigit_of_mem_padded (by omega) (.inr hstop)]
  have hrest : rest.dropWhile isDigit = rest := by simpa using @dropWhile_append_stops [] rest hstop
  split
  · next heq => exact absurd (Prod.mk.inj heq).1 (padded_ne_nil places n)
  · next heq =>
    obtain ⟨rfl, rfl⟩ := Prod.mk.inj heq
    rw [natOfDigits_padded, hlength, hrest]
    rfl

theorem fraction?_fractionText {nano : Nat} {rest : List Char} (h : nano < 1000000000)
    (hstop : Stops rest) (hpoint : rest.head? ≠ some '.') :
    fraction? ((fractionText nano).toList ++ rest) = some (nano, rest) := by
  have hplaces : ∀ places n, 0 < places → places ≤ 9 → n < 10 ^ places →
      nano = n * 10 ^ (9 - places) →
      fraction? (("." ++ padded places n).toList ++ rest) = some (nano, rest) := by
    intro places n hpos hle hlt heq
    rw [String.toList_append, show ".".toList = ['.'] from rfl, List.append_assoc,
      List.singleton_append, fraction?_places hpos hle hlt hstop, ← heq]
  unfold fractionText
  split
  · next hzero =>
    subst hzero
    cases rest with
    | nil => rfl
    | cons c cs =>
      have : c ≠ '.' := fun hc => hpoint (by simp [hc])
      simp [fraction?, this]
  · split
    · exact hplaces 3 _ (by decide) (by decide) (by omega) (by omega)
    · split
      · exact hplaces 6 _ (by decide) (by decide) (by omega) (by omega)
      · exact hplaces 9 _ (by decide) (by decide) (by omega) (by omega)

/-! ## The instant -/

/-- The day, the second and the fraction of an instant make the instant. -/
theorem ofParts?_self (i : Instant) : ofParts? i.day i.second i.nano = some i :=
  dif_pos ⟨i.day_range, i.second_lt, i.nano_lt, i.leap_last⟩

/-- The date and the time of day that an instant is written with are its own. -/
theorem ofLocal?_self (i : Instant) :
    ofLocal? (Date.ofDays i.day) (i.second / 3600) (i.second / 60 % 60)
      (i.second % 60 + (if 1000000000 ≤ i.nano then 1 else 0))
      (if 1000000000 ≤ i.nano then i.nano - 1000000000 else i.nano) 0 = some i := by
  have hyear := Date.year_ofDays i.day_range
  have hlt := i.second_lt
  have hmark : i.second % 60 + (if 1000000000 ≤ i.nano then 1 else 0) = 60
      ↔ 1000000000 ≤ i.nano := by
    have := i.leap_last
    split <;> omega
  have hsecond : i.second % 60 + (if 1000000000 ≤ i.nano then 1 else 0) ≤ 60 := by
    split <;> omega
  have hsum : i.second / 3600 * 3600 + i.second / 60 % 60 * 60
      + (if 1000000000 ≤ i.nano then 59
        else i.second % 60 + (if 1000000000 ≤ i.nano then 1 else 0)) = i.second := by
    have := i.leap_last
    split <;> omega
  have hnano : (if 1000000000 ≤ i.nano then
        (if 1000000000 ≤ i.nano then i.nano - 1000000000 else i.nano) + 1000000000
      else if 1000000000 ≤ i.nano then i.nano - 1000000000 else i.nano) = i.nano := by
    split <;> omega
  unfold ofLocal?
  rw [if_pos]
  · simp only [hmark, hsum, hnano, Date.toDays_ofDays]
    rw [show i.day + ((i.second : Int) - 0) / 86400 = i.day by omega,
      show (((i.second : Int) - 0) % 86400).toNat = i.second by omega, ofParts?_self]
  · simp only [Date.isValid_ofDays, hyear, hsecond]
    simp
    omega

/-- Every instant is read back from its text. -/
theorem ofText?_toText (i : Instant) : ofText? i.toText = some i := by
  obtain ⟨hmonth, hday⟩ := Date.lt_of_isValid (Date.isValid_ofDays i.day)
  have hsecond_lt := i.second_lt
  have hnano_lt := i.nano_lt
  have htwo : ∀ n rest, n < 100 → number? 2 ((padded 2 n).toList ++ rest) = some (n, rest) :=
    fun n rest h => number?_padded (by decide) h
  have hdash : ∀ rest, mark? '-' ('-' :: rest) = some rest := fun _ => mark?_self (by decide)
  have hcolon : ∀ rest, mark? ':' (':' :: rest) = some rest := fun _ => mark?_self (by decide)
  have hyear : ∀ rest, year? ((yearText (Date.ofDays i.day).year).toList ++ '-' :: rest)
      = some ((Date.ofDays i.day).year, '-' :: rest) :=
    fun rest => year?_yearText (by rintro c ⟨⟩; rfl)
  have hsecond : i.second % 60 + (if 1000000000 ≤ i.nano then 1 else 0) < 100 := by
    split <;> omega
  have hfraction : fraction? ((fractionText
        (if 1000000000 ≤ i.nano then i.nano - 1000000000 else i.nano)).toList ++ ['Z'])
      = some (if 1000000000 ≤ i.nano then i.nano - 1000000000 else i.nano, ['Z']) :=
    fraction?_fractionText (by split <;> omega) (by rintro c ⟨⟩; rfl) (by decide)
  have hzone : offset? (trimStart ['Z']) = some (0, []) := by decide
  simp only [ofText?, toText, String.toList_append, List.append_assoc,
    show "-".toList = ['-'] from rfl, show "T".toList = ['T'] from rfl,
    show ":".toList = [':'] from rfl, show "Z".toList = ['Z'] from rfl, List.cons_append,
    List.nil_append,
    Option.bind_eq_bind, Option.bind_some, hyear, hdash, hcolon,
    htwo _ _ hmonth, htwo _ _ hday, htwo (i.second / 3600) _ (by omega),
    htwo (i.second / 60 % 60) _ (by omega), htwo _ _ hsecond, hfraction, hzone]
  exact ofLocal?_self i

end Questline.Instant
