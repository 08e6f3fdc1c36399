import Mathlib.Algebra.Group.Nat.Defs
import Questline.Text.Numeral

/-!
# Digits

A number written in decimal is read back from its digits, also with zeros before it
(`natOfDigits_padded`). What is known of `Char.isDigit`,
`Nat.toDigits` and `Nat.ofDigitChars` carries over, as the readers go by the same digits.
-/

namespace Questline.Text

/-! ## Runs of digits -/

theorem digitValue?_ten (c : Char) :
    digitValue? 10 c = if c.isDigit then some (c.toNat - '0'.toNat) else none := by
  have hdigit : c.isDigit = (decide (48 ≤ c.toNat) && decide (c.toNat ≤ 57)) := by
    rw [Bool.eq_iff_iff, Char.isDigit_iff_toNat, Bool.and_eq_true, decide_eq_true_eq,
      decide_eq_true_eq]
    rfl
  simp only [digitValue?, hdigit, Char.reduceToNat]
  by_cases h : 48 ≤ c.toNat ∧ c.toNat ≤ 57
  · have : c.toNat - 48 < 10 := by omega
    simp [h, this]
  · simp only [Bool.and_eq_true, decide_eq_true_eq, if_neg h, ite_eq_right_iff]
    split
    · simp
    · split <;> simp

theorem isDigit_eq (c : Char) : isDigit c = c.isDigit := by
  simp only [isDigit, digitValue?_ten]
  cases c.isDigit <;> rfl

theorem natOfDigits_eq {cs : List Char} (h : ∀ c ∈ cs, isDigit c = true) :
    natOfDigits 10 cs = Nat.ofDigitChars 10 cs 0 := by
  suffices ∀ n, cs.foldl (fun n c => n * 10 + (digitValue? 10 c).getD 0) n
      = Nat.ofDigitChars 10 cs n from this 0
  induction cs with
  | nil => exact fun _ => rfl
  | cons c cs ih =>
    intro n
    have hc : c.isDigit = true := isDigit_eq c ▸ h c (by simp)
    rw [List.foldl_cons, ih (fun d hd => h d (List.mem_cons_of_mem _ hd)), Nat.ofDigitChars_cons,
      digitValue?_ten, if_pos hc, Option.getD_some, Nat.mul_comm]

theorem isDigit_of_mem_toDigits {n : Nat} : ∀ c ∈ Nat.toDigits 10 n, isDigit c = true :=
  fun c hc => isDigit_eq c ▸ Nat.isDigit_of_mem_toDigits (by decide) (by decide) hc

/-- No number but zero starts with a zero. -/
theorem head?_toDigits (n : Nat) (h : (Nat.toDigits 10 n).head? = some '0') : n = 0 := by
  induction n using Nat.strongRecOn with
  | _ n ih =>
    rw [Nat.toDigits_eq_if (by decide)] at h
    split at h
    · exact Nat.digitChar_eq_zero.mp (Option.some.inj h)
    · rw [List.head?_append, Option.or_of_isSome (by simp [Nat.toDigits_ne_nil])] at h
      have := ih (n / 10) (by omega) h
      omega

/-- Whether a run of digits ends where a text begins. -/
def Stops (cs : List Char) : Prop := ∀ c ∈ cs.head?, isDigit c = false

theorem takeWhile_append_stops {cs rest : List Char} (h : Stops rest) :
    (cs ++ rest).takeWhile isDigit = cs.takeWhile isDigit := by
  induction cs with
  | nil =>
    cases rest with
    | nil => rfl
    | cons c rest => simp [h c rfl]
  | cons c cs ih => simp [List.takeWhile_cons, ih]

theorem dropWhile_append_stops {cs rest : List Char} (h : Stops rest) :
    (cs ++ rest).dropWhile isDigit = cs.dropWhile isDigit ++ rest := by
  induction cs with
  | nil =>
    cases rest with
    | nil => rfl
    | cons c rest => simp [h c rfl]
  | cons c cs ih =>
    simp only [List.cons_append, List.dropWhile_cons, ih]
    split <;> rfl

/-! ## Numbers of a width -/

theorem toList_toString (n : Nat) : (toString n).toList = Nat.toDigits 10 n := by
  rw [Nat.toString_eq_ofList_toDigits, String.toList_ofList]

theorem toList_padded (width n : Nat) :
    (padded width n).toList
      = List.replicate (width - (Nat.toDigits 10 n).length) '0' ++ Nat.toDigits 10 n := by
  simp only [padded, String.toList_append, String.toList_ofList, toList_toString,
    ← String.length_toList]

theorem isDigit_of_mem_padded {width n : Nat} :
    ∀ c ∈ (padded width n).toList, isDigit c = true := by
  intro c hc
  rw [toList_padded, List.mem_append] at hc
  rcases hc with hc | hc
  · rw [List.eq_of_mem_replicate hc]
    rfl
  · exact isDigit_of_mem_toDigits c hc

theorem natOfDigits_padded (width n : Nat) : natOfDigits 10 (padded width n).toList = n := by
  rw [natOfDigits_eq isDigit_of_mem_padded, toList_padded, Nat.ofDigitChars_append,
    Nat.ofDigitChars_replicate_zero, Nat.mul_zero, Nat.ofDigitChars_ten_toDigits]

/-- A number has as many places as it is given, if they are enough for it. -/
theorem length_padded {width n : Nat} (hpos : 0 < width) (h : n < 10 ^ width) :
    (padded width n).toList.length = width := by
  have := (Nat.length_toDigits_le_iff (by decide) hpos).mpr h
  rw [toList_padded, List.length_append, List.length_replicate]
  omega

theorem padded_ne_nil (width n : Nat) : (padded width n).toList ≠ [] := by
  rw [toList_padded]
  exact List.append_ne_nil_of_right_ne_nil _ Nat.toDigits_ne_nil

end Questline.Text
