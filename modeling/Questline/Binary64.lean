/-!
# Double-precision numbers

A `Binary64` is a 64-bit word in the IEEE 754 interchange format. Its value is
taken apart into an integer significand and a power of two, and every operation
computes the exact quotient of natural numbers first and rounds once
(`nearest`), ties going to the even significand. Nothing here uses machine
arithmetic, so a statement about a rounded number is a statement about naturals.
-/

namespace Questline

/-- A power of two. -/
def twoPow (n : Nat) : Nat := Nat.pow 2 n

/-- A power of ten. -/
def tenPow (n : Nat) : Nat := Nat.pow 10 n

/-- A number in the 64-bit binary interchange format. -/
structure Binary64 where
  bits : UInt64
  deriving DecidableEq, Repr, Inhabited

namespace Binary64

/-! ## The fields of a word -/

def isNegative (x : Binary64) : Bool := x.bits.toNat / twoPow 63 == 1

/-- The exponent field; 0 marks subnormal numbers, 2047 infinities and NaNs. -/
def biased (x : Binary64) : Nat := x.bits.toNat / twoPow 52 % twoPow 11

def fraction (x : Binary64) : Nat := x.bits.toNat % twoPow 52

def isFinite (x : Binary64) : Bool := x.biased < 2047

/-- The integer significand of a finite number. -/
def significand (x : Binary64) : Nat :=
  if x.biased = 0 then x.fraction else twoPow 52 + x.fraction

/-- The power of two that the significand is multiplied by. -/
def exponent (x : Binary64) : Int :=
  if x.biased = 0 then -1074 else (x.biased : Int) - 1075

def isZero (x : Binary64) : Bool := x.biased = 0 && x.fraction = 0

/-- A word from its sign and its other 63 bits. -/
def ofMagnitude (negative : Bool) (magnitude : Nat) : Binary64 :=
  ⟨UInt64.ofNat ((if negative then twoPow 63 else 0) + magnitude)⟩

def infinity (negative : Bool) : Binary64 := ofMagnitude negative (2047 * twoPow 52)

def nan : Binary64 := ofMagnitude false (2047 * twoPow 52 + twoPow 51)

def zero (negative : Bool) : Binary64 := ofMagnitude negative 0

/-- The magnitude of a finite number as a quotient of natural numbers. -/
def ratio (x : Binary64) : Nat × Nat :=
  if 0 ≤ x.exponent then (x.significand * twoPow x.exponent.toNat, 1)
  else (x.significand, twoPow (-x.exponent).toNat)

/-! ## Rounding -/

/-- A quotient rounded to the nearest natural number, ties to even. -/
def roundQuotient (num den : Nat) : Nat :=
  let q := num / den
  let r := num % den
  if den < 2 * r || (2 * r == den && q % 2 == 1) then q + 1 else q

/-- The greatest `l` with `2 ^ l ≤ num / den`, for positive `num` and `den`. -/
def quotientLog2 (num den : Nat) : Int :=
  let guess : Int := (num.log2 : Int) - den.log2
  let reached :=
    if 0 ≤ guess then den * twoPow guess.toNat ≤ num else den ≤ num * twoPow (-guess).toNat
  if reached then guess else guess - 1

/-- The number nearest to `num / den`; too large a quotient gives an infinity. -/
def nearest (negative : Bool) (num den : Nat) : Binary64 :=
  if num = 0 then zero negative
  else
    let unit : Int := max (quotientLog2 num den - 52) (-1074)
    let m :=
      if 0 ≤ unit then roundQuotient num (den * twoPow unit.toNat)
      else roundQuotient (num * twoPow (-unit).toNat) den
    let magnitude := if m < twoPow 52 then m else (unit + 1075).toNat * twoPow 52 + (m - twoPow 52)
    if magnitude < 2047 * twoPow 52 then ofMagnitude negative magnitude else infinity negative

/-! ## Arithmetic on finite numbers -/

def mul (x y : Binary64) : Binary64 :=
  let (a, b) := x.ratio
  let (c, d) := y.ratio
  nearest (x.isNegative != y.isNegative) (a * c) (b * d)

/-- Division by a number other than zero. -/
def div (x y : Binary64) : Binary64 :=
  let (a, b) := x.ratio
  let (c, d) := y.ratio
  nearest (x.isNegative != y.isNegative) (a * d) (b * c)

def negate (x : Binary64) : Binary64 :=
  ofMagnitude (!x.isNegative) (x.bits.toNat % twoPow 63)

/-! ## Decimals -/

/-- A power of ten, rounded. -/
def tenTo (n : Nat) : Binary64 := nearest false (tenPow n) 1

/-- The number nearest to `digits · 10 ^ power`. A power far outside the range of
the format is not computed. -/
def ofDecimal (negative : Bool) (digits : Nat) (power : Int) : Binary64 :=
  let places : Int := (toString digits).length
  if digits = 0 || power + places < -330 then zero negative
  else if 310 < power + places then infinity negative
  else if 0 ≤ power then nearest negative (digits * tenPow power.toNat) 1
  else nearest negative digits (tenPow (-power).toNat)

/-- Divide by a power of ten, at most `10 ^ 308` at a time. -/
def divByTens (x : Binary64) (n : Nat) : Binary64 :=
  if n ≤ 308 then x.div (tenTo n)
  else if x.isZero then x
  else divByTens (x.div (tenTo 308)) (n - 308)
  termination_by n

/-- `digits · 10 ^ power` computed in two roundings: the digits become a number,
which is then multiplied or divided by a rounded power of ten. `none` when the
result is too large. -/
def scaled? (digits : Nat) (power : Int) : Option Binary64 :=
  let x := nearest false digits 1
  if power < 0 then some (x.divByTens (-power).toNat)
  else if x.isZero then some x
  else if 308 < power then none
  else
    let y := x.mul (tenTo power.toNat)
    if y.isFinite then some y else none

end Binary64

end Questline
