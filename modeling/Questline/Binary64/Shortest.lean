import Questline.Binary64

/-!
# The shortest decimal of a number

`Binary64.shortest` gives the decimal with the fewest digits among those that read
back as the number, and of several such decimals the one nearest to it. The
decimals that read back fill an interval around the number, its ends included
exactly when the significand is even. If a grid of decimals has a point in the
interval, one of the number's two neighbours on the grid is such a point, so two
candidates for each count of digits are enough.
-/

namespace Questline

/-- The decimal `digits · 10 ^ power`. -/
structure Decimal where
  digits : Nat
  power : Int
  deriving DecidableEq, Repr

namespace Decimal

/-- Compare `a · 10 ^ i` with `b · 2 ^ j`. -/
def compareScaled (a : Nat) (i : Int) (b : Nat) (j : Int) : Ordering :=
  compare (a * tenPow i.toNat * twoPow (-j).toNat) (b * twoPow j.toNat * tenPow (-i).toNat)

/-- The decimal without the zeros at its end. -/
def strip (fuel : Nat) (d : Decimal) : Decimal :=
  match fuel with
  | 0 => d
  | fuel + 1 =>
    if d.digits ≠ 0 ∧ d.digits % 10 = 0 then strip fuel ⟨d.digits / 10, d.power + 1⟩ else d

/-- The digits as text. -/
def digitText (d : Decimal) : String := toString d.digits

/-- The place of the decimal point, counted from the first digit. -/
def point (d : Decimal) : Int := (d.digitText.length : Int) + d.power

end Decimal

namespace Binary64

/-- How many places after the point the first digit of `num / den < 1` stands. -/
def leadingPlace (num den : Nat) : Nat → Nat → Nat
  | 0, place => place
  | fuel + 1, place =>
    if den ≤ num * tenPow place then place else leadingPlace num den fuel (place + 1)

/-- The power of ten of the first digit of a positive quotient. -/
def quotientLog10 (num den : Nat) : Int :=
  if den ≤ num then ((toString (num / den)).length : Int) - 1
  else -(leadingPlace num den 400 1 : Int)

/-- The decimals that read back as a finite nonzero number: the ends of the interval
in quarters of the number's last binary place, and whether the ends belong to it. -/
structure Interval where
  low : Nat
  high : Nat
  unit : Int
  closed : Bool

/-- Halfway to the two neighbouring numbers; below a power of two the lower
neighbour is half as far away. -/
def interval (x : Binary64) : Interval :=
  let m := x.significand
  let narrow := x.fraction = 0 && 1 < x.biased
  ⟨4 * m - (if narrow then 1 else 2), 4 * m + 2, x.exponent - 2, m % 2 = 0⟩

def Interval.contains (i : Interval) (d : Decimal) : Bool :=
  let low := Decimal.compareScaled d.digits d.power i.low i.unit
  let high := Decimal.compareScaled d.digits d.power i.high i.unit
  (low == .gt || (i.closed && low == .eq)) && (high == .lt || (i.closed && high == .eq))

/-- Of two neighbouring decimals around `num / den` the nearer one, the even one
when both are equally near. -/
def nearer (num den : Nat) (below above : Decimal) : Decimal :=
  -- twice the number against the sum of the two decimals
  let sum := below.digits + above.digits
  let p := below.power
  match compare (2 * num * tenPow (-p).toNat) (sum * tenPow p.toNat * den) with
  | .lt => below
  | .gt => above
  | .eq => if below.digits % 2 = 0 then below else above

/-- The best decimal with `count` digits, if one reads back. -/
def candidate? (x : Binary64) (count : Nat) : Option Decimal :=
  let (num, den) := x.ratio
  let power : Int := quotientLog10 num den - ((count : Int) - 1)
  let floor := num * tenPow (-power).toNat / (den * tenPow power.toNat)
  let below : Decimal := ⟨floor, power⟩
  let above : Decimal := ⟨floor + 1, power⟩
  match x.interval.contains below, x.interval.contains above with
  | true, true => some (nearer num den below above)
  | true, false => some below
  | false, true => some above
  | false, false => none

/-- The shortest decimal that reads back as a finite number, its sign left out.
Seventeen digits always suffice. -/
def shortest (x : Binary64) : Decimal :=
  if x.isZero then ⟨0, 0⟩
  else
    match (List.range 17).findSome? fun n => x.candidate? (n + 1) with
    | some d => d.strip 20
    | none => ⟨0, 0⟩

end Binary64

end Questline
