/-!
# Numerals

Reading digits off a text, and numerals of bounded size.
-/

namespace Questline.Text

/-- The value of a digit in a base up to sixteen. -/
def digitValue? (base : Nat) (c : Char) : Option Nat :=
  let n := c.toNat
  let v :=
    if '0'.toNat ≤ n && n ≤ '9'.toNat then n - '0'.toNat
    else if 'a'.toNat ≤ n && n ≤ 'f'.toNat then n - 'a'.toNat + 10
    else if 'A'.toNat ≤ n && n ≤ 'F'.toNat then n - 'A'.toNat + 10
    else base
  if v < base then some v else none

def isDigit (c : Char) : Bool := (digitValue? 10 c).isSome

/-- The number written by a run of digits, most significant first; a character that
is no digit of the base counts as zero. -/
def natOfDigits (base : Nat) (cs : List Char) : Nat :=
  cs.foldl (fun n c => n * base + (digitValue? base c).getD 0) 0

/-- A decimal numeral below `bound`: digits, at least one, with an optional plus
sign before them. -/
def boundedNumeral? (bound : Nat) (cs : List Char) : Option Nat :=
  let digits := match cs with
    | '+' :: rest => rest
    | _ => cs
  if digits.isEmpty || !digits.all isDigit then none
  else
    let n := natOfDigits 10 digits
    if n < bound then some n else none

/-- A number written in decimal with at least `width` digits. -/
def padded (width n : Nat) : String :=
  let digits := toString n
  String.ofList (List.replicate (width - digits.length) '0') ++ digits

end Questline.Text
