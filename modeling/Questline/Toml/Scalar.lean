import Questline.Calendar
import Questline.Datum
import Questline.Text.Numeral

/-!
# Numbers, truth values and times in TOML

Every value that is neither a string nor a bracketed one is a single word. Integers are
those of 64 bits with sign; digits may be grouped by single underscores, and a decimal
number other than zero does not start with one. A number too large for a double is
refused. Dates and times must exist; they become records with a single member, which
holds the text as it stands.
-/

namespace Questline.Toml

open Questline.Text

/-- Whether a character may stand in such a word. -/
def isWordChar (c : Char) : Bool :=
  c.isAlphanum || c = '+' || c = '-' || c = '_' || c = '.' || c = ':'

/-! ## Numbers -/

/-- The digits of a run that may be grouped by single underscores, at least one. -/
def grouped? (isDigit : Char → Bool) : List Char → Option (List Char)
  | [] => none
  | [d] => if isDigit d then some [d] else none
  | d :: '_' :: rest => if isDigit d then (grouped? isDigit rest).map (d :: ·) else none
  | d :: rest => if isDigit d then (grouped? isDigit rest).map (d :: ·) else none

/-- The digits of a decimal number without superfluous zeros. -/
def wholeDigits? (cs : List Char) : Option (List Char) :=
  match grouped? isDigit cs with
  | some ('0' :: _ :: _) => none
  | found => found

/-- A sign, if there is one: whether it is a minus, and the rest. -/
def splitSign : List Char → Bool × List Char
  | '-' :: rest => (true, rest)
  | '+' :: rest => (false, rest)
  | cs => (false, cs)

/-- An integer in a base that its mark names. -/
def markedInteger? (base : Nat) (cs : List Char) : Option Int :=
  (grouped? (fun c => (digitValue? base c).isSome) cs).bind fun digits =>
    let n : Int := natOfDigits base digits
    if n ≤ Int64.maxValue.toInt then some n else none

def integer? : List Char → Option Int
  | '0' :: 'x' :: rest => markedInteger? 16 rest
  | '0' :: 'o' :: rest => markedInteger? 8 rest
  | '0' :: 'b' :: rest => markedInteger? 2 rest
  | cs =>
    let (negative, cs) := splitSign cs
    (wholeDigits? cs).bind fun digits =>
      let n : Int := natOfDigits 10 digits
      let n := if negative then -n else n
      if Int64.minValue.toInt ≤ n && n ≤ Int64.maxValue.toInt then some n else none

def isExponentMark (c : Char) : Bool := c = 'e' || c = 'E'

/-- An exponent after its mark. -/
def exponent? (cs : List Char) : Option Int :=
  let (negative, cs) := splitSign cs
  (grouped? isDigit cs).map fun digits =>
    let n : Int := natOfDigits 10 digits
    if negative then -n else n

/-- A number with a fraction or an exponent, or one of the special ones. -/
def float? (cs : List Char) : Option Binary64 :=
  let (negative, cs) := splitSign cs
  if cs = ['i', 'n', 'f'] then some (.infinity negative)
  else if cs = ['n', 'a', 'n'] then some (if negative then Binary64.nan.negate else .nan)
  else
    let mantissa := cs.takeWhile (!isExponentMark ·)
    let power := (cs.drop mantissa.length).tail
    let whole := mantissa.takeWhile (· ≠ '.')
    let fraction := (mantissa.drop whole.length).tail
    let hasPower := mantissa.length < cs.length
    let hasFraction := whole.length < mantissa.length
    if !hasPower && !hasFraction then none
    else do
      let whole ← wholeDigits? whole
      let fraction ← if hasFraction then grouped? isDigit fraction else some []
      let power ← if hasPower then exponent? power else some 0
      let x := Binary64.ofDecimal negative (natOfDigits 10 (whole ++ fraction))
        (power - fraction.length)
      if x = .infinity false then none else some x

/-! ## Dates and times -/

/-- Exactly two digits, at most `greatest`. -/
def twoDigits? (greatest : Nat) : List Char → Option (Nat × List Char)
  | a :: b :: rest =>
    if isDigit a && isDigit b && natOfDigits 10 [a, b] ≤ greatest then
      some (natOfDigits 10 [a, b], rest)
    else none
  | _ => none

/-- A fraction of a second, if there is one. -/
def afterFraction? : List Char → Option (List Char)
  | '.' :: rest =>
    if (rest.takeWhile isDigit).isEmpty then none else some (rest.dropWhile isDigit)
  | cs => some cs

/-- The text after a time of day. -/
def afterTime? (cs : List Char) : Option (List Char) :=
  match twoDigits? 23 cs with
  | some (_, ':' :: cs) =>
    match twoDigits? 59 cs with
    | some (_, ':' :: cs) => (twoDigits? 60 cs).bind fun (_, cs) => afterFraction? cs
    | _ => none
  | _ => none

/-- Whether a text is an offset from UTC, or nothing. -/
def isOffset : List Char → Bool
  | [] | ['Z'] | ['z'] => true
  | sign :: cs =>
    (sign = '+' || sign = '-') &&
      match twoDigits? 23 cs with
      | some (_, ':' :: cs) => (twoDigits? 59 cs).any fun (_, cs) => cs.isEmpty
      | _ => false

/-- The text after a date that exists. -/
def afterDate? : List Char → Option (List Char)
  | a :: b :: c :: d :: '-' :: cs =>
    if [a, b, c, d].all isDigit then
      match twoDigits? 12 cs with
      | some (month, '-' :: cs) =>
        match twoDigits? 31 cs with
        | some (day, cs) =>
          if (Date.mk (natOfDigits 10 [a, b, c, d]) month day).isValid then some cs else none
        | none => none
      | _ => none
    else none
  | _ => none

/-- Whether a word is a time of day with an optional offset. -/
def isOffsetTime (cs : List Char) : Bool := (afterTime? cs).any isOffset

/-- Whether a word is a date, a time of day, or both; only both have an offset. -/
def isTime (cs : List Char) : Bool :=
  match afterDate? cs with
  | some [] => true
  | some (mark :: rest) => (mark = 'T' || mark = 't') && isOffsetTime rest
  | none => afterTime? cs == some []

/-- The tree of a date or a time. -/
def timeDatum (cs : List Char) : Datum :=
  .record [("time", .text (String.ofList cs))]

/-! ## Words -/

/-- The value of a word. -/
def word? (cs : List Char) : Option Datum :=
  if cs = ['t', 'r', 'u', 'e'] then some (.bool true)
  else if cs = ['f', 'a', 'l', 's', 'e'] then some (.bool false)
  else if isTime cs then some (timeDatum cs)
  else ((integer? cs).map Datum.int).or ((float? cs).map Datum.float)

/-- The word at the start of a text, with what follows it. After a date a blank may take
the place of the mark before the time. -/
def scalar? (cs : List Char) : Option (Datum × List Char) :=
  let word := cs.takeWhile isWordChar
  let rest := cs.drop word.length
  match afterDate? word, rest with
  | some [], ' ' :: c :: more =>
    if isDigit c then
      let time := (c :: more).takeWhile isWordChar
      if isOffsetTime time then some (timeDatum (word ++ 'T' :: time), (c :: more).drop time.length)
      else none
    else (word? word).map fun d => (d, rest)
  | _, _ => (word? word).map fun d => (d, rest)

end Questline.Toml
