import Questline.Instant
import Questline.Text.Blank
import Questline.Text.Numeral

/-!
# Instants as text

Instants are written in the RFC 3339 form, in UTC, with no fraction or with the
fewest of 3, 6 or 9 places that lose nothing (`toText`). Reading is more lenient
(`ofText?`): white space may stand before a number, numbers may be shorter than their
usual width, a year may carry a sign, the date and the time may be separated by a
blank, and any offset below one day is converted to UTC. A second 60 is a leap second.
-/

namespace Questline.Instant

open Questline.Text

/-! ## Writing -/

/-- A year: four digits, with a sign outside the years 0 to 9999. -/
def yearText (year : Int) : String :=
  if 0 ≤ year && year ≤ 9999 then padded 4 year.toNat
  else (if year < 0 then "-" else "+") ++ padded 4 year.natAbs

/-- A fraction of a second in the fewest of 0, 3, 6 or 9 places that lose nothing. -/
def fractionText (nano : Nat) : String :=
  if nano = 0 then ""
  else if nano % 1000000 = 0 then "." ++ padded 3 (nano / 1000000)
  else if nano % 1000 = 0 then "." ++ padded 6 (nano / 1000)
  else "." ++ padded 9 nano

/-- The written form of an instant. -/
def toText (i : Instant) : String :=
  let date := Date.ofDays i.day
  let leap := 1000000000 ≤ i.nano
  let second := i.second % 60 + (if leap then 1 else 0)
  yearText date.year ++ "-" ++ padded 2 date.month ++ "-" ++ padded 2 date.day ++ "T"
    ++ padded 2 (i.second / 3600) ++ ":" ++ padded 2 (i.second / 60 % 60) ++ ":"
    ++ padded 2 second ++ fractionText (if leap then i.nano - 1000000000 else i.nano) ++ "Z"

/-! ## Reading -/

/-- The digits at the start of a text, at most `most` of them, and what follows. -/
def takeDigits : Nat → List Char → List Char × List Char
  | 0, cs => ([], cs)
  | _, [] => ([], [])
  | most + 1, c :: cs =>
    if isDigit c then
      let (ds, rest) := takeDigits most cs
      (c :: ds, rest)
    else ([], c :: cs)

/-- A number of one to `most` digits, after white space. -/
def number? (most : Nat) (cs : List Char) : Option (Nat × List Char) :=
  match takeDigits most (trimStart cs) with
  | ([], _) => none
  | (ds, rest) => some (natOfDigits 10 ds, rest)

/-- A year: up to four digits, or a sign and any number of digits. -/
def year? (cs : List Char) : Option (Int × List Char) :=
  match trimStart cs with
  | '-' :: rest => (signed rest).map fun (n, rest) => (-(n : Int), rest)
  | '+' :: rest => (signed rest).map fun (n, rest) => ((n : Int), rest)
  | cs => (number? 4 cs).map fun (n, rest) => ((n : Int), rest)
where
  signed (cs : List Char) : Option (Nat × List Char) :=
    match takeDigits cs.length cs with
    | ([], _) => none
    | (ds, rest) => some (natOfDigits 10 ds, rest)

/-- One expected character, after white space. -/
def mark? (expected : Char) (cs : List Char) : Option (List Char) :=
  match trimStart cs with
  | c :: rest => if c = expected then some rest else none
  | [] => none

/-- A fraction in nanoseconds: nine digits count, further ones are passed over. -/
def fraction? : List Char → Option (Nat × List Char)
  | '.' :: cs =>
    match takeDigits 9 cs with
    | ([], _) => none
    | (ds, rest) =>
      some (natOfDigits 10 ds * Nat.pow 10 (9 - ds.length), rest.dropWhile isDigit)
  | cs => some (0, cs)

/-- The hours and minutes after the sign of an offset, in seconds. -/
def offsetSize? : List Char → Option (Int × List Char)
  | h₁ :: h₂ :: rest =>
    if isDigit h₁ && isDigit h₂ then
      match rest.dropWhile fun c => c == ':' || isBlank c with
      | m₁ :: m₂ :: rest =>
        if isDigit m₁ && isDigit m₂ && m₁.toNat ≤ '5'.toNat then
          some (natOfDigits 10 [h₁, h₂] * 3600 + natOfDigits 10 [m₁, m₂] * 60, rest)
        else none
      | _ => none
    else none
  | _ => none

/-- An offset from UTC in seconds. -/
def offset? (cs : List Char) : Option (Int × List Char) :=
  let zone := String.ofList ((cs.take 3).map Char.toUpper)
  if zone = "UTC" then some (0, cs.drop 3)
  else
    match cs with
    | 'Z' :: rest | 'z' :: rest => some (0, rest)
    | '+' :: rest => offsetSize? rest
    | '-' :: rest | '−' :: rest => (offsetSize? rest).map fun (n, rest) => (-n, rest)
    | _ => none

/-- The instant of a local date and time. -/
def ofLocal? (date : Date) (hour minute second nano : Nat) (offset : Int) : Option Instant :=
  if date.isValid && -262143 ≤ date.year && date.year ≤ 262142 && hour < 24 && minute < 60
      && second ≤ 60 && -86400 < offset && offset < 86400 then
    let leap := second = 60
    let seconds : Int :=
      (hour * 3600 + minute * 60 + (if leap then 59 else second) : Nat) - offset
    ofParts? (date.toDays + seconds / 86400) (seconds % 86400).toNat
      (if leap then nano + 1000000000 else nano)
  else none

/-- The instant that a text names. -/
def ofText? (s : String) : Option Instant := do
  let (year, cs) ← year? s.toList
  let cs ← mark? '-' cs
  let (month, cs) ← number? 2 cs
  let cs ← mark? '-' cs
  let (day, cs) ← number? 2 cs
  let cs ← match cs with
    | 'T' :: rest | 't' :: rest | ' ' :: rest => some rest
    | _ => none
  let (hour, cs) ← number? 2 cs
  let cs ← mark? ':' cs
  let (minute, cs) ← number? 2 cs
  let cs ← mark? ':' cs
  let (second, cs) ← number? 2 cs
  let (nano, cs) ← fraction? cs
  let (offset, cs) ← offset? (trimStart cs)
  if (trimStart cs).isEmpty then ofLocal? ⟨year, month, day⟩ hour minute second nano offset
  else none

end Questline.Instant
