import Questline.Datum
import Questline.Text.Numeral

/-!
# Reading JSON

`Json.read?` reads a text that holds one JSON value. It is strict where texts are
often sloppy: no comments, no trailing commas, no leading zeros, no control characters
and no lone surrogates in strings. Members are kept as they stand, also when a name
occurs twice, and at most 127 lists and records may be nested.

An integer between `-2^63` and `2^64 - 1` is read as an integer, every other number as
a double; so are `-0` and all numbers with a point or an exponent. A number too large
for a double is refused.
-/

namespace Questline.Json

open Questline.Text

/-- How many lists and records may be nested. -/
def nestingLimit : Nat := 127

def isSpace (c : Char) : Bool := c = ' ' || c = '\n' || c = '\t' || c = '\r'

def skipSpaces (cs : List Char) : List Char := cs.dropWhile isSpace

/-! ## Strings -/

/-- The character of a two-character escape. -/
def shortEscape? : Char → Option Char
  | '"' => some '"'
  | '\\' => some '\\'
  | '/' => some '/'
  | 'b' => some '\x08'
  | 'f' => some '\x0c'
  | 'n' => some '\n'
  | 'r' => some '\r'
  | 't' => some '\t'
  | _ => none

/-- The code unit of four hexadecimal digits. -/
def codeUnit? (a b c d : Char) : Option Nat :=
  if [a, b, c, d].all fun x => (digitValue? 16 x).isSome then some (natOfDigits 16 [a, b, c, d])
  else none

def isHighSurrogate (u : Nat) : Bool := 0xD800 ≤ u && u ≤ 0xDBFF

def isLowSurrogate (u : Nat) : Bool := 0xDC00 ≤ u && u ≤ 0xDFFF

/-- The character of a pair of surrogates. -/
def pairedChar (high low : Nat) : Char :=
  Char.ofNat (0x10000 + (high - 0xD800) * 0x400 + (low - 0xDC00))

/-- The rest of a string after its opening quote, up to the closing one. -/
def stringBody? : List Char → Option (List Char × List Char)
  | [] => none
  | '"' :: rest => some ([], rest)
  | '\\' :: 'u' :: a :: b :: c :: d :: '\\' :: 'u' :: e :: f :: g :: h :: rest =>
    match codeUnit? a b c d with
    | none => none
    | some u =>
      if isHighSurrogate u then
        match codeUnit? e f g h with
        | none => none
        | some v =>
          if isLowSurrogate v then
            (stringBody? rest).map fun (s, rest) => (pairedChar u v :: s, rest)
          else none
      else if isLowSurrogate u then none
      else
        (stringBody? ('\\' :: 'u' :: e :: f :: g :: h :: rest)).map fun (s, rest) =>
          (Char.ofNat u :: s, rest)
  | '\\' :: 'u' :: a :: b :: c :: d :: rest =>
    match codeUnit? a b c d with
    | none => none
    | some u =>
      if isHighSurrogate u || isLowSurrogate u then none
      else (stringBody? rest).map fun (s, rest) => (Char.ofNat u :: s, rest)
  | '\\' :: x :: rest =>
    match shortEscape? x with
    | none => none
    | some x => (stringBody? rest).map fun (s, rest) => (x :: s, rest)
  | x :: rest =>
    if x.toNat < 0x20 then none
    else (stringBody? rest).map fun (s, rest) => (x :: s, rest)

def string? (cs : List Char) : Option (String × List Char) :=
  match cs with
  | '"' :: rest => (stringBody? rest).map fun (s, rest) => (String.ofList s, rest)
  | _ => none

/-! ## Numbers -/

/-- Take digits into a significand as long as it stays below `2^64`: the significand,
the count of digits taken, and the digits left over. -/
def gather (significand : Nat) : List Char → Nat × Nat × List Char
  | [] => (significand, 0, [])
  | d :: ds =>
    let next := significand * 10 + (digitValue? 10 d).getD 0
    if next < UInt64.size then
      let (s, n, left) := gather next ds
      (s, n + 1, left)
    else (significand, 0, d :: ds)

/-- A fraction after its point, or nothing. -/
def fraction? : List Char → Option (Option (List Char) × List Char)
  | '.' :: cs =>
    let digits := cs.takeWhile isDigit
    if digits.isEmpty then none else some (some digits, cs.dropWhile isDigit)
  | cs => some (none, cs)

/-- An exponent after its letter, or nothing. -/
def exponent? : List Char → Option (Option Int × List Char)
  | 'e' :: cs | 'E' :: cs =>
    let (negative, cs) := match cs with
      | '-' :: cs => (true, cs)
      | '+' :: cs => (false, cs)
      | _ => (false, cs)
    let digits := cs.takeWhile isDigit
    if digits.isEmpty then none
    else
      let n : Int := natOfDigits 10 digits
      some (some (if negative then -n else n), cs.dropWhile isDigit)
  | cs => some (none, cs)

/-- A number after its sign. -/
def number? (negative : Bool) (cs : List Char) : Option (Datum × List Char) :=
  let digits := cs.takeWhile isDigit
  if digits.isEmpty || (1 < digits.length && digits.head? == some '0') then none
  else do
    let (fraction, rest) ← fraction? (cs.dropWhile isDigit)
    let (exponent, rest) ← exponent? rest
    let (whole, _, dropped) := gather 0 digits
    if fraction.isNone && exponent.isNone && dropped.isEmpty
        && (!negative || (0 < whole && Int64.minValue.toInt ≤ -(whole : Int))) then
      some (.int (if negative then -(whole : Int) else whole), rest)
    else
      let (significand, places, _) := gather whole (fraction.getD [])
      let power : Int := (dropped.length : Int) - places + exponent.getD 0
      let x ← Binary64.scaled? significand power
      some (.float (if negative then x.negate else x), rest)

/-! ## Values -/

/-- Items up to a closing mark, with commas between them. The text before the first
item has been looked at already; `fuel` bounds the number of items. -/
def items? {α : Type} (item : List Char → Option (α × List Char)) (close : Char) :
    Nat → List Char → Option (List α × List Char)
  | 0, _ => none
  | fuel + 1, cs =>
    match item (skipSpaces cs) with
    | none => none
    | some (x, rest) =>
      match skipSpaces rest with
      | ',' :: rest => (items? item close fuel rest).map fun (xs, rest) => (x :: xs, rest)
      | c :: rest => if c = close then some ([x], rest) else none
      | [] => none

/-- No item, or items up to a closing mark. -/
def enclosed? {α : Type} (item : List Char → Option (α × List Char)) (close : Char)
    (fuel : Nat) (cs : List Char) : Option (List α × List Char) :=
  match skipSpaces cs with
  | [] => none
  | c :: rest => if c = close then some ([], rest) else items? item close fuel (c :: rest)

/-- A name, a colon and a value. -/
def member? (value : List Char → Option (Datum × List Char)) (cs : List Char) :
    Option ((String × Datum) × List Char) :=
  match string? cs with
  | none => none
  | some (name, rest) =>
    match skipSpaces rest with
    | ':' :: rest => (value (skipSpaces rest)).map fun (x, rest) => ((name, x), rest)
    | _ => none

/-- A value in which at most `nesting` lists and records are nested. -/
def value? (fuel : Nat) : Nat → List Char → Option (Datum × List Char)
  | _, 'n' :: 'u' :: 'l' :: 'l' :: rest => some (.null, rest)
  | _, 't' :: 'r' :: 'u' :: 'e' :: rest => some (.bool true, rest)
  | _, 'f' :: 'a' :: 'l' :: 's' :: 'e' :: rest => some (.bool false, rest)
  | _, '-' :: rest => number? true rest
  | _, '"' :: rest => (stringBody? rest).map fun (s, rest) => (.text (String.ofList s), rest)
  | nesting + 1, '[' :: rest =>
    (enclosed? (value? fuel nesting) ']' fuel rest).map fun (xs, rest) => (.list xs, rest)
  | nesting + 1, '\x7b' :: rest =>
    (enclosed? (member? (value? fuel nesting)) '\x7d' fuel rest).map fun (ms, rest) =>
      (.record ms, rest)
  | _, cs => number? false cs

/-- The value that a text holds. -/
def read? (s : String) : Option Datum :=
  let cs := s.toList
  match value? (cs.length + 1) nestingLimit (skipSpaces cs) with
  | some (d, rest) => if (skipSpaces rest).isEmpty then some d else none
  | none => none

/-! ## Where a text is nested too deeply -/

/-- The column, counted in bytes, at which the first list or record opens that lies within more
than `nesting` others. `quoted` says whether the text to come is within a string, `column` where
it stands. -/
def overflow? : (quoted : Bool) → (nesting column : Nat) → List Char → Option Nat
  | _, _, _, [] => none
  | true, nesting, column, '\\' :: c :: rest =>
    overflow? true nesting (column + 1 + c.utf8Size) rest
  | true, nesting, column, c :: rest => overflow? (c != '"') nesting (column + c.utf8Size) rest
  | false, nesting, column, c :: rest =>
    if c = '[' || c = '\x7b' then
      match nesting with
      | 0 => some column
      | nesting + 1 => overflow? false nesting (column + 1) rest
    else if c = ']' || c = '\x7d' then overflow? false (nesting + 1) (column + 1) rest
    else overflow? (c = '"') nesting (column + c.utf8Size) rest

/-- What is wrong with a text of one line that is nested too deeply to be read. -/
def depthMessage (text : String) : String :=
  "recursion limit exceeded at line 1 column "
    ++ toString ((overflow? false nestingLimit 1 text.toList).getD 0)

end Questline.Json
