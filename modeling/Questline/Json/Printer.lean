import Questline.Datum
import Questline.Binary64.Shortest

/-!
# Writing JSON

`Json.write` writes a tree on one line without spaces, the members of a record in the
order they stand in. A double is written by the shortest decimal that reads back as
it: positionally when its point stands at most five places before or sixteen places
after the first digit, with an exponent otherwise (`numberText`).
-/

namespace Questline.Json

/-! ## Numbers -/

def zeros (n : Nat) : String := String.ofList (List.replicate n '0')

/-- The text of a decimal: `12340.0`, `12.34`, `0.01234`, `1.234e+30`, `1e-7`. -/
def decimalText (d : Decimal) : String :=
  let digits := d.digitText
  let point := d.point
  if 0 ≤ d.power && point ≤ 16 then digits ++ zeros d.power.toNat ++ ".0"
  else if 0 < point && point ≤ 16 then
    String.ofList (digits.toList.take point.toNat) ++ "."
      ++ String.ofList (digits.toList.drop point.toNat)
  else if -5 < point && point ≤ 0 then "0." ++ zeros (-point).toNat ++ digits
  else
    let mantissa := match digits.toList with
      | [] => ""
      | [d] => d.toString
      | d :: ds => d.toString ++ "." ++ String.ofList ds
    let exponent := point - 1
    mantissa ++ "e" ++ (if exponent < 0 then "-" else "+") ++ toString exponent.natAbs

/-- The text of a double. -/
def floatText (x : Binary64) : String :=
  (if x.isNegative then "-" else "") ++ decimalText x.shortest

/-! ## Strings -/

def hexDigit (n : Nat) : Char := Char.ofNat (if n < 10 then 48 + n else 87 + n)

/-- A character within a string. -/
def escaped (c : Char) : List Char :=
  if c = '"' then ['\\', '"']
  else if c = '\\' then ['\\', '\\']
  else if c = '\n' then ['\\', 'n']
  else if c = '\r' then ['\\', 'r']
  else if c = '\t' then ['\\', 't']
  else if c = '\x08' then ['\\', 'b']
  else if c = '\x0c' then ['\\', 'f']
  else if c.toNat < 0x20 then
    ['\\', 'u', '0', '0', hexDigit (c.toNat / 16), hexDigit (c.toNat % 16)]
  else [c]

def quoted (s : String) : String :=
  "\"" ++ String.ofList (s.toList.flatMap escaped) ++ "\""

/-! ## Values -/

mutual

/-- The text of a tree. -/
def write : Datum → String
  | .null => "null"
  | .bool b => if b then "true" else "false"
  | .int n => toString n
  | .float x => if x.isFinite then floatText x else "null"
  | .text s => quoted s
  | .list [] => "[]"
  | .list (x :: xs) => "[" ++ write x ++ writeItems xs ++ "]"
  | .record [] => "\x7b\x7d"
  | .record ((k, x) :: ms) => "\x7b" ++ quoted k ++ ":" ++ write x ++ writeMembers ms ++ "\x7d"

def writeItems : List Datum → String
  | [] => ""
  | x :: xs => "," ++ write x ++ writeItems xs

def writeMembers : List (String × Datum) → String
  | [] => ""
  | (k, x) :: ms => "," ++ quoted k ++ ":" ++ write x ++ writeMembers ms

end

end Questline.Json
