import Questline.Text.Numeral

/-!
# Strings in TOML

Strings stand between double quotes, where a backslash starts an escape, or between
single quotes, where nothing is escaped. Between three quotes they run over several
lines: a line break right after the opening quotes is left out, a line break is always
one line feed, and a backslash at the end of a line leaves out all white space that
follows it. One or two quotes before the closing three belong to the text.
-/

namespace Questline.Toml

open Questline.Text

def isBlank (c : Char) : Bool := c = ' ' || c = '\t'

def skipBlanks (cs : List Char) : List Char := cs.dropWhile isBlank

/-- Whether a character may stand in a comment or, quotes and backslashes apart, in a
string: all but the control characters, of which only the tab may. -/
def isPlain (c : Char) : Bool := c = '\t' || (0x20 ≤ c.toNat && c.toNat ≠ 0x7F)

/-- The text after a line break. -/
def lineBreak? : List Char → Option (List Char)
  | '\n' :: rest => some rest
  | '\r' :: '\n' :: rest => some rest
  | _ => none

/-- The character of a two-character escape. -/
def shortEscape? : Char → Option Char
  | 'b' => some '\x08'
  | 'f' => some '\x0c'
  | 'n' => some '\n'
  | 'r' => some '\r'
  | 't' => some '\t'
  | '\\' => some '\\'
  | '"' => some '"'
  | _ => none

/-- The character with a code of `n` hexadecimal digits, and the text behind them. -/
def codePoint? (n : Nat) (cs : List Char) : Option (Char × List Char) :=
  let digits := cs.take n
  if digits.length = n && digits.all fun d => (digitValue? 16 d).isSome then
    let code := natOfDigits 16 digits
    if code < 0xD800 || (0xE000 ≤ code && code < 0x110000) then some (Char.ofNat code, cs.drop n)
    else none
  else none

/-- An escape after its backslash. -/
def escape? : List Char → Option (Char × List Char)
  | 'u' :: rest => codePoint? 4 rest
  | 'U' :: rest => codePoint? 8 rest
  | c :: rest => (shortEscape? c).map fun c => (c, rest)
  | [] => none

/-! ## On one line -/

/-- A string after its opening double quote. -/
def quoted? : Nat → List Char → Option (List Char × List Char)
  | 0, _ => none
  | _, '"' :: rest => some ([], rest)
  | fuel + 1, '\\' :: rest =>
    match escape? rest with
    | none => none
    | some (c, rest) => (quoted? fuel rest).map fun (s, rest) => (c :: s, rest)
  | fuel + 1, c :: rest =>
    if isPlain c then (quoted? fuel rest).map fun (s, rest) => (c :: s, rest) else none
  | _, [] => none

/-- A string after its opening single quote. -/
def literal? : List Char → Option (List Char × List Char)
  | '\'' :: rest => some ([], rest)
  | c :: rest => if isPlain c then (literal? rest).map fun (s, rest) => (c :: s, rest) else none
  | [] => none

/-! ## On several lines -/

/-- The closing quotes at the start of a text, with one or two more before them: these,
and what follows. -/
def closing? (quote : Char) (cs : List Char) : Option (List Char × List Char) :=
  let count := (cs.takeWhile (· == quote)).length
  if 3 ≤ count then some (List.replicate (min (count - 3) 2) quote, cs.drop (min count 5))
  else none

/-- The text after a backslash that ends its line, and after the white space that
follows. -/
def continuation? (cs : List Char) : Option (List Char) :=
  (lineBreak? (skipBlanks cs)).map skipLines
where
  /-- Skip blanks and line breaks. -/
  skipLines : List Char → List Char
    | '\r' :: '\n' :: rest => skipLines rest
    | '\n' :: rest => skipLines rest
    | c :: rest => if isBlank c then skipLines rest else c :: rest
    | [] => []

/-- A string of several lines after its opening quotes. -/
def lines? (quote : Char) : Nat → List Char → Option (List Char × List Char)
  | 0, _ => none
  | fuel + 1, cs =>
    match closing? quote cs with
    | some found => some found
    | none =>
      match lineBreak? cs with
      | some rest => (lines? quote fuel rest).map fun (s, rest) => ('\n' :: s, rest)
      | none =>
        match cs with
        | [] => none
        | c :: rest =>
          if c = '\\' && quote = '"' then
            match continuation? rest with
            | some rest => lines? quote fuel rest
            | none =>
              match escape? rest with
              | none => none
              | some (c, rest) => (lines? quote fuel rest).map fun (s, rest) => (c :: s, rest)
          else if isPlain c then (lines? quote fuel rest).map fun (s, rest) => (c :: s, rest)
          else none

/-! ## All strings -/

/-- Any string, with the text behind it. -/
def string? (cs : List Char) : Option (String × List Char) :=
  let body := match cs with
    | '"' :: '"' :: '"' :: rest => lines? '"' (rest.length + 1) ((lineBreak? rest).getD rest)
    | '\'' :: '\'' :: '\'' :: rest => lines? '\'' (rest.length + 1) ((lineBreak? rest).getD rest)
    | '"' :: rest => quoted? (rest.length + 1) rest
    | '\'' :: rest => literal? rest
    | _ => none
  body.map fun (s, rest) => (String.ofList s, rest)

end Questline.Toml
