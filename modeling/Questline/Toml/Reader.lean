import Questline.Toml.Scalar
import Questline.Toml.Table
import Questline.Toml.Text

/-!
# Reading TOML

A document is a list of statements: headers, which open a table, and entries, which add
a value to the table opened last. `statements?` reads them off the text and `build?` puts
them together. `Toml.read?` does both; the tree that it returns is always a record.

Fewer than 80 lists and inline tables may be nested, and a key has fewer than 80 parts.
-/

namespace Questline.Toml

/-- The key of an entry or a header: the parts that lead to a table, and the name in it. -/
structure Key where
  path : List String
  name : String
  deriving DecidableEq, Repr

inductive Statement where
  | table (key : Key)
  /-- One more table of a list. -/
  | element (key : Key)
  | entry (key : Key) (value : Datum)
  deriving DecidableEq, Repr

/-- Lists and inline tables, and parts of a key, must be fewer than this. -/
def nestingBound : Nat := 80

/-! ## Keys -/

def isKeyChar (c : Char) : Bool := c.isAlphanum || c = '_' || c = '-'

/-- One part of a key: quoted, or made of letters, digits, dashes and underscores. -/
def keyPart? (cs : List Char) : Option (String × List Char) :=
  match cs with
  | '"' :: rest => (quoted? (rest.length + 1) rest).map fun (s, rest) => (String.ofList s, rest)
  | '\'' :: rest => (literal? rest).map fun (s, rest) => (String.ofList s, rest)
  | _ =>
    let part := cs.takeWhile isKeyChar
    if part.isEmpty then none else some (String.ofList part, cs.drop part.length)

/-- A key of at most `most` parts, with the blanks around them. -/
def key? : Nat → List Char → Option (Key × List Char)
  | 0, _ => none
  | most + 1, cs =>
    match keyPart? (skipBlanks cs) with
    | none => none
    | some (part, rest) =>
      match skipBlanks rest with
      | '.' :: rest => (key? most rest).map fun (k, rest) => (⟨part :: k.path, k.name⟩, rest)
      | rest => some (⟨[], part⟩, rest)

/-! ## Values -/

/-- Skip blanks, line breaks and comments. -/
def skipTrivia (inComment : Bool) : List Char → Option (List Char)
  | '\n' :: rest => skipTrivia false rest
  | '\r' :: '\n' :: rest => skipTrivia false rest
  | '#' :: rest => skipTrivia true rest
  | c :: rest =>
    if inComment then if isPlain c then skipTrivia true rest else none
    else if isBlank c then skipTrivia false rest
    else some (c :: rest)
  | [] => none

/-- The items of a list after its opening bracket. A comma may follow the last one. -/
def listItems? (value : List Char → Option (Datum × List Char)) :
    Nat → List Char → Option (List Datum × List Char)
  | 0, _ => none
  | fuel + 1, cs =>
    match skipTrivia false cs with
    | none => none
    | some (']' :: rest) => some ([], rest)
    | some cs =>
      match value cs with
      | none => none
      | some (x, rest) =>
        match skipTrivia false rest with
        | some (',' :: rest) => (listItems? value fuel rest).map fun (xs, rest) => (x :: xs, rest)
        | some (']' :: rest) => some ([x], rest)
        | _ => none

/-- A key, an equals sign and a value. -/
def assignment? (value : List Char → Option (Datum × List Char)) (cs : List Char) :
    Option ((Key × Datum) × List Char) :=
  match key? (nestingBound - 1) cs with
  | some (k, '=' :: rest) => (value (skipBlanks rest)).map fun (d, rest) => ((k, d), rest)
  | _ => none

/-- The entries of an inline table, of which there is one at least. -/
def inlineItems? (value : List Char → Option (Datum × List Char)) :
    Nat → Entries → List Char → Option (Entries × List Char)
  | 0, _, _ => none
  | fuel + 1, es, cs =>
    match assignment? value cs with
    | none => none
    | some ((k, d), rest) =>
      match addValue k.name d k.path es with
      | none => none
      | some es =>
        match skipBlanks rest with
        | ',' :: rest => inlineItems? value fuel es rest
        | '\x7d' :: rest => some (es, rest)
        | _ => none

/-- An inline table after its opening brace. -/
def inlineTable? (value : List Char → Option (Datum × List Char)) (fuel : Nat) (cs : List Char) :
    Option (Datum × List Char) :=
  match skipBlanks cs with
  | '\x7d' :: rest => some (.record [], rest)
  | _ => (inlineItems? value fuel [] cs).map fun (es, rest) => (.record (entriesToMembers es), rest)

/-- A value in which at most `nesting` lists and inline tables are nested. -/
def value? (fuel : Nat) : Nat → List Char → Option (Datum × List Char)
  | nesting + 1, '[' :: rest =>
    (listItems? (value? fuel nesting) fuel rest).map fun (xs, rest) => (.list xs, rest)
  | nesting + 1, '\x7b' :: rest => inlineTable? (value? fuel nesting) fuel rest
  | _, '"' :: rest => (string? ('"' :: rest)).map fun (s, rest) => (.text s, rest)
  | _, '\'' :: rest => (string? ('\'' :: rest)).map fun (s, rest) => (.text s, rest)
  | _, cs => scalar? cs

/-! ## Statements -/

/-- The end of a line: blanks, perhaps a comment, and a line break or the end of the
document. -/
def endLine? (cs : List Char) : Option (List Char) :=
  let cs := match skipBlanks cs with
    | '#' :: rest => rest.dropWhile isPlain
    | cs => cs
  if cs.isEmpty then some [] else lineBreak? cs

/-- A key between brackets, after the opening ones. -/
def header? (close : List Char) (cs : List Char) : Option (Key × List Char) :=
  match key? (nestingBound - 1) cs with
  | none => none
  | some (k, rest) => if close.isPrefixOf rest then some (k, rest.drop close.length) else none

/-- One statement at the start of a text. -/
def statement? (fuel : Nat) : List Char → Option (Statement × List Char)
  | '[' :: '[' :: rest => (header? [']', ']'] rest).map fun (k, rest) => (.element k, rest)
  | '[' :: rest => (header? [']'] rest).map fun (k, rest) => (.table k, rest)
  | cs =>
    (assignment? (value? fuel (nestingBound - 1)) cs).map fun ((k, d), rest) => (.entry k d, rest)

/-- Whether a text starts with a comment or an empty line. -/
def startsIdle : List Char → Bool
  | c :: _ => c = '#' || c = '\n' || c = '\r'
  | [] => false

/-- All statements of a text. -/
def statements? : Nat → List Char → Option (List Statement)
  | 0, _ => none
  | fuel + 1, cs =>
    let cs := skipBlanks cs
    if cs.isEmpty then some []
    else if startsIdle cs then (endLine? cs).bind (statements? fuel)
    else
      match statement? (fuel + 1) cs with
      | none => none
      | some (s, rest) => ((endLine? rest).bind (statements? fuel)).map (s :: ·)

/-! ## Documents -/

/-- Put statements together. `current` is the path to the table opened last. -/
def build? (current : List String) (es : Entries) : List Statement → Option Entries
  | [] => some es
  | .table k :: rest =>
    (atPath (openTable k.name) k.path es).bind fun es => build? (k.path ++ [k.name]) es rest
  | .element k :: rest =>
    (atPath (openElement k.name) k.path es).bind fun es => build? (k.path ++ [k.name]) es rest
  | .entry k d :: rest =>
    (atPath (addValue k.name d k.path) current es).bind fun es => build? current es rest

/-- The tree of a document. A byte order mark before it is passed over. -/
def read? (s : String) : Option Datum :=
  let cs := match s.toList with
    | '\uFEFF' :: rest => rest
    | cs => cs
  do
    let statements ← statements? (cs.length + 1) cs
    let es ← build? [] [] statements
    return .record (entriesToMembers es)

end Questline.Toml
