import Questline.Datum

/-!
# Tables under construction

A TOML document builds its tables bit by bit, and what may still be added to a table
depends on how it came to be: by a header of its own, because a longer header passed
through it, or because a dotted key did. A table gets at most one header; a dotted key
adds only to tables that dotted keys made; a value is never extended and a name is never
given twice.
-/

namespace Questline.Toml

/-- How a table came to be. -/
inductive Origin where
  /-- By a header of its own. -/
  | headed
  /-- A longer header passed through it. -/
  | implied
  /-- A dotted key passed through it. -/
  | dotted
  deriving DecidableEq, Repr

/-- What a name stands for in a table under construction. -/
inductive Node where
  | value (d : Datum)
  | table (origin : Origin) (entries : List (String × Node))
  /-- A list of headed tables; the latest, which can still grow, and the earlier ones,
  newest first. -/
  | tables (latest : List (String × Node)) (earlier : List (List (String × Node)))

abbrev Entries := List (String × Node)

/-- Put a node in, in the place of one with the same name. -/
def setEntry (name : String) (n : Node) : Entries → Entries
  | [] => [(name, n)]
  | (k, m) :: rest => if k = name then (k, n) :: rest else (k, m) :: setEntry name n rest

/-- Change the table that the path of a header leads to. Missing tables on the way are
made; a list of tables stands for its latest one. -/
def atPath (change : Entries → Option Entries) : List String → Entries → Option Entries
  | [], es => change es
  | name :: path, es =>
    match findValue? name es with
    | none => (atPath change path []).map fun sub => setEntry name (.table .implied sub) es
    | some (.table origin sub) =>
      (atPath change path sub).map fun sub => setEntry name (.table origin sub) es
    | some (.tables latest earlier) =>
      (atPath change path latest).map fun latest => setEntry name (.tables latest earlier) es
    | some (.value _) => none

/-- Give a table its header. -/
def openTable (name : String) (es : Entries) : Option Entries :=
  match findValue? name es with
  | none => some (setEntry name (.table .headed []) es)
  | some (.table .implied sub) => some (setEntry name (.table .headed sub) es)
  | _ => none

/-- Add one more table to a list of tables. -/
def openElement (name : String) (es : Entries) : Option Entries :=
  match findValue? name es with
  | none => some (setEntry name (.tables [] []) es)
  | some (.tables latest earlier) => some (setEntry name (.tables [] (latest :: earlier)) es)
  | _ => none

/-- Add a value under a name, which dotted keys may have to lead to. -/
def addValue (name : String) (d : Datum) : List String → Entries → Option Entries
  | [], es => if (findValue? name es).isSome then none else some (es ++ [(name, .value d)])
  | part :: path, es =>
    match findValue? part es with
    | none => (addValue name d path []).map fun sub => setEntry part (.table .dotted sub) es
    | some (.table .dotted sub) =>
      (addValue name d path sub).map fun sub => setEntry part (.table .dotted sub) es
    | some (.table .implied sub) =>
      if path.isEmpty then none
      else (addValue name d path sub).map fun sub => setEntry part (.table .implied sub) es
    | some (.tables latest earlier) =>
      if path.isEmpty then none
      else (addValue name d path latest).map fun latest => setEntry part (.tables latest earlier) es
    | _ => none

/-! ## The finished tree -/

mutual

def Node.toDatum : Node → Datum
  | .value d => d
  | .table _ es => .record (entriesToMembers es)
  | .tables latest earlier =>
    .list ((elementsToData earlier).reverse ++ [.record (entriesToMembers latest)])

def entriesToMembers : List (String × Node) → List (String × Datum)
  | [] => []
  | (name, n) :: rest => (name, n.toDatum) :: entriesToMembers rest

def elementsToData : List (List (String × Node)) → List Datum
  | [] => []
  | es :: rest => .record (entriesToMembers es) :: elementsToData rest

end

end Questline.Toml
