import Questline.Datum.Reading

/-!
# Tagged records

A value that is one of several kinds is written as a record whose member `type` names
the kind, next to the fields of that kind. As a list it is the name of the kind followed
by the fields.
-/

namespace Questline.Datum

/-- The tree that names the kind, and the tree that holds the fields. -/
def tagged? : Datum → Option (Datum × Datum)
  | .record ms =>
    if occurrences "type" ms = 1 then
      (findValue? "type" ms).map fun tag => (tag, .record (ms.filter (·.1 ≠ "type")))
    else none
  | .list (tag :: xs) => some (tag, .list xs)
  | _ => none

/-- A tagged record. -/
def tag (kind : String) (fields : Fields) : Datum := .record (("type", .text kind) :: fields)

end Questline.Datum
