import Questline.Datum
import Questline.Json.Printer
import Questline.Text.Blank
import Questline.Text.Numeral

/-!
# Event payloads

The named values that an event carries. Hosts are not consistent about the types of
ids and levels, so a number is also taken for the text it is written as (`text?`) and a
text for the number it spells (`number?`).
-/

namespace Questline

/-- The named values of an event. -/
abbrev Payload := Dict Value

namespace Payload

/-- The text of a value: a text itself, or a number as it is written. -/
def valueText? : Datum → Option String
  | .text s => some s
  | .int n => some (toString n)
  | .float x => some (Json.floatText x)
  | _ => none

/-- The number of a value, below `2^64`: an integer itself, or a text that spells one,
white space around it left out. -/
def valueNumber? : Datum → Option Nat
  | .int n => if 0 ≤ n && n < UInt64.size then some n.toNat else none
  | .text s => Text.boundedNumeral? UInt64.size (Text.trim s.toList)
  | _ => none

/-- A member as a text. -/
def text? (p : Payload) (key : String) : Option String :=
  (p.get? key).bind fun v => valueText? v.tree

/-- A member as a number. -/
def number? (p : Payload) (key : String) : Option Nat :=
  (p.get? key).bind fun v => valueNumber? v.tree

/-- Whether a member is there and its text is the expected one. -/
def fieldEquals (p : Payload) (key expected : String) : Bool := p.text? key == some expected

end Payload

end Questline
