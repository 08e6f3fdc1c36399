import Questline.Calendar

/-!
# Instants

A point in time in UTC: a day, a second of the day and a fraction in nanoseconds.
A leap second is the last second of its minute with a fraction of a full second or
more. Days are limited to the years from -262143 to 262142.

`secondsSince` is the elapsed time in whole seconds, rounded toward zero; cooldowns
are compared with it.
-/

namespace Questline

/-- A point in time. -/
structure Instant where
  /-- Days since the first of January 1970. -/
  day : Int
  second : Nat
  nano : Nat
  day_range : -96465292 ≤ day ∧ day ≤ 95026236
  second_lt : second < 86400
  nano_lt : nano < 2000000000
  leap_last : nano < 1000000000 ∨ second % 60 = 59
  deriving DecidableEq, Repr

namespace Instant

/-- The instant of a day, a second and a fraction, if they name one. -/
def ofParts? (day : Int) (second nano : Nat) : Option Instant :=
  if h : (-96465292 ≤ day ∧ day ≤ 95026236) ∧ second < 86400 ∧ nano < 2000000000
      ∧ (nano < 1000000000 ∨ second % 60 = 59) then
    some ⟨day, second, nano, h.1, h.2.1, h.2.2.1, h.2.2.2⟩
  else none

/-- The start of the year 1970. -/
def epoch : Instant :=
  ⟨0, 0, 0, by decide, by decide, by decide, by decide⟩

instance : Inhabited Instant := ⟨epoch⟩

/-- The time elapsed between two instants in nanoseconds. A leap second of the
instant that is earlier in its day counts as passed. -/
def nanosSince (later earlier : Instant) : Int :=
  let leap : Int :=
    if earlier.second < later.second then if 1000000000 ≤ earlier.nano then 1 else 0
    else if later.second < earlier.second then if 1000000000 ≤ later.nano then -1 else 0
    else 0
  ((later.day - earlier.day) * 86400 + ((later.second : Int) - earlier.second) + leap) * 1000000000
    + ((later.nano : Int) - earlier.nano)

/-- The time elapsed between two instants in whole seconds, rounded toward zero. -/
def secondsSince (later earlier : Instant) : Int :=
  (nanosSince later earlier).tdiv 1000000000

end Instant

end Questline
