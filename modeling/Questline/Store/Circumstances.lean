import Questline.Instant

/-!
# Circumstances

What an operation meets outside the library: what the clock shows at its moments, and
whether the storage works. The library decides nothing about either; it is told.
-/

namespace Questline

/-- What can be wrong with one access to the storage. -/
inductive Fault where
  /-- The storage refuses. -/
  | unavailable (reason : String)
  /-- The storage does not answer. -/
  | hang
  deriving DecidableEq, Repr

/-- Why a journal could not be loaded or saved. -/
inductive StoreError where
  /-- No answer within so many milliseconds. -/
  | timeout (limit : Nat)
  | unavailable (reason : String)
  /-- A stored document that no journal can be read from. -/
  | unreadable (reason : String)
  deriving DecidableEq, Repr

namespace StoreError

def message : StoreError → String
  | timeout limit => "Timed out after " ++ toString limit ++ "ms"
  | unavailable reason => "Storage unavailable: " ++ reason
  | unreadable reason => "Serialization error: " ++ reason

end StoreError

/-- The error that a fault becomes when accesses may take so many milliseconds. -/
def Fault.error (limit : Nat) : Fault → StoreError
  | unavailable reason => .unavailable reason
  | hang => .timeout limit

/-- The surroundings of one operation. -/
structure Circumstances where
  /-- The time at which a journal is made for a player who has none. -/
  openedAt : Instant
  /-- The time that the rules go by. -/
  now : Instant
  /-- The time at which the journal is written. -/
  savedAt : Instant
  /-- What is wrong with loading, if anything. -/
  loadFault : Option Fault
  /-- What is wrong with saving, if anything. -/
  saveFault : Option Fault
  deriving DecidableEq, Repr

namespace Circumstances

/-- The clock stands still and the storage works. -/
def calm (now : Instant) : Circumstances := ⟨now, now, now, none, none⟩

end Circumstances

end Questline
