import Questline.Journal.Activation

/-!
# Journals

Everything that is recorded of one player's quests: the quests that are active, the
history of completions and the history of failures. Each is a list in the order of the
recording; of several entries for one quest the first counts.
-/

namespace Questline

/-- A quest that was completed, when it was last, and how often. -/
structure Completion where
  quest : String
  completedAt : Instant
  count : UInt32
  deriving DecidableEq, Repr

/-- A quest that was failed. -/
structure Failure where
  quest : String
  failedAt : Instant
  reason : Option String
  deriving DecidableEq, Repr

/-- Where a player stands on a quest. -/
inductive Status where
  | unstarted
  | active
  | completed
  | failed
  deriving DecidableEq, Repr

/-- All quest state of one player. -/
structure Journal where
  username : String
  active : List Activation
  completed : List Completion
  failed : List Failure
  lastUpdated : Instant
  deriving DecidableEq, Repr

namespace Journal

/-- A journal without entries. -/
def empty (username : String) (now : Instant) : Journal := ⟨username, [], [], [], now⟩

instance : Inhabited Journal := ⟨empty "" Instant.epoch⟩

/-! ## Looking up -/

def activation? (j : Journal) (quest : String) : Option Activation :=
  j.active.find? (·.quest = quest)

def isActive (j : Journal) (quest : String) : Bool := (j.activation? quest).isSome

def completion? (j : Journal) (quest : String) : Option Completion :=
  j.completed.find? (·.quest = quest)

def isCompleted (j : Journal) (quest : String) : Bool := (j.completion? quest).isSome

/-- An active quest is active, whatever the history says; a completion outweighs a
failure. -/
def status (j : Journal) (quest : String) : Status :=
  if j.isActive quest then .active
  else if j.isCompleted quest then .completed
  else if j.failed.any (·.quest = quest) then .failed
  else .unstarted

/-! ## Recording -/

def activate (j : Journal) (a : Activation) : Journal := { j with active := j.active ++ [a] }

/-- Put another activation in the place of the first one of its quest. -/
def replaceFirst (a : Activation) : List Activation → List Activation
  | [] => []
  | b :: rest => if b.quest = a.quest then a :: rest else b :: replaceFirst a rest

/-- Record a new state of an active quest. -/
def update (j : Journal) (a : Activation) : Journal :=
  { j with active := replaceFirst a j.active }

/-- Take a quest off the list of active ones. -/
def deactivate (j : Journal) (quest : String) : Journal :=
  { j with active := j.active.eraseP (·.quest = quest) }

/-- How often a quest has been completed. -/
def completionCount (j : Journal) (quest : String) : UInt32 :=
  ((j.completion? quest).map (·.count)).getD 0

/-- Count one more completion in the first entry of a quest, or make an entry. -/
def countCompletion (quest : String) (now : Instant) : List Completion → List Completion
  | [] => [⟨quest, now, 1⟩]
  | c :: rest =>
    if c.quest = quest then { c with completedAt := now, count := c.count + 1 } :: rest
    else c :: countCompletion quest now rest

/-- Record a completion. -/
def recordCompletion (j : Journal) (quest : String) (now : Instant) : Journal :=
  { j with completed := countCompletion quest now j.completed }

/-- Record a failure. -/
def recordFailure (j : Journal) (quest : String) (reason : Option String) (now : Instant) :
    Journal :=
  { j with failed := j.failed ++ [⟨quest, now, reason⟩] }

/-- Note the time of the last change. -/
def touch (j : Journal) (now : Instant) : Journal := { j with lastUpdated := now }

end Journal

end Questline
