import Questline.Rules.Eligibility

/-!
# Starting and ending quests

A quest is active at most once per player: a start is refused while the quest is
active, a forced one too. A quest leaves the list of active ones by being completed,
failed or abandoned; only the first two are recorded.
-/

namespace Questline

/-- A completed quest: how often it has been completed by now, and what it pays. -/
structure QuestResult where
  quest : String
  count : UInt32
  rewards : Option Rewards
  deriving DecidableEq, Repr

namespace Rules

/-- The step that a quest is to start on: the one asked for, or the first. -/
def startingStep? (q : Quest) : Option String → Option Step
  | some id => q.step? id
  | none => q.firstStep?

/-- Start a quest. -/
def start (q : Quest) (p : Player) (force : Bool) (step : Option String) (now : Instant)
    (j : Journal) : Ruling Activation :=
  match if force then none else refusal? q p now j with
  | some refusal => .look (.error refusal)
  | none =>
    match startingStep? q step with
    | none => .look (.error .invalidStep)
    | some s =>
      if j.isActive q.id then .look (.error .alreadyActive)
      else
        let a := Activation.start q s now
        .commit (j.activate a) [.started p.username q.id s.id s.onStart] a

/-- Drop an active quest; nothing is recorded of it. -/
def abandon (username quest : String) (j : Journal) : Ruling Bool :=
  if j.isActive quest then
    .commit (j.deactivate quest) [.abandoned username quest] true
  else .handle j (.ok false)

/-- Move a quest from the active ones into the history of completions. -/
def finish (quest : String) (now : Instant) (j : Journal) : Journal :=
  (j.deactivate quest).recordCompletion quest now

/-- The number of completions of a quest once it has been completed again. -/
def nextCount (quest : String) (j : Journal) : UInt32 := j.completionCount quest + 1

/-- Complete an active quest. -/
def complete (username quest : String) (rewards : Option Rewards) (now : Instant)
    (j : Journal) : Ruling (Option QuestResult) :=
  if j.isActive quest then
    let count := nextCount quest j
    .commit (finish quest now j) [.completed username quest count rewards]
      (some ⟨quest, count, rewards⟩)
  else .handle j (.ok none)

/-- Move an active quest into the history of failures. -/
def fail (username quest : String) (reason : Option String) (now : Instant)
    (j : Journal) : Ruling Bool :=
  if j.isActive quest then
    .commit ((j.deactivate quest).recordFailure quest reason now)
      [.failed username quest reason] true
  else .handle j (.ok false)

/-- Set a variable of an active quest. Nobody but the one who asked hears of it. -/
def setVariable (quest key : String) (value : Value) (j : Journal) : Ruling Unit :=
  match j.activation? quest with
  | some a => .commit (j.update (a.setVariable key value)) [] ()
  | none => .handle j (.error .notActive)

end Rules

end Questline
