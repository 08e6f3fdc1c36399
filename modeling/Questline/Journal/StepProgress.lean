import Questline.Instant
import Questline.Journal.Counter
import Questline.Quest.Basic

/-!
# Progress within a step

The counters of one visit to a step, by objective id. Entering a step gives every
objective a fresh counter; a counter that is missing, because the step gained an
objective later, is created when it is first asked for.
-/

namespace Questline

/-- Progress within one step of an active quest. -/
structure StepProgress where
  completed : Bool
  startedAt : Instant
  completedAt : Option Instant
  /-- Counters by objective id. -/
  counters : Dict Counter
  deriving DecidableEq, Repr

namespace StepProgress

/-- Progress of a step that is just entered. -/
def start (s : Step) (now : Instant) : StepProgress :=
  ⟨false, now, none, Dict.ofList (s.objectives.map fun o => (o.id, Counter.fresh o.requiredCount))⟩

/-- The counter of an objective; a fresh one if it has none yet. -/
def counter (p : StepProgress) (id : String) (required : UInt32) : Counter :=
  (p.counters.get? id).getD (Counter.fresh required)

def setCounter (p : StepProgress) (id : String) (c : Counter) : StepProgress :=
  { p with counters := p.counters.insert id c }

/-- Whether an objective is recorded as complete. -/
def isDone (p : StepProgress) (o : Objective) : Bool :=
  match p.counters.get? o.id with
  | some c => c.completed
  | none => false

/-- Whether enough of a step's objectives are complete: all of them, or any one. -/
def isSatisfied (p : StepProgress) (s : Step) : Bool :=
  if s.requireAll then s.objectives.all p.isDone else s.objectives.any p.isDone

def complete (p : StepProgress) (now : Instant) : StepProgress :=
  { p with completed := true, completedAt := some now }

end StepProgress

end Questline
