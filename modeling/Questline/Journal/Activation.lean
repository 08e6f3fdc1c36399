import Questline.Journal.StepProgress

/-!
# Activations

One player's run through one quest: the step it is on, the progress of every step it
has been on, and variables of its own.
-/

namespace Questline

structure Activation where
  quest : String
  /-- The id of the current step. -/
  step : String
  startedAt : Instant
  /-- Progress by step id. -/
  progress : Dict StepProgress
  vars : Dict Value
  deriving DecidableEq, Repr

namespace Activation

/-- A run through a quest that starts on the given step. -/
def start (q : Quest) (s : Step) (now : Instant) : Activation :=
  ⟨q.id, s.id, now, (∅ : Dict StepProgress).insert s.id (StepProgress.start s now), ∅⟩

/-- Progress of the current step; that of `s`, just entered, if there is none yet. -/
def currentProgress (a : Activation) (s : Step) (now : Instant) : StepProgress :=
  (a.progress.get? a.step).getD (StepProgress.start s now)

def setCurrentProgress (a : Activation) (p : StepProgress) : Activation :=
  { a with progress := a.progress.insert a.step p }

/-- Make `s` the current step, with fresh progress. -/
def enter (a : Activation) (s : Step) (now : Instant) : Activation :=
  { a with step := s.id, progress := a.progress.insert s.id (StepProgress.start s now) }

/-- The counter of an objective of a step. -/
def counter? (a : Activation) (step objective : String) : Option Counter :=
  (a.progress.get? step).bind fun p => p.counters.get? objective

def getVariable? (a : Activation) (key : String) : Option Value := a.vars.get? key

def setVariable (a : Activation) (key : String) (value : Value) : Activation :=
  { a with vars := a.vars.insert key value }

end Activation

end Questline
