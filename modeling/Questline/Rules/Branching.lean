import Questline.Rules.Lifecycle

/-!
# Branching

An active quest can be moved to any of its steps. The step that is left is completed,
and its actions are handed out, only if its objectives are met and the quest was on it
already when the request began.
-/

namespace Questline.Rules

/-- Whether the actions of leaving a step are earned. `origin` is the step that the quest
was on when the request began. -/
def isEarned (s : Step) (p : StepProgress) (origin : String) : Bool :=
  s.id == origin && !p.completed && p.isSatisfied s

/-- Move an active quest from its current step to another. -/
def branch (q : Quest) (target : Step) (origin username : String) (now : Instant)
    (a : Activation) : Activation × Notification :=
  let (left, earned) := match q.step? a.step with
    | none => (a, [])
    | some s =>
      let p := a.currentProgress s now
      if isEarned s p origin then (a.setCurrentProgress (p.complete now), s.onComplete)
      else (a.setCurrentProgress p, [])
  (left.enter target now,
    .stepCompleted username q.id a.step (some target.id) (earned ++ target.onStart))

/-- Move an active quest to one of its steps. -/
def advanceTo (q : Quest) (target : Step) (username : String) (now : Instant) (j : Journal) :
    Ruling Unit :=
  match j.activation? q.id with
  | none => .handle j (.error .notActive)
  | some a =>
    let (a', left) := branch q target a.step username now a
    .commit (j.update a') [left] ()

end Questline.Rules
