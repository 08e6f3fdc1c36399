import Questline.Quest.Dialogue
import Questline.Quest.Objective
import Questline.Quest.Reward

/-!
# Quests

A quest is an ordered list of steps. Steps are named by their ids and looked up by the
first step of an id; the step after a step is the next one in the list (`nextStep?`).
A player can leave a step by finishing it or by a dialogue option that branches.
-/

namespace Questline

/-- The grouping that quest logs list quests under. -/
inductive Category where
  | main
  | side
  | classTrial
  | tutorial
  | daily
  | event
  deriving DecidableEq, Repr

/-- The neighbours of a quest in a chain of quests; for display only. -/
structure Chain where
  previous : Option String
  next : Option String
  branchFrom : Option String
  deriving DecidableEq, Repr

namespace Chain

def none : Chain := ⟨.none, .none, .none⟩

end Chain

/-- One phase of a quest. -/
structure Step where
  id : String
  name : String
  description : String
  objectives : List Objective
  /-- Dialogues by NPC template. -/
  dialogues : Dict Dialogue
  onStart : List Action
  onComplete : List Action
  /-- Whether all objectives must be met, or any one of them. -/
  requireAll : Bool
  deriving DecidableEq, Repr

namespace Step

/-- The steps that a dialogue of this step can branch to. -/
def branchTargets (s : Step) : List String :=
  s.dialogues.values.flatMap fun d => d.choices.filterMap (·.advanceTo)

end Step

/-- A quest. -/
structure Quest where
  id : String
  name : String
  description : String
  category : Category
  repeatable : Bool
  /-- Seconds that must pass between two completions of a repeatable quest. -/
  cooldown : Option Int64
  prerequisites : Prerequisites
  steps : List Step
  rewards : Option Rewards
  chain : Option Chain
  deriving DecidableEq, Repr

namespace Quest

def stepIds (q : Quest) : List String := q.steps.map (·.id)

def firstStep? (q : Quest) : Option Step := q.steps.head?

/-- The first step with an id. -/
def step? (q : Quest) (id : String) : Option Step := q.steps.find? (·.id = id)

/-- The step after the first one with an id. -/
def stepAfter? (id : String) : List Step → Option Step
  | [] => none
  | s :: rest => if s.id = id then rest.head? else stepAfter? id rest

/-- The step that follows a step in the order of the quest. -/
def nextStep? (q : Quest) (id : String) : Option Step := stepAfter? id q.steps

end Quest

end Questline
