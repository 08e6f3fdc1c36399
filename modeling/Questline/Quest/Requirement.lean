/-!
# Requirements

Conditions on a player: six that quests and dialogue options have in common
(`Requirements`), two more on the history of completed quests for starting a quest
(`Prerequisites`), and two more for being offered a dialogue option
(`ChoiceRequirements`). An absent condition always holds.
-/

namespace Questline

/-- The conditions that quests and dialogue options share. -/
structure Requirements where
  minLevel : Option UInt32
  maxLevel : Option UInt32
  className : Option String
  race : Option String
  /-- Quest flags that must all be set. -/
  questFlags : List String
  /-- User flags that must all be set. -/
  flags : List String
  deriving DecidableEq, Repr

namespace Requirements

/-- No condition. -/
def none : Requirements := ⟨.none, .none, .none, .none, [], []⟩

end Requirements

/-- Conditions for starting a quest. -/
structure Prerequisites extends Requirements where
  /-- Quests that must all be in the completed history. -/
  questsCompleted : List String
  /-- Quests that must not be in the completed history. -/
  questsNotCompleted : List String
  deriving DecidableEq, Repr

namespace Prerequisites

def none : Prerequisites := ⟨.none, [], []⟩

end Prerequisites

/-- A quest and one of its steps. -/
structure QuestPosition where
  quest : String
  step : String
  deriving DecidableEq, Repr

/-- Conditions for being offered a dialogue option. -/
structure ChoiceRequirements extends Requirements where
  /-- Flags of which none may be set, as a user flag or as a quest flag. -/
  notFlags : List String
  /-- A quest that must be active and on the given step. -/
  activeStep : Option QuestPosition
  deriving DecidableEq, Repr

namespace ChoiceRequirements

def none : ChoiceRequirements := ⟨.none, [], .none⟩

end ChoiceRequirements

end Questline
