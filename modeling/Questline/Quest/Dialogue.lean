import Questline.Quest.Action
import Questline.Quest.Requirement

/-!
# Dialogues

What an NPC says while a player is on a step, and the choices the player has.
-/

namespace Questline

/-- One conversation option. -/
structure Choice where
  id : String
  text : String
  requirements : ChoiceRequirements
  /-- The step that the quest branches to when this option is picked. -/
  advanceTo : Option String
  actions : List Action
  deriving DecidableEq, Repr

structure Dialogue where
  speaker : Option String
  text : String
  choices : List Choice
  deriving DecidableEq, Repr

end Questline
