import Questline.Journal.Basic
import Questline.Player
import Questline.Text.Case

/-!
# Gates

Whether a player meets the requirements of a quest or of a dialogue option. A gate
reports the first requirement that is not met, in a fixed order (level, class, race,
quest flags, user flags, then those of its own), and the first offending entry of a list; it
reports nothing exactly when every requirement is met.
-/

namespace Questline

/-- A requirement that a player does not meet. -/
inductive Shortfall where
  | levelTooLow (required : UInt32)
  | levelTooHigh (maximum : UInt32)
  | wrongClass (required : String)
  | wrongRace (required : String)
  | missingQuestFlag (flag : String)
  | missingFlag (flag : String)
  | questNotCompleted (quest : String)
  | questAlreadyCompleted (quest : String)
  | forbiddenFlag (flag : String)
  | notOnStep (position : QuestPosition)
  deriving DecidableEq, Repr

namespace Shortfall

/-- What the player is told. -/
def message : Shortfall → String
  | levelTooLow required => "Requires level " ++ toString required.toNat ++ "."
  | levelTooHigh maximum => "Requires level " ++ toString maximum.toNat ++ " or lower."
  | wrongClass required => "Requires class " ++ required ++ "."
  | wrongRace required => "Requires race " ++ required ++ "."
  | missingQuestFlag flag => "Missing quest flag '" ++ flag ++ "'."
  | missingFlag flag => "Missing flag '" ++ flag ++ "'."
  | questNotCompleted quest => "Requires quest '" ++ quest ++ "' to be completed."
  | questAlreadyCompleted quest => "Not available after completing '" ++ quest ++ "'."
  | forbiddenFlag flag => "Blocked by flag '" ++ flag ++ "'."
  | notOnStep position =>
    "Requires being on step '" ++ position.step ++ "' of quest '" ++ position.quest ++ "'."

end Shortfall

/-- Whether a name was given and is the required one up to ASCII case. -/
def isNamed (given : Option String) (required : String) : Bool :=
  given.any fun name => Text.sameUpToAsciiCase name required

namespace Requirements

/-- The first shared requirement that a player does not meet. -/
def shortfall? (r : Requirements) (p : Player) : Option Shortfall :=
  (r.minLevel.bind fun n => if p.level < n then some (.levelTooLow n) else .none)
    |>.or (r.maxLevel.bind fun n => if n < p.level then some (.levelTooHigh n) else .none)
    |>.or (r.className.bind fun c =>
      if isNamed p.className c then .none else some (.wrongClass c))
    |>.or (r.race.bind fun c => if isNamed p.race c then .none else some (.wrongRace c))
    |>.or ((r.questFlags.find? fun f => !p.questFlags.contains f).map .missingQuestFlag)
    |>.or ((r.flags.find? fun f => !p.flags.contains f).map .missingFlag)

end Requirements

namespace Prerequisites

/-- The first requirement for starting a quest that a player does not meet. -/
def shortfall? (r : Prerequisites) (p : Player) (j : Journal) : Option Shortfall :=
  r.toRequirements.shortfall? p
    |>.or ((r.questsCompleted.find? fun q => !j.isCompleted q).map .questNotCompleted)
    |>.or ((r.questsNotCompleted.find? fun q => j.isCompleted q).map .questAlreadyCompleted)

end Prerequisites

/-- Whether a quest is active and on a given step. -/
def Journal.isOn (j : Journal) (position : QuestPosition) : Bool :=
  (j.activation? position.quest).any (·.step == position.step)

namespace ChoiceRequirements

/-- The first requirement of a dialogue option that a player does not meet. -/
def shortfall? (r : ChoiceRequirements) (p : Player) (j : Journal) : Option Shortfall :=
  r.toRequirements.shortfall? p
    |>.or ((r.notFlags.find? p.hasAnyFlag).map .forbiddenFlag)
    |>.or (r.activeStep.bind fun s => if j.isOn s then .none else some (.notOnStep s))

end ChoiceRequirements

/-- Whether a dialogue option is offered to a player. -/
def Choice.isOffered (c : Choice) (p : Player) (j : Journal) : Bool :=
  (c.requirements.shortfall? p j).isNone

end Questline
