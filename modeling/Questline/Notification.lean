import Questline.Quest.Record

/-!
# Notifications and updates

What the host hears of a change: notifications, which are published to every listener,
and updates, which answer the one who sent an event. Both carry what the host has to
apply itself: actions and rewards.
-/

namespace Questline

open Datum

/-- One objective that an event or a poll has moved. -/
structure ObjectiveUpdate where
  objective : String
  current : UInt32
  target : UInt32
  completed : Bool
  deriving DecidableEq, Repr

namespace ObjectiveUpdate

def fields (u : ObjectiveUpdate) : Fields :=
  [("objective_id", .text u.objective), ("current", ofUInt32 u.current),
    ("required", ofUInt32 u.target), ("completed", .bool u.completed)]

def toDatum (u : ObjectiveUpdate) : Datum := .record u.fields

end ObjectiveUpdate

/-- What an event or a poll has changed about one active quest. -/
structure Update where
  quest : String
  /-- The step that the objectives belong to. -/
  step : String
  objectives : List ObjectiveUpdate
  /-- Whether an objective has just been completed. -/
  objectiveCompleted : Bool
  stepCompleted : Bool
  /-- The step that became current, if the quest moved on. -/
  nextStep : Option String
  questCompleted : Bool
  /-- What the completed quest pays. -/
  rewards : Option Rewards
  deriving DecidableEq, Repr

namespace Update

def toDatum (u : Update) : Datum :=
  .record [("quest_id", .text u.quest), ("step_id", .text u.step),
    ("objectives", ofListWith ObjectiveUpdate.toDatum u.objectives),
    ("objective_completed", .bool u.objectiveCompleted),
    ("step_completed", .bool u.stepCompleted), ("next_step_id", ofOption .text u.nextStep),
    ("quest_completed", .bool u.questCompleted), ("rewards", ofOption Rewards.toDatum u.rewards)]

end Update

/-- A change of a player's quests, as it is published. -/
inductive Notification where
  /-- A quest was started; the actions are those of its first step. -/
  | started (username quest step : String) (actions : List Action)
  | abandoned (username quest : String)
  | completed (username quest : String) (count : UInt32) (rewards : Option Rewards)
  | failed (username quest : String) (reason : Option String)
  /-- A step was left; the actions are those of leaving it, if they were earned, and
  those of entering the next. -/
  | stepCompleted (username quest step : String) (next : Option String) (actions : List Action)
  | objectiveUpdated (username quest step : String) (update : ObjectiveUpdate)
  deriving DecidableEq, Repr

namespace Notification

def name : Notification → String
  | started _ _ _ _ => "quest:started"
  | abandoned _ _ => "quest:abandoned"
  | completed _ _ _ _ => "quest:completed"
  | failed _ _ _ => "quest:failed"
  | stepCompleted _ _ _ _ _ => "quest:step_completed"
  | objectiveUpdated _ _ _ _ => "quest:objective_updated"

def username : Notification → String
  | started u _ _ _ | abandoned u _ | completed u _ _ _ | failed u _ _
  | stepCompleted u _ _ _ _ | objectiveUpdated u _ _ _ => u

def quest : Notification → String
  | started _ q _ _ | abandoned _ q | completed _ q _ _ | failed _ q _
  | stepCompleted _ q _ _ _ | objectiveUpdated _ q _ _ => q

/-- The members beside the name, the player and the quest. -/
def details : Notification → Fields
  | started _ _ step actions =>
    [("step_id", .text step), ("actions", ofListWith Action.toDatum actions)]
  | abandoned _ _ => []
  | completed _ _ count rewards =>
    [("completion_count", ofUInt32 count), ("rewards", ofOption Rewards.toDatum rewards)]
  | failed _ _ reason => [("reason", ofOption .text reason)]
  | stepCompleted _ _ step next actions =>
    [("step_id", .text step), ("next_step_id", ofOption .text next),
      ("actions", ofListWith Action.toDatum actions)]
  | objectiveUpdated _ _ step update => ("step_id", .text step) :: update.fields

def toDatum (n : Notification) : Datum :=
  .record ([("event", .text n.name), ("username", .text n.username), ("quest_id", .text n.quest)]
    ++ n.details)

end Notification

end Questline
