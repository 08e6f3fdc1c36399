import Questline.Datum.Tagged
import Questline.Engine
import Questline.Journal.Record

/-!
# Replies to the host

Every command has one reply, and every notification is sent to the host as well. Both
are JSON records whose member `type` names the kind.
-/

namespace Questline.Host

open Datum

inductive Reply where
  | questStarted (quest step : String)
  | eligibility (eligible : Bool) (reason : Option String)
  /-- Whether there was anything to do. -/
  | ack (changed : Bool)
  | questCompleted (result : QuestResult)
  | updates (results : List Update)
  | availableQuests (quests : List Quest)
  | dialogues (offers : List DialogueOffer)
  | dialogueChosen (choosing : Choosing)
  | progress (journal : Journal)
  | questStatus (quest : String) (status : Status)
  | notification (notification : Notification)
  | error (message : String)
  deriving DecidableEq, Repr

namespace Reply

/-- The reply to an operation that was carried out. -/
def ofAnswer : Answer → Reply
  | .started a => questStarted a.quest a.step
  | .eligibility none => eligibility true none
  | .eligibility (some refusal) => eligibility false (some refusal.message)
  | .available quests => availableQuests quests
  | .changed flag => ack flag
  | .completed (some result) => questCompleted result
  | .completed none => ack false
  | .updates results => updates results
  | .done => ack true
  | .dialogues offers => dialogues offers
  | .chosen (some choosing) => dialogueChosen choosing
  | .chosen none => error "Dialogue option not available."
  | .progress journal => progress journal
  | .status quest status => questStatus quest status

/-- The reply to an operation. -/
def ofOutcome : Except EngineError Answer → Reply
  | .ok answer => ofAnswer answer
  | .error e => error e.message

/-- The reply to a line that holds no command. -/
def invalidCommand : Reply := error "Invalid command: not a command of the host"

/-! ## As document trees -/

/-- A quest as it is listed to players. -/
def summary (q : Quest) : Datum :=
  .record [("id", .text q.id), ("name", .text q.name), ("description", .text q.description),
    ("category", q.category.toDatum)]

def offerDatum (d : DialogueOffer) : Datum :=
  .record [("quest_id", .text d.quest), ("step_id", .text d.step),
    ("dialogue", d.dialogue.toDatum)]

def resultFields (r : QuestResult) : Fields :=
  [("quest_id", .text r.quest), ("completion_count", ofUInt32 r.count),
    ("rewards", ofOption Rewards.toDatum r.rewards)]

def choosingFields (c : Choosing) : Fields :=
  [("actions", ofListWith Action.toDatum c.actions),
    ("updates", ofListWith Update.toDatum c.updates), ("advanced_to", ofOption .text c.advancedTo)]

def toDatum : Reply → Datum
  | questStarted quest step =>
    tag "questStarted" [("quest_id", .text quest), ("step_id", .text step)]
  | eligibility eligible reason =>
    tag "eligibility" [("eligible", .bool eligible), ("reason", ofOption .text reason)]
  | ack changed => tag "ack" [("changed", .bool changed)]
  | questCompleted result => tag "questCompleted" (resultFields result)
  | updates results => tag "updates" [("results", ofListWith Update.toDatum results)]
  | availableQuests quests => tag "availableQuests" [("quests", ofListWith summary quests)]
  | dialogues offers => tag "dialogues" [("dialogues", ofListWith offerDatum offers)]
  | dialogueChosen choosing => tag "dialogueChosen" (choosingFields choosing)
  | progress journal => tag "progress" [("progress", journal.toDatum)]
  | questStatus quest status =>
    tag "questStatus" [("quest_id", .text quest), ("status", status.toDatum)]
  | notification n => tag "notification" [("notification", n.toDatum)]
  | error message => tag "error" [("message", .text message)]

end Reply

end Questline.Host
