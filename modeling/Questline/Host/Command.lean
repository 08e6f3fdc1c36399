import Questline.Datum.Tagged
import Questline.Json.Reader
import Questline.Operation
import Questline.Text.Blank

/-!
# Commands of the host

The game server sends one command a line, a JSON record whose member `type` names the
operation. Blank lines are passed over.
-/

namespace Questline.Host

open Datum

/-- The operation of a kind of command. -/
def ofKind? (kind : String) (d : Datum) : Option Operation :=
  match kind with
  | "startQuest" => do
    let fs ← d.fields? ["player", "quest_id", "force", "starting_step"] 2 false
    return .start (← required "player" Player.read? fs) (← required "quest_id" text? fs)
      (← withDefault "force" bool? false fs) (← optional "starting_step" text? fs)
  | "canStartQuest" => do
    let fs ← d.fields? ["player", "quest_id"] 2 false
    return .canStart (← required "player" Player.read? fs) (← required "quest_id" text? fs)
  | "abandonQuest" => do
    let fs ← d.fields? ["username", "quest_id"] 2 false
    return .abandon (← required "username" text? fs) (← required "quest_id" text? fs)
  | "completeQuest" => do
    let fs ← d.fields? ["username", "quest_id"] 2 false
    return .complete (← required "username" text? fs) (← required "quest_id" text? fs)
  | "failQuest" => do
    let fs ← d.fields? ["username", "quest_id", "reason"] 2 false
    return .fail (← required "username" text? fs) (← required "quest_id" text? fs)
      (← optional "reason" text? fs)
  | "event" => do
    let fs ← d.fields? ["username", "event", "payload"] 2 false
    return .report (← required "username" text? fs) (← required "event" text? fs)
      (← withDefault "payload" Payload.read? ∅ fs)
  | "poll" => do
    let fs ← d.fields? ["player"] 1 false
    return .poll (← required "player" Player.read? fs)
  | "availableQuests" => do
    let fs ← d.fields? ["player"] 1 false
    return .available (← required "player" Player.read? fs)
  | "dialogues" => do
    let fs ← d.fields? ["player", "npc_template_id"] 2 false
    return .dialogues (← required "player" Player.read? fs)
      (← required "npc_template_id" text? fs)
  | "chooseOption" => do
    let fs ← d.fields? ["player", "npc_template_id", "quest_id", "option_id"] 4 false
    return .choose (← required "player" Player.read? fs) (← required "npc_template_id" text? fs)
      (← required "quest_id" text? fs) (← required "option_id" text? fs)
  | "advanceToStep" => do
    let fs ← d.fields? ["username", "quest_id", "step_id"] 3 false
    return .advanceTo (← required "username" text? fs) (← required "quest_id" text? fs)
      (← required "step_id" text? fs)
  | "setVariable" => do
    let fs ← d.fields? ["username", "quest_id", "key", "value"] 4 false
    return .setVariable (← required "username" text? fs) (← required "quest_id" text? fs)
      (← required "key" text? fs) (← required "value" value? fs)
  | "progress" => do
    let fs ← d.fields? ["username"] 1 false
    return .progress (← required "username" text? fs)
  | "questStatus" => do
    let fs ← d.fields? ["username", "quest_id"] 2 false
    return .status (← required "username" text? fs) (← required "quest_id" text? fs)
  | "logout" => do
    let fs ← d.fields? ["username"] 1 false
    return .evict (← required "username" text? fs)
  | _ => none

/-- The operation that a command asks for. -/
def command? (d : Datum) : Option Operation := do
  let (kind, fields) ← d.tagged?
  ofKind? (← kind.text?) fields

/-- What a line of the host says. -/
inductive Line where
  | blank
  | command (op : Operation)
  | invalid
  deriving DecidableEq, Repr

/-- Read a line. -/
def Line.ofText (text : String) : Line :=
  if text.toList.all Text.isBlank then .blank
  else
    match (Json.read? text).bind command? with
    | some op => .command op
    | none => .invalid

end Questline.Host
