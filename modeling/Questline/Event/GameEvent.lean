import Questline.Datum.Reading
import Questline.Event.Payload

/-!
# Game events

An event reaches the quests as a name and a payload. The events that quests know about
also have a typed form, `GameEvent`, which fixes the name and the members of the
payload of each.
-/

namespace Questline

/-! ## Names -/

namespace EventName

def npcDeath : String := "npc:death"
def npcTalked : String := "npc:talked"
def roomEnter : String := "room:enter"
def itemPickup : String := "item:pickup"
def itemUsed : String := "item:used"
def itemEquipped : String := "item:equipped"
def itemDelivered : String := "item:delivered"
def playerLevelUp : String := "player:levelup"

end EventName

/-- What can happen in the game. -/
inductive GameEvent where
  | npcDeath (npc : String)
  | npcTalked (npc : String) (option : Option String)
  | roomEnter (room : String) (previous : Option String)
  | itemPickup (item inst : String)
  | itemUsed (item inst : String)
  | itemEquipped (item inst slot : String)
  | itemDelivered (item inst npc : String)
  | playerLevelUp (level previous : UInt32)
  deriving DecidableEq, Repr

namespace GameEvent

def name : GameEvent → String
  | npcDeath _ => EventName.npcDeath
  | npcTalked _ _ => EventName.npcTalked
  | roomEnter _ _ => EventName.roomEnter
  | itemPickup _ _ => EventName.itemPickup
  | itemUsed _ _ => EventName.itemUsed
  | itemEquipped _ _ _ => EventName.itemEquipped
  | itemDelivered _ _ _ => EventName.itemDelivered
  | playerLevelUp _ _ => EventName.playerLevelUp

/-- The members of the payload; an absent detail has no member. -/
def members : GameEvent → List (String × Value)
  | npcDeath npc => [("npcTemplateId", .text npc)]
  | npcTalked npc option =>
    ("npcTemplateId", .text npc) :: option.toList.map fun o => ("dialogueOption", .text o)
  | roomEnter room previous =>
    ("roomId", .text room) :: previous.toList.map fun r => ("previousRoomId", .text r)
  | itemPickup item inst | itemUsed item inst =>
    [("itemId", .text item), ("instanceId", .text inst)]
  | itemEquipped item inst slot =>
    [("itemId", .text item), ("instanceId", .text inst), ("slot", .text slot)]
  | itemDelivered item inst npc =>
    [("itemId", .text item), ("instanceId", .text inst), ("npcTemplateId", .text npc)]
  | playerLevelUp level previous =>
    [("level", .int level.toNat), ("previousLevel", .int previous.toNat)]

def payload (e : GameEvent) : Payload := Dict.ofList e.members

/-! ## As document trees -/

open Datum

def ofKind? (kind : String) (d : Datum) : Option GameEvent :=
  match kind with
  | "NpcDeath" => do
    let fs ← d.fields? ["npc_template_id"] 1 false
    return npcDeath (← required "npc_template_id" text? fs)
  | "NpcTalked" => do
    let fs ← d.fields? ["npc_template_id", "dialogue_option"] 2 false
    return npcTalked (← required "npc_template_id" text? fs)
      (← optional "dialogue_option" text? fs)
  | "RoomEnter" => do
    let fs ← d.fields? ["room_id", "previous_room_id"] 2 false
    return roomEnter (← required "room_id" text? fs) (← optional "previous_room_id" text? fs)
  | "ItemPickup" => do
    let fs ← d.fields? ["item_id", "instance_id"] 2 false
    return itemPickup (← required "item_id" text? fs) (← required "instance_id" text? fs)
  | "ItemUsed" => do
    let fs ← d.fields? ["item_id", "instance_id"] 2 false
    return itemUsed (← required "item_id" text? fs) (← required "instance_id" text? fs)
  | "ItemEquipped" => do
    let fs ← d.fields? ["item_id", "instance_id", "slot"] 3 false
    return itemEquipped (← required "item_id" text? fs) (← required "instance_id" text? fs)
      (← required "slot" text? fs)
  | "ItemDelivered" => do
    let fs ← d.fields? ["item_id", "instance_id", "npc_template_id"] 3 false
    return itemDelivered (← required "item_id" text? fs) (← required "instance_id" text? fs)
      (← required "npc_template_id" text? fs)
  | "PlayerLevelUp" => do
    let fs ← d.fields? ["level", "previous_level"] 2 false
    return playerLevelUp (← required "level" uint32? fs) (← required "previous_level" uint32? fs)
  | _ => none

/-- An event is a record with one member: the name of its kind over its fields. -/
def read? : Datum → Option GameEvent
  | .record [(kind, fields)] => ofKind? kind fields
  | _ => none

def toDatum : GameEvent → Datum
  | npcDeath npc => .record [("NpcDeath", .record [("npc_template_id", .text npc)])]
  | npcTalked npc option =>
    .record [("NpcTalked", .record [("npc_template_id", .text npc),
      ("dialogue_option", ofOption .text option)])]
  | roomEnter room previous =>
    .record [("RoomEnter", .record [("room_id", .text room),
      ("previous_room_id", ofOption .text previous)])]
  | itemPickup item inst =>
    .record [("ItemPickup", .record [("item_id", .text item), ("instance_id", .text inst)])]
  | itemUsed item inst =>
    .record [("ItemUsed", .record [("item_id", .text item), ("instance_id", .text inst)])]
  | itemEquipped item inst slot =>
    .record [("ItemEquipped", .record [("item_id", .text item), ("instance_id", .text inst),
      ("slot", .text slot)])]
  | itemDelivered item inst npc =>
    .record [("ItemDelivered", .record [("item_id", .text item), ("instance_id", .text inst),
      ("npc_template_id", .text npc)])]
  | playerLevelUp level previous =>
    .record [("PlayerLevelUp", .record [("level", ofUInt32 level),
      ("previous_level", ofUInt32 previous)])]

end GameEvent

namespace Payload

/-- A payload is a record of any values. -/
def read? (d : Datum) : Option Payload := Datum.dictOf? Datum.value? d

def toDatum (p : Payload) : Datum := Datum.ofDict Value.tree p

end Payload

end Questline
