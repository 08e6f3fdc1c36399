import Questline.Event.GameEvent
import Questline.Journal.Counter
import Questline.Player
import Questline.Quest.Objective

/-!
# Which events move which objectives

Every goal listens for one event name at most, and an event of that name moves the
objective when its payload fits. Goals about the player's state are moved by polling
instead. Both ways answer with the amount that moves the objective's counter, or with
nothing (`eventAmount?`, `polledAmount?`).
-/

namespace Questline

namespace Goal

/-- The event that a goal listens for. -/
def eventName? : Goal → Option String
  | useItem _ => some EventName.itemUsed
  | pickUpItem _ => some EventName.itemPickup
  | talkToNpc _ _ => some EventName.npcTalked
  | killMob _ => some EventName.npcDeath
  | enterRoom _ => some EventName.roomEnter
  | deliverItem _ _ => some EventName.itemDelivered
  | reachLevel _ => some EventName.playerLevelUp
  | equipItem _ _ => some EventName.itemEquipped
  | haveItem _ | haveFlag _ => none

/-- Whether the payload of an event that a goal listens for fits the goal. A level
reached may be above the one asked for. -/
def fits (p : Payload) : Goal → Bool
  | useItem item | pickUpItem item => p.fieldEquals "itemId" item
  | talkToNpc npc option =>
    p.fieldEquals "npcTemplateId" npc && option.all (p.fieldEquals "dialogueOption")
  | killMob npc => p.fieldEquals "npcTemplateId" npc
  | enterRoom room => p.fieldEquals "roomId" room
  | deliverItem item npc => p.fieldEquals "itemId" item && p.fieldEquals "npcTemplateId" npc
  | reachLevel level => (p.number? "level").any (level.toNat ≤ ·)
  | equipItem item slot => p.fieldEquals "itemId" item && slot.all (p.fieldEquals "slot")
  | haveItem _ | haveFlag _ => false

end Goal

namespace Objective

/-- Whether an event moves an objective. -/
def isMovedBy (o : Objective) (event : String) (p : Payload) : Bool :=
  o.goal.eventName? == some event && o.goal.fits p

/-- A level as far as counters can show it. -/
def cappedLevel (n : Nat) : UInt32 := UInt32.ofNat (min n (UInt32.size - 1))

/-- How far an event that moves an objective moves it: a level goal goes to the level
reached, every other counts one. -/
def eventStep (o : Objective) (p : Payload) : Amount :=
  match o.goal with
  | .reachLevel _ => .observed (cappedLevel ((p.number? "level").getD 0))
  | _ => .increment 1

/-- The amount by which an event moves an objective. -/
def eventAmount? (event : String) (p : Payload) (o : Objective) : Option Amount :=
  if o.isMovedBy event p then some (o.eventStep p) else none

/-- The amount that a look at the player shows for an objective. -/
def polledAmount? (player : Player) (o : Objective) : Option Amount :=
  match o.goal with
  | .haveItem item => some (.observed (player.itemCount item))
  | .haveFlag flag =>
    if player.hasAnyFlag flag then some (.observed o.requiredCount) else none
  | .reachLevel level => if level ≤ player.level then some (.observed player.level) else none
  | _ => none

end Objective

end Questline
