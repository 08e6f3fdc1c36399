/-!
# Objectives

One measurable condition within a step: what it waits for (`Goal`) and how much of it
is required. Two kinds of goal look at the state of the player and are polled
(`haveItem`, `haveFlag`); the others wait for events; `reachLevel` does both.
-/

namespace Questline

/-- What an objective waits for. -/
inductive Goal where
  /-- Use an item. -/
  | useItem (item : String)
  /-- Pick an item up off the ground. -/
  | pickUpItem (item : String)
  /-- Hold an item in the inventory. -/
  | haveItem (item : String)
  /-- Talk to an NPC, optionally picking a given dialogue option. -/
  | talkToNpc (npc : String) (option : Option String)
  /-- Kill NPCs built from a template. -/
  | killMob (npc : String)
  /-- Walk into a room. -/
  | enterRoom (room : String)
  /-- Have a user or quest flag set. -/
  | haveFlag (flag : String)
  /-- Hand an item to an NPC. -/
  | deliverItem (item npc : String)
  /-- Reach a character level. -/
  | reachLevel (level : UInt32)
  /-- Equip an item, optionally into a given slot. -/
  | equipItem (item : String) (slot : Option String)
  deriving DecidableEq, Repr

/-- One measurable condition within a step. -/
structure Objective where
  id : String
  description : String
  /-- How many matching events are required; a level goal ignores it. -/
  count : Option UInt32
  goal : Goal
  deriving DecidableEq, Repr

namespace Objective

/-- The amount at which the objective is complete, at least one. -/
def requiredCount (o : Objective) : UInt32 :=
  let required := match o.goal with
    | .reachLevel level => level
    | _ => o.count.getD 1
  max required 1

theorem one_le_max_one (n : UInt32) : 1 ≤ max n 1 := by
  rw [show max n 1 = if n ≤ 1 then 1 else n from rfl]
  split
  · exact UInt32.le_refl 1
  · rename_i h
    exact UInt32.le_of_lt (UInt32.not_le.mp h)

theorem one_le_requiredCount (o : Objective) : 1 ≤ o.requiredCount := one_le_max_one _

end Objective

end Questline
