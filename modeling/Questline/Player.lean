import Questline.Datum.Reading

/-!
# Players

The parts of a player's state that quests look at, as the host sends them with a
command.
-/

namespace Questline

structure Player where
  username : String
  level : UInt32
  className : Option String
  race : Option String
  /-- User flags. -/
  flags : NameSet
  questFlags : NameSet
  /-- How many of each item the player holds. -/
  inventory : Dict UInt32
  deriving DecidableEq, Repr

namespace Player

/-- A player of whom only the name and the level are known. -/
def named (username : String) (level : UInt32) : Player := ⟨username, level, none, none, ∅, ∅, ∅⟩

instance : Inhabited Player := ⟨named "" 0⟩

def itemCount (p : Player) (item : String) : UInt32 := (p.inventory.get? item).getD 0

/-- Whether a flag is set, as a user flag or as a quest flag. -/
def hasAnyFlag (p : Player) (flag : String) : Bool :=
  p.flags.contains flag || p.questFlags.contains flag

def withClass (p : Player) (className : String) : Player := { p with className := some className }

def withRace (p : Player) (race : String) : Player := { p with race := some race }

def withFlag (p : Player) (flag : String) : Player := { p with flags := p.flags.insert flag }

def withQuestFlag (p : Player) (flag : String) : Player :=
  { p with questFlags := p.questFlags.insert flag }

/-- Add to the number of an item. -/
def withItem (p : Player) (item : String) (count : UInt32) : Player :=
  { p with inventory := p.inventory.insert item (p.itemCount item + count) }

/-! ## As document trees -/

open Datum

def nameSet? (d : Datum) : Option NameSet := (listOf? text? d).map NameSet.ofList

def ofNameSet (s : NameSet) : Datum := ofListWith .text s.toList

def read? (d : Datum) : Option Player := do
  let fs ← d.fields? ["username", "level", "class", "race", "flags", "quest_flags", "inventory"]
    0 false
  let username ← withDefault "username" text? "" fs
  let level ← withDefault "level" uint32? 0 fs
  let className ← optional "class" text? fs
  let race ← optional "race" text? fs
  let flags ← withDefault "flags" nameSet? ∅ fs
  let questFlags ← withDefault "quest_flags" nameSet? ∅ fs
  let inventory ← withDefault "inventory" (dictOf? uint32?) ∅ fs
  return ⟨username, level, className, race, flags, questFlags, inventory⟩

def toDatum (p : Player) : Datum :=
  .record [("username", .text p.username), ("level", ofUInt32 p.level),
    ("class", ofOption .text p.className), ("race", ofOption .text p.race),
    ("flags", ofNameSet p.flags), ("quest_flags", ofNameSet p.questFlags),
    ("inventory", ofDict ofUInt32 p.inventory)]

end Player

end Questline
