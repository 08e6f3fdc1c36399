import Questline.Rules.Branching
import Questline.Rules.Progress

/-!
# Conversations

What an NPC offers a player because of the steps that the player's quests are on, and
what comes of picking an option: a talk with the NPC, which is an event like any other,
and then the branch that the option names, if the quest is still active.
-/

namespace Questline

/-- A dialogue that an NPC has for the current step of an active quest. -/
structure DialogueOffer where
  quest : String
  step : String
  dialogue : Dialogue
  deriving DecidableEq, Repr

/-- The dialogue with only the options that a player is offered. -/
def DialogueOffer.offeredTo (p : Player) (j : Journal) (d : DialogueOffer) : DialogueOffer :=
  let choices := d.dialogue.choices.filter fun choice => choice.isOffered p j
  { d with dialogue := { d.dialogue with choices := choices } }

/-- What comes of picking a dialogue option. -/
structure Choosing where
  /-- The actions of the option. -/
  actions : List Action
  /-- What the talk has moved. -/
  updates : List Update
  /-- The step that the option leads to, if the quest is still active. -/
  advancedTo : Option String
  deriving DecidableEq, Repr

namespace Rules

/-- The dialogue that an NPC has for an active quest. -/
def dialogueOf? (c : Catalog) (npc : String) (a : Activation) : Option DialogueOffer := do
  let q ← c.get? a.quest
  let s ← q.step? a.step
  let d ← s.dialogues.get? npc
  return ⟨a.quest, s.id, d⟩

/-- All dialogues that an NPC has for a player's quests, with every option. -/
def allDialogues (c : Catalog) (npc : String) (j : Journal) : Ruling (List DialogueOffer) :=
  .look (.ok (j.active.filterMap (dialogueOf? c npc)))

/-- The dialogues that an NPC has for a player's quests, with the options offered. -/
def dialogues (c : Catalog) (p : Player) (npc : String) (j : Journal) :
    Ruling (List DialogueOffer) :=
  .look (.ok ((j.active.filterMap (dialogueOf? c npc)).map (·.offeredTo p j)))

/-- The option of an id that an NPC offers a player in the dialogue for a quest, with
that quest and its current step. Only the first option of the id counts. -/
def choice? (c : Catalog) (p : Player) (npc quest option : String) (j : Journal) :
    Option (Quest × String × Choice) := do
  let q ← c.get? quest
  let a ← j.activation? quest
  let s ← q.step? a.step
  let d ← s.dialogues.get? npc
  let picked ← d.choices.find? (·.id = option)
  if picked.isOffered p j then some (q, a.step, picked) else none

/-- What is reported when a player picks an option. -/
def talk (npc option : String) : GameEvent := .npcTalked npc (some option)

/-- Pick a dialogue option. Nothing comes of one that is not offered. -/
def choose (c : Catalog) (p : Player) (npc quest option : String) (now : Instant) (j : Journal) :
    Ruling (Option Choosing) :=
  match choice? c p npc quest option j with
  | none => .look (.ok none)
  | some (q, origin, picked) =>
    let event := talk npc option
    let t := progress c p.username (Objective.eventAmount? event.name event.payload) now j
    match picked.advanceTo.bind q.step?, t.journal.activation? quest with
    | some target, some a =>
      let answer : Choosing := ⟨picked.actions, t.updates, some target.id⟩
      if a.step = target.id then t.ruling (some answer)
      else
        let (a', left) := branch q target origin p.username now a
        .commit (t.journal.update a') (t.news ++ [left]) (some answer)
    | _, _ => t.ruling (some ⟨picked.actions, t.updates, none⟩)

end Rules

end Questline
