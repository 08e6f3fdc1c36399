import Questline.Rules.Conversation

/-!
# Operations

Everything that can be asked of the quests, and the answers. An operation needs either
nothing but the catalog, or the journal of one player, to which it applies one of the
rules; or it lets a player go. `Operation.plan` says which.
-/

namespace Questline

inductive Operation where
  | start (player : Player) (quest : String) (force : Bool) (step : Option String)
  | canStart (player : Player) (quest : String)
  | available (player : Player)
  | abandon (username quest : String)
  | complete (username quest : String)
  | fail (username quest : String) (reason : Option String)
  /-- A game event happens to a player. -/
  | report (username event : String) (payload : Payload)
  /-- Look at a player's inventory, flags and level. -/
  | poll (player : Player)
  | advanceTo (username quest step : String)
  | setVariable (username quest key : String) (value : Value)
  /-- The dialogues of an NPC with the options that the player is offered. -/
  | dialogues (player : Player) (npc : String)
  /-- The dialogues of an NPC with all options. -/
  | allDialogues (username npc : String)
  | choose (player : Player) (npc quest option : String)
  | progress (username : String)
  | status (username quest : String)
  /-- The player leaves the game. -/
  | evict (username : String)
  deriving DecidableEq, Repr

inductive Answer where
  | started (activation : Activation)
  /-- What stands against starting a quest, if anything. -/
  | eligibility (refusal : Option Refusal)
  | available (quests : List Quest)
  /-- Whether there was anything to do. -/
  | changed (flag : Bool)
  | completed (result : Option QuestResult)
  | updates (updates : List Update)
  | done
  | dialogues (offers : List DialogueOffer)
  | chosen (choosing : Option Choosing)
  | progress (journal : Journal)
  | status (quest : String) (status : Status)
  deriving DecidableEq, Repr

/-- How an operation is carried out. -/
inductive Plan where
  /-- The catalog alone decides. -/
  | settled (answer : Except Refusal Answer)
  /-- A rule is applied to the journal of a player. -/
  | consult (username : String) (rule : Journal → Ruling Answer)
  /-- A player is let go. -/
  | evict (username : String)

namespace Operation

/-- An event of a known kind happens to a player. -/
def ingest (username : String) (e : GameEvent) : Operation := .report username e.name e.payload

/-- How an operation is carried out under a catalog at a given time. -/
def plan (c : Catalog) (now : Instant) : Operation → Plan
  | start p quest force step =>
    match c.get? quest with
    | none => .settled (.error .notFound)
    | some q => .consult p.username fun j => (Rules.start q p force step now j).map .started
  | canStart p quest =>
    match c.get? quest with
    | none => .settled (.ok (.eligibility (some .notFound)))
    | some q => .consult p.username fun j => (Rules.canStart q p now j).map .eligibility
  | available p => .consult p.username fun j => (Rules.available c p now j).map .available
  | abandon u quest => .consult u fun j => (Rules.abandon u quest j).map .changed
  | complete u quest =>
    let rewards := (c.get? quest).bind (·.rewards)
    .consult u fun j => (Rules.complete u quest rewards now j).map .completed
  | fail u quest reason => .consult u fun j => (Rules.fail u quest reason now j).map .changed
  | report u event payload =>
    .consult u fun j => (Rules.report c u event payload now j).map .updates
  | poll p => .consult p.username fun j => (Rules.poll c p now j).map .updates
  | advanceTo u quest step =>
    match c.get? quest with
    | none => .settled (.error .notFound)
    | some q =>
      match q.step? step with
      | none => .settled (.error .invalidStep)
      | some target => .consult u fun j => (Rules.advanceTo q target u now j).map fun _ => .done
  | setVariable u quest key value =>
    .consult u fun j => (Rules.setVariable quest key value j).map fun _ => .done
  | dialogues p npc => .consult p.username fun j => (Rules.dialogues c p npc j).map .dialogues
  | allDialogues u npc => .consult u fun j => (Rules.allDialogues c npc j).map .dialogues
  | choose p npc quest option =>
    .consult p.username fun j => (Rules.choose c p npc quest option now j).map .chosen
  | progress u => .consult u fun j => .look (.ok (.progress j))
  | status u quest => .consult u fun j => .look (.ok (.status quest (j.status quest)))
  | evict u => .evict u

end Operation

end Questline
