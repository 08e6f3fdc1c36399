import Questline.Datum.Tagged
import Questline.Quest.Basic

/-!
# Quests as document trees

Reading a quest from a document tree (`Quest.read?`) and writing it to one
(`Quest.toDatum`). Members that may be absent are listed with their defaults; a member
that is present must have the right type. Lists of actions and objectives mix several
kinds, told apart by their member `type`; the fields of a goal stand in the record of
its objective.
-/

namespace Questline

open Datum

/-! ## Categories -/

namespace Category

def name : Category → String
  | main => "main"
  | side => "side"
  | classTrial => "class_trial"
  | tutorial => "tutorial"
  | daily => "daily"
  | event => "event"

def ofName? : String → Option Category
  | "main" => some main
  | "side" => some side
  | "class_trial" => some classTrial
  | "tutorial" => some tutorial
  | "daily" => some daily
  | "event" => some event
  | _ => none

/-- A category is its name, or a record with the name over no content. -/
def read? (dialect : Dialect) : Datum → Option Category
  | .text s => ofName? s
  | .record [(s, content)] => if dialect.isNothing content then ofName? s else none
  | _ => none

def toDatum (c : Category) : Datum := .text c.name

end Category

/-! ## Requirements -/

namespace Requirements

def fields (r : Requirements) : Fields :=
  [("min_level", ofOption ofUInt32 r.minLevel), ("max_level", ofOption ofUInt32 r.maxLevel),
    ("class", ofOption .text r.className), ("race", ofOption .text r.race)]

def ofFields? (fs : Fields) : Option Requirements := do
  let minLevel ← optional "min_level" uint32? fs
  let maxLevel ← optional "max_level" uint32? fs
  let className ← optional "class" text? fs
  let race ← optional "race" text? fs
  let questFlags ← withDefault "quest_flags" (listOf? text?) [] fs
  let flags ← withDefault "flags" (listOf? text?) [] fs
  return ⟨minLevel, maxLevel, className, race, questFlags, flags⟩

end Requirements

namespace Prerequisites

def read? (dialect : Dialect) (d : Datum) : Option Prerequisites := do
  let fs ← d.fields? ["min_level", "max_level", "class", "race", "quest_flags", "flags",
    "quests_completed", "quests_not_completed"] 0 dialect.allowsSurplus
  let shared ← Requirements.ofFields? fs
  let questsCompleted ← withDefault "quests_completed" (listOf? text?) [] fs
  let questsNotCompleted ← withDefault "quests_not_completed" (listOf? text?) [] fs
  return ⟨shared, questsCompleted, questsNotCompleted⟩

def toDatum (p : Prerequisites) : Datum :=
  .record (p.toRequirements.fields ++
    [("quest_flags", ofListWith .text p.questFlags), ("flags", ofListWith .text p.flags),
      ("quests_completed", ofListWith .text p.questsCompleted),
      ("quests_not_completed", ofListWith .text p.questsNotCompleted)])

end Prerequisites

namespace QuestPosition

def read? (dialect : Dialect) (d : Datum) : Option QuestPosition := do
  let fs ← d.fields? ["quest_id", "step_id"] 2 dialect.allowsSurplus
  let quest ← required "quest_id" text? fs
  let step ← required "step_id" text? fs
  return ⟨quest, step⟩

def toDatum (p : QuestPosition) : Datum :=
  .record [("quest_id", .text p.quest), ("step_id", .text p.step)]

end QuestPosition

namespace ChoiceRequirements

def read? (dialect : Dialect) (d : Datum) : Option ChoiceRequirements := do
  let fs ← d.fields? ["min_level", "max_level", "class", "race", "flags", "not_flags",
    "quest_flags", "active_step"] 0 dialect.allowsSurplus
  let shared ← Requirements.ofFields? fs
  let notFlags ← withDefault "not_flags" (listOf? text?) [] fs
  let activeStep ← optional "active_step" (QuestPosition.read? dialect) fs
  return ⟨shared, notFlags, activeStep⟩

def toDatum (r : ChoiceRequirements) : Datum :=
  .record (r.toRequirements.fields ++
    [("flags", ofListWith .text r.flags), ("not_flags", ofListWith .text r.notFlags),
      ("quest_flags", ofListWith .text r.questFlags),
      ("active_step", ofOption QuestPosition.toDatum r.activeStep)])

end ChoiceRequirements

/-! ## Actions -/

namespace Action

def ofKind? (kind : String) (d : Datum) : Option Action :=
  match kind with
  | "message" => do
    let fs ← d.fields? ["text"] 1 false
    return message (← required "text" text? fs)
  | "give_item" => do
    let fs ← d.fields? ["item_id", "count"] 1 false
    return giveItem (← required "item_id" text? fs) (← withDefault "count" uint32? 1 fs)
  | "remove_item" => do
    let fs ← d.fields? ["item_id", "count"] 1 false
    return removeItem (← required "item_id" text? fs) (← withDefault "count" uint32? 1 fs)
  | "give_experience" => do
    let fs ← d.fields? ["amount"] 1 false
    return giveExperience (← required "amount" uint64? fs)
  | "give_currency" => do
    let fs ← d.fields? ["currency", "amount"] 2 false
    return giveCurrency (← required "currency" text? fs) (← required "amount" int64? fs)
  | "set_quest_flag" => do
    let fs ← d.fields? ["flag"] 1 false
    return setQuestFlag (← required "flag" text? fs)
  | "set_flag" => do
    let fs ← d.fields? ["flag"] 1 false
    return setFlag (← required "flag" text? fs)
  | "teleport" => do
    let fs ← d.fields? ["room_id"] 1 false
    return teleport (← required "room_id" text? fs)
  | _ => none

def read? (d : Datum) : Option Action := do
  let (kind, fields) ← d.tagged?
  ofKind? (← kind.text?) fields

def toDatum : Action → Datum
  | message words => tag "message" [("text", .text words)]
  | giveItem item count => tag "give_item" [("item_id", .text item), ("count", ofUInt32 count)]
  | removeItem item count =>
    tag "remove_item" [("item_id", .text item), ("count", ofUInt32 count)]
  | giveExperience amount => tag "give_experience" [("amount", ofUInt64 amount)]
  | giveCurrency currency amount =>
    tag "give_currency" [("currency", .text currency), ("amount", ofInt64 amount)]
  | setQuestFlag flag => tag "set_quest_flag" [("flag", .text flag)]
  | setFlag flag => tag "set_flag" [("flag", .text flag)]
  | teleport room => tag "teleport" [("room_id", .text room)]

end Action

/-! ## Objectives -/

namespace Goal

/-- The names of the kinds of goals, in the order in which they are counted. -/
def kinds : List String :=
  ["use_item", "pickup_item", "have_item", "talk_to_npc", "kill_mob", "enter_room", "have_flag",
    "deliver_item", "reach_level", "equip_item"]

def kind : Goal → String
  | useItem _ => "use_item"
  | pickUpItem _ => "pickup_item"
  | haveItem _ => "have_item"
  | talkToNpc _ _ => "talk_to_npc"
  | killMob _ => "kill_mob"
  | enterRoom _ => "enter_room"
  | haveFlag _ => "have_flag"
  | deliverItem _ _ => "deliver_item"
  | reachLevel _ => "reach_level"
  | equipItem _ _ => "equip_item"

def fields : Goal → Fields
  | useItem item | pickUpItem item | haveItem item => [("item_id", .text item)]
  | talkToNpc npc option =>
    [("npc_template_id", .text npc), ("dialogue_option", ofOption .text option)]
  | killMob npc => [("npc_template_id", .text npc)]
  | enterRoom room => [("room_id", .text room)]
  | haveFlag flag => [("flag", .text flag)]
  | deliverItem item npc => [("item_id", .text item), ("npc_template_id", .text npc)]
  | reachLevel level => [("level", ofUInt32 level)]
  | equipItem item slot => [("item_id", .text item), ("slot", ofOption .text slot)]

def ofKind? (kind : String) (d : Datum) : Option Goal :=
  match kind with
  | "use_item" => do
    let fs ← d.fields? ["item_id"] 1 false
    return useItem (← required "item_id" text? fs)
  | "pickup_item" => do
    let fs ← d.fields? ["item_id"] 1 false
    return pickUpItem (← required "item_id" text? fs)
  | "have_item" => do
    let fs ← d.fields? ["item_id"] 1 false
    return haveItem (← required "item_id" text? fs)
  | "talk_to_npc" => do
    let fs ← d.fields? ["npc_template_id", "dialogue_option"] 1 false
    return talkToNpc (← required "npc_template_id" text? fs)
      (← optional "dialogue_option" text? fs)
  | "kill_mob" => do
    let fs ← d.fields? ["npc_template_id"] 1 false
    return killMob (← required "npc_template_id" text? fs)
  | "enter_room" => do
    let fs ← d.fields? ["room_id"] 1 false
    return enterRoom (← required "room_id" text? fs)
  | "have_flag" => do
    let fs ← d.fields? ["flag"] 1 false
    return haveFlag (← required "flag" text? fs)
  | "deliver_item" => do
    let fs ← d.fields? ["item_id", "npc_template_id"] 2 false
    return deliverItem (← required "item_id" text? fs) (← required "npc_template_id" text? fs)
  | "reach_level" => do
    let fs ← d.fields? ["level"] 1 false
    return reachLevel (← required "level" uint32? fs)
  | "equip_item" => do
    let fs ← d.fields? ["item_id", "slot"] 1 false
    return equipItem (← required "item_id" text? fs) (← optional "slot" text? fs)
  | _ => none

/-- The kind that a tree names, or counts where the notation allows it. -/
def kind? (dialect : Dialect) : Datum → Option String
  | .text s => some s
  | .int n => if dialect.countsKinds && 0 ≤ n then kinds[n.toNat]? else none
  | _ => none

end Goal

namespace Objective

/-- An objective is a record; it has no list form. -/
def read? (dialect : Dialect) : Datum → Option Objective
  | .record ms => do
    let fs ← (Datum.record ms).fields? ["id", "description", "count"] 0 false
    let id ← required "id" text? fs
    let description ← withDefault "description" text? "" fs
    let count ← optional "count" uint32? fs
    let (tag, rest) ← (Datum.record ms).tagged?
    let kind ← Goal.kind? dialect tag
    let goal ← Goal.ofKind? kind rest
    return ⟨id, description, count, goal⟩
  | _ => none

def toDatum (o : Objective) : Datum :=
  .record ([("id", .text o.id), ("description", .text o.description),
    ("count", ofOption ofUInt32 o.count), ("type", .text o.goal.kind)] ++ o.goal.fields)

end Objective

/-! ## Dialogues -/

namespace Choice

def read? (dialect : Dialect) (d : Datum) : Option Choice := do
  let fs ← d.fields? ["id", "text", "requirements", "advance_to_step", "actions"] 2
    dialect.allowsSurplus
  let id ← required "id" text? fs
  let text ← required "text" text? fs
  let requirements ←
    withDefault "requirements" (ChoiceRequirements.read? dialect) ChoiceRequirements.none fs
  let advanceTo ← optional "advance_to_step" text? fs
  let actions ← withDefault "actions" (listOf? Action.read?) [] fs
  return ⟨id, text, requirements, advanceTo, actions⟩

def toDatum (c : Choice) : Datum :=
  .record [("id", .text c.id), ("text", .text c.text), ("requirements", c.requirements.toDatum),
    ("advance_to_step", ofOption .text c.advanceTo),
    ("actions", ofListWith Action.toDatum c.actions)]

end Choice

namespace Dialogue

def read? (dialect : Dialect) (d : Datum) : Option Dialogue := do
  let fs ← d.fields? ["speaker", "text", "options"] 2 dialect.allowsSurplus
  let speaker ← optional "speaker" text? fs
  let text ← required "text" text? fs
  let choices ← withDefault "options" (listOf? (Choice.read? dialect)) [] fs
  return ⟨speaker, text, choices⟩

def toDatum (d : Dialogue) : Datum :=
  .record [("speaker", ofOption .text d.speaker), ("text", .text d.text),
    ("options", ofListWith Choice.toDatum d.choices)]

end Dialogue

/-! ## Rewards -/

namespace ItemReward

def read? (dialect : Dialect) (d : Datum) : Option ItemReward := do
  let fs ← d.fields? ["item_id", "count"] 1 dialect.allowsSurplus
  let item ← required "item_id" text? fs
  let count ← withDefault "count" uint32? 1 fs
  return ⟨item, count⟩

def toDatum (r : ItemReward) : Datum :=
  .record [("item_id", .text r.item), ("count", ofUInt32 r.count)]

end ItemReward

namespace Rewards

def read? (dialect : Dialect) (d : Datum) : Option Rewards := do
  let fs ← d.fields? ["experience", "quest_flags", "flags", "items", "currency", "message"] 0
    dialect.allowsSurplus
  let experience ← withDefault "experience" uint64? 0 fs
  let questFlags ← withDefault "quest_flags" (listOf? text?) [] fs
  let flags ← withDefault "flags" (listOf? text?) [] fs
  let items ← withDefault "items" (listOf? (ItemReward.read? dialect)) [] fs
  let currency ← withDefault "currency" (dictOf? int64?) ∅ fs
  let message ← optional "message" text? fs
  return ⟨experience, questFlags, flags, items, currency, message⟩

def toDatum (r : Rewards) : Datum :=
  .record [("experience", ofUInt64 r.experience),
    ("quest_flags", ofListWith .text r.questFlags), ("flags", ofListWith .text r.flags),
    ("items", ofListWith ItemReward.toDatum r.items), ("currency", ofDict ofInt64 r.currency),
    ("message", ofOption .text r.message)]

end Rewards

/-! ## Steps and quests -/

namespace Chain

def read? (dialect : Dialect) (d : Datum) : Option Chain := do
  let fs ← d.fields? ["previous", "next", "branch_from"] 0 dialect.allowsSurplus
  let previous ← optional "previous" text? fs
  let next ← optional "next" text? fs
  let branchFrom ← optional "branch_from" text? fs
  return ⟨previous, next, branchFrom⟩

def toDatum (c : Chain) : Datum :=
  .record [("previous", ofOption .text c.previous), ("next", ofOption .text c.next),
    ("branch_from", ofOption .text c.branchFrom)]

end Chain

namespace Step

def read? (dialect : Dialect) (d : Datum) : Option Step := do
  let fs ← d.fields? ["id", "name", "description", "objectives", "dialogues", "on_start",
    "on_complete", "require_all_objectives"] 2 dialect.allowsSurplus
  let id ← required "id" text? fs
  let name ← required "name" text? fs
  let description ← withDefault "description" text? "" fs
  let objectives ← withDefault "objectives" (listOf? (Objective.read? dialect)) [] fs
  let dialogues ← withDefault "dialogues" (dictOf? (Dialogue.read? dialect)) ∅ fs
  let onStart ← withDefault "on_start" (listOf? Action.read?) [] fs
  let onComplete ← withDefault "on_complete" (listOf? Action.read?) [] fs
  let requireAll ← withDefault "require_all_objectives" bool? true fs
  return ⟨id, name, description, objectives, dialogues, onStart, onComplete, requireAll⟩

def toDatum (s : Step) : Datum :=
  .record [("id", .text s.id), ("name", .text s.name), ("description", .text s.description),
    ("objectives", ofListWith Objective.toDatum s.objectives),
    ("dialogues", ofDict Dialogue.toDatum s.dialogues),
    ("on_start", ofListWith Action.toDatum s.onStart),
    ("on_complete", ofListWith Action.toDatum s.onComplete),
    ("require_all_objectives", .bool s.requireAll)]

end Step

namespace Quest

def read? (dialect : Dialect) (d : Datum) : Option Quest := do
  let fs ← d.fields? ["id", "name", "description", "category", "repeatable",
    "repeat_cooldown_secs", "prerequisites", "steps", "rewards", "chain"] 2
    dialect.allowsSurplus
  let id ← required "id" text? fs
  let name ← required "name" text? fs
  let description ← withDefault "description" text? "" fs
  let category ← withDefault "category" (Category.read? dialect) .side fs
  let repeatable ← withDefault "repeatable" bool? false fs
  let cooldown ← optional "repeat_cooldown_secs" int64? fs
  let prerequisites ←
    withDefault "prerequisites" (Prerequisites.read? dialect) Prerequisites.none fs
  let steps ← withDefault "steps" (listOf? (Step.read? dialect)) [] fs
  let rewards ← optional "rewards" (Rewards.read? dialect) fs
  let chain ← optional "chain" (Chain.read? dialect) fs
  return ⟨id, name, description, category, repeatable, cooldown, prerequisites, steps, rewards,
    chain⟩

def toDatum (q : Quest) : Datum :=
  .record [("id", .text q.id), ("name", .text q.name), ("description", .text q.description),
    ("category", q.category.toDatum), ("repeatable", .bool q.repeatable),
    ("repeat_cooldown_secs", ofOption ofInt64 q.cooldown),
    ("prerequisites", q.prerequisites.toDatum), ("steps", ofListWith Step.toDatum q.steps),
    ("rewards", ofOption Rewards.toDatum q.rewards), ("chain", ofOption Chain.toDatum q.chain)]

end Quest

end Questline
