import Mathlib.Data.List.Nodup
import Questline.Proofs.Archive
import Questline.Quest.Record
import Questline.Quest.Validity

/-!
# Quests read back from their documents

Every quest is read back, unchanged, from the document it is written to (`reread_unchanged`): from
the tree itself with the members of each record in their declared order, from the value that a
program would hold, with the members by increasing name, and from the text.

Trees and values are treated as one. An `Arrangement` puts the members of records in some order; no
reader can tell which, because it finds members by their names. What could go wrong is that two
names clash: the fields of a goal stand in the record of its objective, next to the member that
names its kind. That all names of a record are distinct is decided record by record.
-/

namespace Questline

open Datum

namespace Datum

/-! ## Members in another order -/

section Lookups

variable {α : Type} {ms ns : Fields} {f : Datum → Datum}

theorem occurrences_eq_count (name : String) (ms : Fields) :
    occurrences name ms = (ms.map (·.1)).count name := by
  induction ms with
  | nil => rfl
  | cons m ms ih =>
    obtain ⟨k, d⟩ := m
    rw [occurrences, ih, List.map_cons, List.count_cons, Nat.add_comm]
    simp

/-- Where names are distinct, each is found with its own value. -/
theorem findValue?_eq_some_iff {es : List (String × α)} (h : (es.map (·.1)).Nodup) {name : String}
    {x : α} : findValue? name es = some x ↔ (name, x) ∈ es := by
  refine ⟨mem_of_findValue?, fun hmem => ?_⟩
  induction es with
  | nil => cases hmem
  | cons e es ih =>
    obtain ⟨hnew, hrest⟩ := List.nodup_cons.mp h
    rcases List.mem_cons.mp hmem with heq | hlater
    · cases heq
      exact if_pos rfl
    · have hne : e.1 ≠ name := fun heq => hnew (List.mem_map.mpr ⟨_, hlater, heq.symm⟩)
      rw [findValue?_cons, if_neg hne]
      exact ih hrest hlater

/-- Members that say what others do, in some order, their values under an arrangement. -/
structure Arranged (f : Datum → Datum) (ms ns : Fields) : Prop where
  names : (ns.map (·.1)).Nodup
  find : ∀ name, findValue? name ns = (findValue? name ms).map f

namespace Arranged

theorem fields? (h : Arranged f ms ns) (names : List String) (needed : Nat) (surplus : Bool) :
    (Datum.record ns).fields? names needed surplus = some ns := by
  have honce : ∀ name, occurrences name ns ≤ 1 := fun name =>
    occurrences_eq_count name ns ▸ List.nodup_iff_count_le_one.mp h.names name
  simp [Datum.fields?, honce]

/-- The member that names the kind is taken out. -/
theorem tagged? (h : Arranged f ms ns) {kind : Datum} (hkind : findValue? "type" ms = some kind) :
    (Datum.record ns).tagged? = some (f kind, .record (ns.filter (·.1 ≠ "type"))) := by
  have hfind : findValue? "type" ns = some (f kind) := by rw [h.find, hkind, Option.map_some]
  have honce : occurrences "type" ns = 1 := by
    rw [occurrences_eq_count]
    exact List.count_eq_one_of_mem h.names (List.mem_map.mpr ⟨_, mem_of_findValue? hfind, rfl⟩)
  simp [Datum.tagged?, honce, hfind]

theorem untagged (h : Arranged f ms ns) :
    Arranged f (ms.filter (·.1 ≠ "type")) (ns.filter (·.1 ≠ "type")) where
  names := h.names.sublist (List.filter_sublist.map _)
  find name := by
    rw [Dict.findValue?_filter_ne, Dict.findValue?_filter_ne, h.find]
    split <;> rfl

end Arranged

end Lookups

/-- A way to put the members of records in order, all through a tree. -/
structure Arrangement (f : Datum → Datum) : Prop where
  null : f .null = .null
  bool : ∀ b, f (.bool b) = .bool b
  int : ∀ n, f (.int n) = .int n
  text : ∀ s, f (.text s) = .text s
  list : ∀ xs, f (.list xs) = .list (xs.map f)
  record : ∀ ms, (ms.map (·.1)).Nodup → ∃ ns, f (.record ms) = .record ns ∧ Arranged f ms ns
  /-- The entries of a table stand by increasing name in any case. -/
  table : ∀ ms, ms.Pairwise (fun a b => a.1 < b.1) →
    f (.record ms) = .record (ms.map fun m => (m.1, f m.2))

/-- The declared order. -/
theorem arrangement_id : Arrangement id where
  null := rfl
  bool _ := rfl
  int _ := rfl
  text _ := rfl
  list xs := by simp
  record ms h := ⟨ms, rfl, h, fun name => by simp⟩
  table ms _ := by simp

theorem canonicalItems_eq_map (xs : List Datum) : canonicalItems xs = xs.map canonical := by
  induction xs with
  | nil => rfl
  | cons x xs ih => rw [canonicalItems, ih, List.map_cons]

theorem canonicalMembers_eq_map (ms : Fields) :
    canonicalMembers ms = ms.map fun m => (m.1, canonical m.2) := by
  induction ms with
  | nil => rfl
  | cons m ms ih => rw [canonicalMembers, ih, List.map_cons]

theorem findValue?_map {α β : Type} (g : α → β) (name : String) (es : List (String × α)) :
    findValue? name (es.map fun e => (e.1, g e.2)) = (findValue? name es).map g := by
  induction es with
  | nil => rfl
  | cons e es ih => obtain ⟨k, x⟩ := e; by_cases hk : k = name <;> simp [hk, ih]

/-- The order of a value that a program holds. -/
theorem arrangement_canonical : Arrangement canonical where
  null := rfl
  bool _ := rfl
  int _ := rfl
  text _ := rfl
  list xs := congrArg Datum.list (canonicalItems_eq_map xs)
  record ms h := by
    refine ⟨_, rfl, ?_, fun name => ?_⟩
    · exact List.pairwise_map.mpr
        ((Dict.ofList (canonicalMembers ms)).sorted.imp fun hlt => String.ne_of_lt hlt)
    · have hreverse : ∀ x, findValue? name ms.reverse = some x ↔ findValue? name ms = some x := by
        intro x
        have hback : (ms.reverse.map (·.1)).Nodup := by
          rw [List.map_reverse]
          exact List.pairwise_reverse.mpr (h.imp Ne.symm)
        rw [findValue?_eq_some_iff h, findValue?_eq_some_iff hback, List.mem_reverse]
      show (Dict.ofList (canonicalMembers ms)).get? name = _
      rw [Dict.get?_ofList, canonicalMembers_eq_map, ← List.map_reverse, findValue?_map,
        Option.ext hreverse]
  table ms h := by
    have hsorted : (canonicalMembers ms).Pairwise fun a b => a.1 < b.1 := by
      rw [canonicalMembers_eq_map]
      exact List.pairwise_map.mpr h
    have hentries := congrArg Dict.entries (Dict.ofList_entries ⟨canonicalMembers ms, hsorted⟩)
    exact (congrArg Datum.record hentries).trans
      (congrArg Datum.record (canonicalMembers_eq_map ms))

/-! ## Reading what was arranged -/

namespace Arrangement

variable {α : Type} {f : Datum → Datum} {read : Datum → Option α} {write : α → Datum}

section Leaves

variable (hf : Arrangement f)

include hf

theorem text? (s : String) : (f (.text s)).text? = some s := by rw [hf.text]; rfl

theorem bool? (b : Bool) : (f (.bool b)).bool? = some b := by rw [hf.bool]; rfl

theorem uint32? (n : UInt32) : (f (ofUInt32 n)).uint32? = some n := by
  rw [ofUInt32, hf.int]
  exact uint32?_ofUInt32 n

theorem uint64? (n : UInt64) : (f (ofUInt64 n)).uint64? = some n := by
  rw [ofUInt64, hf.int]
  exact uint64?_ofUInt64 n

theorem int64? (n : Int64) : (f (ofInt64 n)).int64? = some n := by
  rw [ofInt64, hf.int]
  exact int64?_ofInt64 n

theorem listOf? (h : ∀ x, read (f (write x)) = some x) (xs : List α) :
    Datum.listOf? read (f (ofListWith write xs)) = some xs := by
  rw [ofListWith, hf.list, List.map_map]
  exact readAll_map h xs

theorem dictOf? (h : ∀ x, read (f (write x)) = some x) (d : Dict α) :
    Datum.dictOf? read (f (ofDict write d)) = some d := by
  rw [ofDict, hf.table _ (List.pairwise_map.mpr d.sorted), List.map_map]
  exact dictOf?_ofDict h d

theorem ofOption (o : Option α) :
    f (Datum.ofOption write o) = Datum.ofOption (fun x => f (write x)) o := by
  cases o with
  | none => exact hf.null
  | some x => rfl

theorem optional {name : String} {fs : Fields} {o : Option α}
    (hfind : findValue? name fs = some (f (Datum.ofOption write o)))
    (hread : ∀ x, read (f (write x)) = some x) (hnull : ∀ x, f (write x) ≠ .null) :
    Datum.optional name read fs = some o :=
  optional_ofOption (hf.ofOption o ▸ hfind) hread hnull

theorem text_ne_null (s : String) : f (.text s) ≠ .null := by simp [hf.text]

theorem optionalText {name : String} {fs : Fields} {o : Option String}
    (hfind : findValue? name fs = some (f (Datum.ofOption .text o))) :
    Datum.optional name Datum.text? fs = some o :=
  hf.optional hfind hf.text? hf.text_ne_null

theorem optionalUInt32 {name : String} {fs : Fields} {o : Option UInt32}
    (hfind : findValue? name fs = some (f (Datum.ofOption ofUInt32 o))) :
    Datum.optional name Datum.uint32? fs = some o :=
  hf.optional hfind hf.uint32? fun n => by simp [ofUInt32, hf.int]

/-- A record is read if it can be read off any members that say what its own do. -/
theorem reads {β : Type} {ms : Fields} (hnames : (ms.map (·.1)).Nodup) {read : Datum → Option β}
    {x : β} (h : ∀ ns, Arranged f ms ns → read (.record ns) = some x) :
    read (f (.record ms)) = some x := by
  obtain ⟨ns, hns, harranged⟩ := hf.record ms hnames
  rw [hns]
  exact h ns harranged

theorem record_ne_null {ms : Fields} (hnames : (ms.map (·.1)).Nodup) :
    f (.record ms) ≠ .null := by
  obtain ⟨ns, hns, -⟩ := hf.record ms hnames
  simp [hns]

end Leaves

end Arrangement

end Datum

/-! ## Every record of a quest -/

/-- The members of an objective: its own, the name of its kind and the fields of its goal. -/
def Objective.members (o : Objective) : Fields :=
  [("id", .text o.id), ("description", .text o.description),
    ("count", ofOption ofUInt32 o.count), ("type", .text o.goal.kind)] ++ o.goal.fields

/-- No name stands for two of them. -/
theorem Objective.names_nodup (o : Objective) : (o.members.map (·.1)).Nodup := by
  simp only [members, List.map_append]
  cases o.goal <;> simp [Goal.fields]

section Records

variable {f : Datum → Datum} (hf : Arrangement f) (dialect : Dialect)

include hf

theorem ItemReward.read?_arranged (r : ItemReward) :
    ItemReward.read? dialect (f r.toDatum) = some r := by
  refine hf.reads (by simp) fun fs h => ?_
  refine read_step (h.fields? ..) ?_
  refine read_step (required_of_find (h.find _) (hf.text? _)) ?_
  exact read_step (withDefault_of_find (h.find _) (hf.uint32? _)) rfl

theorem Rewards.read?_arranged (r : Rewards) : Rewards.read? dialect (f r.toDatum) = some r := by
  refine hf.reads (by simp) fun fs h => ?_
  refine read_step (h.fields? ..) ?_
  refine read_step (withDefault_of_find (h.find _) (hf.uint64? _)) ?_
  refine read_step (withDefault_of_find (h.find _) (hf.listOf? hf.text? _)) ?_
  refine read_step (withDefault_of_find (h.find _) (hf.listOf? hf.text? _)) ?_
  refine read_step (withDefault_of_find (h.find _)
    (hf.listOf? (ItemReward.read?_arranged hf dialect) _)) ?_
  refine read_step (withDefault_of_find (h.find _) (hf.dictOf? hf.int64? _)) ?_
  exact read_step (hf.optionalText (h.find _)) rfl

theorem Chain.read?_arranged (c : Chain) : Chain.read? dialect (f c.toDatum) = some c := by
  refine hf.reads (by simp) fun fs h => ?_
  refine read_step (h.fields? ..) ?_
  refine read_step (hf.optionalText (h.find _)) ?_
  refine read_step (hf.optionalText (h.find _)) ?_
  exact read_step (hf.optionalText (h.find _)) rfl

theorem QuestPosition.read?_arranged (p : QuestPosition) :
    QuestPosition.read? dialect (f p.toDatum) = some p := by
  refine hf.reads (by simp) fun fs h => ?_
  refine read_step (h.fields? ..) ?_
  refine read_step (required_of_find (h.find _) (hf.text? _)) ?_
  exact read_step (required_of_find (h.find _) (hf.text? _)) rfl

/-! ### Conditions -/

/-- The shared conditions are read off the members of any record that has them. -/
theorem Requirements.ofFields?_arranged (r : Requirements) {ms ns : Fields}
    (h : Arranged f ms ns)
    (hminLevel : findValue? "min_level" ms = some (ofOption ofUInt32 r.minLevel))
    (hmaxLevel : findValue? "max_level" ms = some (ofOption ofUInt32 r.maxLevel))
    (hclass : findValue? "class" ms = some (ofOption .text r.className))
    (hrace : findValue? "race" ms = some (ofOption .text r.race))
    (hquestFlags : findValue? "quest_flags" ms = some (ofListWith .text r.questFlags))
    (hflags : findValue? "flags" ms = some (ofListWith .text r.flags)) :
    Requirements.ofFields? ns = some r := by
  have hfind : ∀ {name : String} {d : Datum}, findValue? name ms = some d →
      findValue? name ns = some (f d) := fun hd => by rw [h.find, hd, Option.map_some]
  refine read_step (hf.optionalUInt32 (hfind hminLevel)) ?_
  refine read_step (hf.optionalUInt32 (hfind hmaxLevel)) ?_
  refine read_step (hf.optionalText (hfind hclass)) ?_
  refine read_step (hf.optionalText (hfind hrace)) ?_
  refine read_step (withDefault_of_find (hfind hquestFlags) (hf.listOf? hf.text? _)) ?_
  exact read_step (withDefault_of_find (hfind hflags) (hf.listOf? hf.text? _)) rfl

theorem Prerequisites.read?_arranged (r : Prerequisites) :
    Prerequisites.read? dialect (f r.toDatum) = some r := by
  refine hf.reads (by simp [Requirements.fields]) fun fs h => ?_
  refine read_step (h.fields? ..) ?_
  refine read_step (r.toRequirements.ofFields?_arranged hf h rfl rfl rfl rfl rfl rfl) ?_
  refine read_step (withDefault_of_find (h.find _) (hf.listOf? hf.text? _)) ?_
  exact read_step (withDefault_of_find (h.find _) (hf.listOf? hf.text? _)) rfl

theorem ChoiceRequirements.read?_arranged (r : ChoiceRequirements) :
    ChoiceRequirements.read? dialect (f r.toDatum) = some r := by
  refine hf.reads (by simp [Requirements.fields]) fun fs h => ?_
  refine read_step (h.fields? ..) ?_
  refine read_step (r.toRequirements.ofFields?_arranged hf h rfl rfl rfl rfl rfl rfl) ?_
  refine read_step (withDefault_of_find (h.find _) (hf.listOf? hf.text? _)) ?_
  exact read_step (hf.optional (h.find _) (QuestPosition.read?_arranged hf dialect)
    fun p => hf.record_ne_null (by simp)) rfl

/-! ### Actions -/

theorem Action.read?_tag {kind : String} {fields : Fields} {a : Action}
    (hnames : ("type" :: fields.map (·.1)).Nodup)
    (h : ∀ ns, Arranged f fields ns → Action.ofKind? kind (.record ns) = some a) :
    Action.read? (f (tag kind fields)) = some a := by
  have hall : (((("type", Datum.text kind) :: fields) : Fields).map (·.1)).Nodup := hnames
  refine hf.reads hall fun ns harranged => ?_
  refine read_step (harranged.tagged? rfl) (read_step (hf.text? kind) (h _ ?_))
  have hfields : (("type", .text kind) :: fields).filter (·.1 ≠ "type") = fields := by
    rw [List.filter_cons_of_neg (by simp), List.filter_eq_self]
    intro m hm
    have hne : "type" ≠ m.1 := fun heq =>
      (List.nodup_cons.mp hnames).1 (List.mem_map.mpr ⟨m, hm, heq.symm⟩)
    simpa using hne.symm
  exact hfields ▸ harranged.untagged

theorem Action.read?_arranged (a : Action) : Action.read? (f a.toDatum) = some a := by
  cases a with
  | message words =>
    refine Action.read?_tag hf (by simp) fun ns h => ?_
    refine read_step (h.fields? ..) ?_
    exact read_step (required_of_find (h.find _) (hf.text? _)) rfl
  | giveItem item count =>
    refine Action.read?_tag hf (by simp) fun ns h => ?_
    refine read_step (h.fields? ..) ?_
    refine read_step (required_of_find (h.find _) (hf.text? _)) ?_
    exact read_step (withDefault_of_find (h.find _) (hf.uint32? _)) rfl
  | removeItem item count =>
    refine Action.read?_tag hf (by simp) fun ns h => ?_
    refine read_step (h.fields? ..) ?_
    refine read_step (required_of_find (h.find _) (hf.text? _)) ?_
    exact read_step (withDefault_of_find (h.find _) (hf.uint32? _)) rfl
  | giveExperience amount =>
    refine Action.read?_tag hf (by simp) fun ns h => ?_
    refine read_step (h.fields? ..) ?_
    exact read_step (required_of_find (h.find _) (hf.uint64? _)) rfl
  | giveCurrency currency amount =>
    refine Action.read?_tag hf (by simp) fun ns h => ?_
    refine read_step (h.fields? ..) ?_
    refine read_step (required_of_find (h.find _) (hf.text? _)) ?_
    exact read_step (required_of_find (h.find _) (hf.int64? _)) rfl
  | setQuestFlag flag =>
    refine Action.read?_tag hf (by simp) fun ns h => ?_
    refine read_step (h.fields? ..) ?_
    exact read_step (required_of_find (h.find _) (hf.text? _)) rfl
  | setFlag flag =>
    refine Action.read?_tag hf (by simp) fun ns h => ?_
    refine read_step (h.fields? ..) ?_
    exact read_step (required_of_find (h.find _) (hf.text? _)) rfl
  | teleport room =>
    refine Action.read?_tag hf (by simp) fun ns h => ?_
    refine read_step (h.fields? ..) ?_
    exact read_step (required_of_find (h.find _) (hf.text? _)) rfl

/-! ### Objectives -/

/-- The fields of a goal are read off the members of any record that has them. -/
theorem Goal.ofKind?_arranged (g : Goal) {ms ns : Fields} (h : Arranged f ms ns)
    (hfields : ∀ m ∈ g.fields, findValue? m.1 ms = some m.2) :
    Goal.ofKind? g.kind (.record ns) = some g := by
  have hfind : ∀ m ∈ g.fields, findValue? m.1 ns = some (f m.2) := fun m hm => by
    rw [h.find, hfields m hm, Option.map_some]
  cases g with
  | useItem item | pickUpItem item | haveItem item =>
    refine read_step (h.fields? ..) ?_
    exact read_step (required_of_find (hfind ("item_id", _) (.head _)) (hf.text? _)) rfl
  | talkToNpc npc option =>
    refine read_step (h.fields? ..) ?_
    refine read_step (required_of_find (hfind ("npc_template_id", _) (.head _)) (hf.text? _)) ?_
    exact read_step (hf.optionalText (hfind ("dialogue_option", _) (.tail _ (.head _)))) rfl
  | killMob npc =>
    refine read_step (h.fields? ..) ?_
    exact read_step (required_of_find (hfind ("npc_template_id", _) (.head _)) (hf.text? _)) rfl
  | enterRoom room =>
    refine read_step (h.fields? ..) ?_
    exact read_step (required_of_find (hfind ("room_id", _) (.head _)) (hf.text? _)) rfl
  | haveFlag flag =>
    refine read_step (h.fields? ..) ?_
    exact read_step (required_of_find (hfind ("flag", _) (.head _)) (hf.text? _)) rfl
  | deliverItem item npc =>
    refine read_step (h.fields? ..) ?_
    refine read_step (required_of_find (hfind ("item_id", _) (.head _)) (hf.text? _)) ?_
    exact read_step (required_of_find (hfind ("npc_template_id", _) (.tail _ (.head _)))
      (hf.text? _)) rfl
  | reachLevel level =>
    refine read_step (h.fields? ..) ?_
    exact read_step (required_of_find (hfind ("level", _) (.head _)) (hf.uint32? _)) rfl
  | equipItem item slot =>
    refine read_step (h.fields? ..) ?_
    refine read_step (required_of_find (hfind ("item_id", _) (.head _)) (hf.text? _)) ?_
    exact read_step (hf.optionalText (hfind ("slot", _) (.tail _ (.head _)))) rfl

theorem Objective.read?_arranged (o : Objective) :
    Objective.read? dialect (f o.toDatum) = some o := by
  refine hf.reads o.names_nodup fun ns h => ?_
  refine read_step (h.fields? ..) ?_
  refine read_step (required_of_find (h.find _) (hf.text? _)) ?_
  refine read_step (withDefault_of_find (h.find _) (hf.text? _)) ?_
  refine read_step (hf.optionalUInt32 (h.find _)) ?_
  refine read_step (h.tagged? rfl) ?_
  have hkind : Goal.kind? dialect (f (.text o.goal.kind)) = some o.goal.kind := by
    rw [hf.text]
    rfl
  refine read_step hkind (read_step (o.goal.ofKind?_arranged hf h.untagged fun m hm => ?_) rfl)
  have hother : m.1 ≠ "type" := by
    revert m
    cases o.goal <;> simp [Goal.fields]
  rw [Dict.findValue?_filter_ne, if_neg hother.symm]
  exact (findValue?_eq_some_iff o.names_nodup).mpr (List.mem_append_right _ hm)

/-! ### Dialogues, steps and quests -/

theorem Choice.read?_arranged (c : Choice) : Choice.read? dialect (f c.toDatum) = some c := by
  refine hf.reads (by simp) fun fs h => ?_
  refine read_step (h.fields? ..) ?_
  refine read_step (required_of_find (h.find _) (hf.text? _)) ?_
  refine read_step (required_of_find (h.find _) (hf.text? _)) ?_
  refine read_step (withDefault_of_find (h.find _)
    (ChoiceRequirements.read?_arranged hf dialect _)) ?_
  refine read_step (hf.optionalText (h.find _)) ?_
  exact read_step (withDefault_of_find (h.find _) (hf.listOf? (Action.read?_arranged hf) _)) rfl

theorem Dialogue.read?_arranged (d : Dialogue) :
    Dialogue.read? dialect (f d.toDatum) = some d := by
  refine hf.reads (by simp) fun fs h => ?_
  refine read_step (h.fields? ..) ?_
  refine read_step (hf.optionalText (h.find _)) ?_
  refine read_step (required_of_find (h.find _) (hf.text? _)) ?_
  exact read_step (withDefault_of_find (h.find _)
    (hf.listOf? (Choice.read?_arranged hf dialect) _)) rfl

theorem Step.read?_arranged (s : Step) : Step.read? dialect (f s.toDatum) = some s := by
  refine hf.reads (by simp) fun fs h => ?_
  refine read_step (h.fields? ..) ?_
  refine read_step (required_of_find (h.find _) (hf.text? _)) ?_
  refine read_step (required_of_find (h.find _) (hf.text? _)) ?_
  refine read_step (withDefault_of_find (h.find _) (hf.text? _)) ?_
  refine read_step (withDefault_of_find (h.find _)
    (hf.listOf? (Objective.read?_arranged hf dialect) _)) ?_
  refine read_step (withDefault_of_find (h.find _)
    (hf.dictOf? (Dialogue.read?_arranged hf dialect) _)) ?_
  refine read_step (withDefault_of_find (h.find _) (hf.listOf? (Action.read?_arranged hf) _)) ?_
  refine read_step (withDefault_of_find (h.find _) (hf.listOf? (Action.read?_arranged hf) _)) ?_
  exact read_step (withDefault_of_find (h.find _) (hf.bool? _)) rfl

theorem Category.read?_arranged (c : Category) :
    Category.read? dialect (f c.toDatum) = some c := by
  rw [Category.toDatum, hf.text]
  cases c <;> rfl

theorem Quest.read?_arranged (q : Quest) : Quest.read? dialect (f q.toDatum) = some q := by
  refine hf.reads (by simp) fun fs h => ?_
  refine read_step (h.fields? ..) ?_
  refine read_step (required_of_find (h.find _) (hf.text? _)) ?_
  refine read_step (required_of_find (h.find _) (hf.text? _)) ?_
  refine read_step (withDefault_of_find (h.find _) (hf.text? _)) ?_
  refine read_step (withDefault_of_find (h.find _) (Category.read?_arranged hf dialect _)) ?_
  refine read_step (withDefault_of_find (h.find _) (hf.bool? _)) ?_
  refine read_step (hf.optional (h.find _) hf.int64? fun n => by simp [ofInt64, hf.int]) ?_
  refine read_step (withDefault_of_find (h.find _) (Prerequisites.read?_arranged hf dialect _)) ?_
  refine read_step (withDefault_of_find (h.find _)
    (hf.listOf? (Step.read?_arranged hf dialect) _)) ?_
  refine read_step (hf.optional (h.find _) (Rewards.read?_arranged hf dialect)
    fun r => hf.record_ne_null (by simp)) ?_
  exact read_step (hf.optional (h.find _) (Chain.read?_arranged hf dialect)
    fun c => hf.record_ne_null (by simp)) rfl

end Records

/-! ## What a text can hold -/

open Json

theorem Json.fits_uint64 (n : Nat) (k : UInt64) : Fits n (ofUInt64 k) := by
  have := k.toNat_lt
  exact ⟨holdsNumbers_int.mpr (by omega), Nat.zero_le _⟩

theorem Json.fits_int64 (n : Nat) (k : Int64) : Fits n (ofInt64 k) := by
  have hlow := k.le_toInt
  have hhigh := k.toInt_lt
  exact ⟨holdsNumbers_int.mpr (by omega), Nat.zero_le _⟩

theorem Json.fits_texts (n : Nat) (xs : List String) : Fits (n + 1) (ofListWith .text xs) :=
  fits_ofListWith fun x _ => fits_text n x

theorem Json.fits_optionalText (n : Nat) (o : Option String) : Fits n (ofOption .text o) :=
  fits_ofOption (fits_text n)

theorem Json.fits_optionalUInt32 (n : Nat) (o : Option UInt32) : Fits n (ofOption ofUInt32 o) :=
  fits_ofOption (fits_uint32 n)

theorem ItemReward.fits (r : ItemReward) : Fits 1 r.toDatum := by
  refine fits_record ?_
  simp only [List.forall_mem_cons]
  exact ⟨fits_text 0 _, fits_uint32 0 _, nofun⟩

theorem Rewards.fits (r : Rewards) : Fits 3 r.toDatum := by
  refine fits_record ?_
  simp only [List.forall_mem_cons]
  exact ⟨fits_uint64 2 _, fits_texts 1 _, fits_texts 1 _, fits_ofListWith fun i _ => i.fits,
    fits_ofDict fun e _ => fits_int64 1 _, fits_optionalText 2 _, nofun⟩

theorem Chain.fits (c : Chain) : Fits 1 c.toDatum := by
  refine fits_record ?_
  simp only [List.forall_mem_cons]
  exact ⟨fits_optionalText 0 _, fits_optionalText 0 _, fits_optionalText 0 _, nofun⟩

theorem QuestPosition.fits (p : QuestPosition) : Fits 1 p.toDatum := by
  refine fits_record ?_
  simp only [List.forall_mem_cons]
  exact ⟨fits_text 0 _, fits_text 0 _, nofun⟩

theorem Prerequisites.fits (r : Prerequisites) : Fits 2 r.toDatum := by
  refine fits_record ?_
  simp only [Requirements.fields, List.cons_append, List.nil_append, List.forall_mem_cons]
  exact ⟨fits_optionalUInt32 1 _, fits_optionalUInt32 1 _, fits_optionalText 1 _,
    fits_optionalText 1 _, fits_texts 0 _, fits_texts 0 _, fits_texts 0 _, fits_texts 0 _, nofun⟩

theorem ChoiceRequirements.fits (r : ChoiceRequirements) : Fits 2 r.toDatum := by
  refine fits_record ?_
  simp only [Requirements.fields, List.cons_append, List.nil_append, List.forall_mem_cons]
  exact ⟨fits_optionalUInt32 1 _, fits_optionalUInt32 1 _, fits_optionalText 1 _,
    fits_optionalText 1 _, fits_texts 0 _, fits_texts 0 _, fits_texts 0 _,
    fits_ofOption fun p => p.fits, nofun⟩

theorem Action.fits (a : Action) : Fits 1 a.toDatum := by
  cases a <;> refine fits_record ?_ <;>
    simp [fits_text, fits_uint32, fits_uint64, fits_int64]

theorem Objective.fits (o : Objective) : Fits 1 o.toDatum := by
  have hgoal : ∀ m ∈ o.goal.fields, Fits 0 m.2 := by
    cases o.goal <;> simp [Goal.fields, fits_text, fits_uint32, fits_optionalText]
  refine fits_record ?_
  simp only [List.cons_append, List.nil_append, List.forall_mem_cons]
  exact ⟨fits_text 0 _, fits_text 0 _, fits_optionalUInt32 0 _, fits_text 0 _, hgoal⟩

theorem Choice.fits (c : Choice) : Fits 3 c.toDatum := by
  refine fits_record ?_
  simp only [List.forall_mem_cons]
  exact ⟨fits_text 2 _, fits_text 2 _, c.requirements.fits, fits_optionalText 2 _,
    fits_ofListWith fun a _ => a.fits, nofun⟩

theorem Dialogue.fits (d : Dialogue) : Fits 5 d.toDatum := by
  refine fits_record ?_
  simp only [List.forall_mem_cons]
  exact ⟨fits_optionalText 4 _, fits_text 4 _, fits_ofListWith fun c _ => c.fits, nofun⟩

theorem Step.fits (s : Step) : Fits 7 s.toDatum := by
  refine fits_record ?_
  simp only [List.forall_mem_cons]
  exact ⟨fits_text 6 _, fits_text 6 _, fits_text 6 _,
    fits_ofListWith fun o _ => o.fits.mono (by decide), fits_ofDict fun e _ => e.2.fits,
    fits_ofListWith fun a _ => a.fits.mono (by decide),
    fits_ofListWith fun a _ => a.fits.mono (by decide), fits_bool 6 _, nofun⟩

/-- No quest is nested deeper than the actions of an option of a dialogue of a step. -/
theorem Quest.fits (q : Quest) : Fits 9 q.toDatum := by
  refine fits_record ?_
  simp only [List.forall_mem_cons]
  exact ⟨fits_text 8 _, fits_text 8 _, fits_text 8 _, fits_text 8 _, fits_bool 8 _,
    fits_ofOption (fits_int64 8), q.prerequisites.fits.mono (by decide),
    fits_ofListWith fun s _ => s.fits, fits_ofOption fun r => r.fits.mono (by decide),
    fits_ofOption fun c => c.fits.mono (by decide), nofun⟩

/-- **Quests survive being written.** Every quest is read back unchanged from the tree it is
written to, from the value of that tree, whose members stand by increasing name, and from its text.
So writing what was read from any document and reading it again changes nothing, and the quest that
is read back has the same defect or none, the same steps in the same order, and in each the same
required counts and branches. -/
theorem reread_unchanged (q : Quest) :
    Quest.read? .json q.toDatum = some q
      ∧ Quest.read? .json (Value.ofDatum q.toDatum).tree = some q
      ∧ (Json.read? (Json.write q.toDatum)).bind (Quest.read? .json) = some q
      ∧ (∀ d, ((Quest.read? .json d).bind fun r => (Quest.read? .json r.toDatum).map Quest.toDatum)
        = (Quest.read? .json d).map Quest.toDatum)
      ∧ (Quest.read? .json q.toDatum).map Quest.defect? = some q.defect?
      ∧ (Quest.read? .json q.toDatum).map (fun r => r.steps.map fun s =>
          (s.id, s.objectives.map Objective.requiredCount, s.branchTargets))
        = some (q.steps.map fun s =>
          (s.id, s.objectives.map Objective.requiredCount, s.branchTargets)) := by
  have hread : ∀ r : Quest, Quest.read? .json r.toDatum = some r :=
    Quest.read?_arranged arrangement_id .json
  refine ⟨hread q, Quest.read?_arranged arrangement_canonical .json q, ?_, fun d => ?_, ?_, ?_⟩
  · rw [read?_write (q.fits.mono (by decide)), Option.bind_some, hread]
  · cases Quest.read? .json d with
    | none => rfl
    | some r => rw [Option.bind_some, hread]
  · rw [hread, Option.map_some]
  · rw [hread, Option.map_some]

end Questline
