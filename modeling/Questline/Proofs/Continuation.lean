import Questline.Host.Launch
import Questline.Proofs.Documents
import Questline.Proofs.Steadiness

/-!
# Restarts over the same database

A host that is stopped between two lines and launched again over the same database answers the
lines that follow as it would have without the break (`restart_unseen`). All that is lost are the
journals in use, and as long as nothing fails these are the stored ones
(`Engine.FaultlessInvariant`), except for players who are not stored yet: of these the surviving
host keeps a journal with the blank quest log, under the name and with the stamp of the first
access. So only such a player can be shown the difference, in the spelling of the name and the stamp
of the journal; the spelling stays different when the player is stored later (`spelling_kept`).

The proof is a simulation between the two engines, `Engine.Continues`.
-/

namespace Questline

/-! ## Catalogs that are loaded -/

theorem Catalog.valid_load {data : Option FileTree} {c : Catalog}
    (h : Catalog.load? data = some c) :
    c.Valid := by
  have hfile : ∀ {content : ByteArray} {q : Quest}, Quest.ofFile? content = some q → q.Valid := by
    intro content q hq
    obtain ⟨-, hdefect⟩ := Option.filter_eq_some_iff.mp hq
    exact Quest.defect?_eq_none_iff.mp (Option.isNone_iff_eq_none.mp hdefect)
  unfold load? at h
  split at h
  · cases h
    exact Catalog.valid_ofQuests (fun _ hq => absurd hq List.not_mem_nil)
  · cases h
  · cases h
    refine Catalog.valid_ofQuests fun q hq => ?_
    obtain ⟨f, -, hf⟩ := List.mem_filterMap.mp hq
    exact hfile hf

/-- The cases in which `Host.launch` succeeds. -/
theorem Host.launch_eq_some {config : Config} {data : Option FileTree}
    {database : Option DocumentRepository} {e : Engine DocumentRepository} :
    launch config data database = some e
      ↔ ∃ catalog repository, Catalog.load? data = some catalog ∧ database = some repository
        ∧ (config.hotReload && data.isNone) = false
        ∧ e = Engine.new catalog repository config.timeout.toNat := by
  unfold launch
  cases hload : Catalog.load? data with
  | none => simp
  | some catalog =>
    cases database with
    | none => simp
    | some repository =>
      cases hwatch : config.hotReload && data.isNone with
      | true => simp
      | false => simp [eq_comm]

/-! ## Two engines -/

/-- The same reply, up to the stamp of a journal and the case of the letters in the name, unless
the player is among those that are `known`. -/
def Host.Reply.Agrees (known : String → Prop) : Reply → Reply → Prop
  | .progress j, .progress i =>
    j.log = i.log ∧ playerKey j.username = playerKey i.username
      ∧ (known (playerKey j.username) → j = i)
  | r, r' => r = r'

theorem Host.Reply.agrees_refl (known : String → Prop) (r : Reply) : r.Agrees known r := by
  cases r with
  | progress j => exact ⟨rfl, rfl, fun _ => rfl⟩
  | _ => rfl

/-- Of a known player, agreeing replies show the same journal. -/
theorem Host.Reply.Agrees.eq_of_known {known : String → Prop} {j : Journal} {r : Reply}
    (h : Reply.Agrees known (.progress j) r) (hknown : known (playerKey j.username)) :
    r = .progress j := by
  cases r with
  | progress i => rw [h.2.2 hknown]
  | _ => exact Eq.symm h

variable {ρ : Type} [Repository ρ] [TableRepository ρ]

namespace Engine

/-- The simulation relation between the surviving engine and the one that starts anew: the next
access finds the same quest log, and of the players that are `known` the same journal. -/
structure Continues (known : String → Prop) (e e' : Engine ρ) : Prop where
  catalog : e'.catalog = e.catalog
  sound : e.store.Sound
  sound' : e'.store.Sound
  log : ∀ key, (e.store.place key).log = (e'.store.place key).log
  kept : ∀ key, known key → ∃ j, (e.store.place key).kept? = some j
    ∧ (e'.store.place key).kept? = some j

namespace Continues

variable {known : String → Prop} {e e' : Engine ρ}

theorem opened (h : e.Continues known e') {username : String} (hknown : known (playerKey username))
    (c : Circumstances) : e.store.opened c username = e'.store.opened c username := by
  obtain ⟨j, hj, hj'⟩ := h.kept _ hknown
  rw [Store.opened, Store.opened, hj, hj']

/-- A rule gives agreeing replies and the same news on both engines. -/
theorem reply (h : e.Continues known e') (c : Circumstances) {op : Operation} {username : String}
    {rule : Journal → Ruling Answer} (hplan : op.plan e.catalog c.now = .consult username rule) :
    Host.Reply.Agrees known
        (.ofOutcome ((rule (e.store.opened c username)).answer.mapError .refused))
        (.ofOutcome ((rule (e'.store.opened c username)).answer.mapError .refused))
      ∧ (rule (e'.store.opened c username)).news = (rule (e.store.opened c username)).news := by
  by_cases hknown : known (playerKey username)
  · rw [h.opened hknown c]
    exact ⟨Host.Reply.agrees_refl known _, rfl⟩
  · have hlog : (e.store.opened c username).log = (e'.store.opened c username).log := by
      rw [Store.log_opened, Store.log_opened, h.log]
    have hkey := h.sound.opened_keyed c username
    have hkey' := h.sound'.opened_keyed c username
    obtain ⟨hruling, -⟩ := Operation.plan_of_log_eq hplan hlog
    refine ⟨?_, by rw [hruling, Ruling.news_map, Ruling.news_relabel]⟩
    rw [hruling, Ruling.answer_map, Ruling.answer_relabel]
    cases ha : (rule (e.store.opened c username)).answer with
    | error refusal => exact Host.Reply.agrees_refl known _
    | ok a =>
      cases a with
      | progress shown =>
        -- a shown journal bears the name of the journal that was found
        have hshown := username_of_progress hplan ha
        refine ⟨rfl, ?_, fun hshownKnown => absurd hshownKnown ?_⟩
        · rw [Journal.username_relabel, hshown, hkey, hkey']
        · rw [hshown, hkey]
          exact hknown
      | _ => exact Host.Reply.agrees_refl known _

theorem consult (h : e.Continues known e') {c : Circumstances} {op : Operation}
    {username : String} {rule : Journal → Ruling Answer}
    (hplan : op.plan e.catalog c.now = .consult username rule) {o o' : Outcome ρ}
    (ho : e.Ruled c username (rule (e.store.opened c username)) o)
    (ho' : e'.Ruled c username (rule (e'.store.opened c username)) o')
    (hsound : o.engine.store.Sound) (hsound' : o'.engine.store.Sound) :
    o.engine.Continues known o'.engine where
  catalog := ho'.catalog.trans (h.catalog.trans ho.catalog.symm)
  sound := hsound
  sound' := hsound'
  log key := by
    by_cases hkey : playerKey username = key
    · subst hkey
      have hlog : (e.store.opened c username).log = (e'.store.opened c username).log := by
        rw [Store.log_opened, Store.log_opened, h.log]
      obtain ⟨-, hjournal⟩ := Operation.plan_of_log_eq hplan hlog
      rw [ho.log, ho'.log, hjournal, Journal.log_relabel]
    · rw [ho.frame key hkey, ho'.frame key hkey]
      exact h.log key
  kept key hknown := by
    by_cases hkey : playerKey username = key
    · subst hkey
      refine ⟨_, ho.kept?, ?_⟩
      rw [ho'.kept?, h.opened hknown c]
    · rw [ho.frame key hkey, ho'.frame key hkey]
      exact h.kept key hknown

/-- Step lemma: where nothing fails, every operation but an eviction gives agreeing replies and the
same news, and preserves the relation. -/
theorem run (h : e.Continues known e') {c : Circumstances} (hc : c.Faultless) {op : Operation}
    (hop : ∀ u, op ≠ .evict u) :
    Host.Reply.Agrees known (.ofOutcome (e.run c op).answer) (.ofOutcome (e'.run c op).answer)
      ∧ (e'.run c op).news = (e.run c op).news
      ∧ (e.run c op).engine.Continues known (e'.run c op).engine := by
  cases hplan : op.plan e.catalog c.now with
  | settled answer =>
    have hplan' : op.plan e'.catalog c.now = .settled answer := h.catalog ▸ hplan
    simp only [Engine.run, hplan, hplan']
    exact ⟨Host.Reply.agrees_refl known _, trivial, h⟩
  | evict username =>
    obtain ⟨u, hu⟩ := Operation.isEvict_of_plan hplan
    exact absurd hu (hop u)
  | consult username rule =>
    have hplan' : op.plan e'.catalog c.now = .consult username rule := h.catalog ▸ hplan
    have ho := run_faultless h.sound hc hplan
    have ho' := run_faultless h.sound' hc hplan'
    obtain ⟨hreply, hnews⟩ := h.reply c hplan
    rw [ho.answer, ho'.answer, ho.news, ho'.news]
    exact ⟨hreply, hnews, h.consult hplan ho ho' (take_sound h.sound (.perform c op))
      (take_sound h.sound' (.perform c op))⟩

end Continues

/-- The relation holds at the restart, if the journals in use are the stored ones. -/
theorem FaultlessInvariant.continues {catalog : Catalog} {e : Engine ρ}
    (h : e.FaultlessInvariant catalog) (limit : Nat) :
    e.Continues (fun key => (e.store.records.get? key).isSome)
      (new catalog e.store.repository limit) where
  catalog := h.settled.catalog.symm
  sound := h.settled.sound
  sound' := Store.sound_new (fun key r hr => (h.settled.sound key).record_keyed r hr) limit
  log key := by
    have hplace : (new catalog e.store.repository limit).store.place key
        = ⟨none, (e.store.place key).record⟩ := rfl
    rw [hplace]
    rcases h.synced key with hsame | ⟨hnone, hblank⟩
    · simp only [Place.log, hsame, Place.kept?_none]
    · rw [hblank, hnone]
      rfl
  kept key hknown := by
    obtain ⟨j, hj⟩ := Option.isSome_iff_exists.mp hknown
    refine ⟨j, ?_, hj⟩
    rcases h.synced key with hsame | ⟨hnone, -⟩
    · exact hsame.trans hj
    · exact absurd (hj.symm.trans hnone) (Option.some_ne_none j)

end Engine

/-! ## Two hosts -/

namespace Host

/-- A line that is not an `evict` command. -/
def IsNotEvict (text : String) : Prop := ∀ u, Line.ofText text ≠ .command (.evict u)

theorem respond_continues {known : String → Prop} {e e' : Engine ρ} (h : e.Continues known e')
    {c : Circumstances} (hc : c.Faultless) {text : String} (htext : IsNotEvict text) :
    List.Forall₂ (Reply.Agrees known) (respond e c text).reply.toList
        (respond e' c text).reply.toList
      ∧ (respond e' c text).news = (respond e c text).news
      ∧ (respond e c text).engine.Continues known (respond e' c text).engine := by
  unfold respond
  cases hline : Line.ofText text with
  | blank => exact ⟨.nil, rfl, h⟩
  | invalid => exact ⟨.cons (Reply.agrees_refl known _) .nil, rfl, h⟩
  | command op =>
    obtain ⟨hreply, hnews, hlater⟩ := h.run hc fun u hu => htext u (hu ▸ hline)
    exact ⟨.cons hreply .nil, hnews, hlater⟩

theorem converse_continues {known : String → Prop} {e e' : Engine ρ} (h : e.Continues known e')
    {lines : List (Circumstances × String)} (hlines : ∀ l ∈ lines, l.1.Faultless ∧ IsNotEvict l.2) :
    List.Forall₂ (Reply.Agrees known) (converse e lines).replies (converse e' lines).replies
      ∧ (converse e' lines).news = (converse e lines).news := by
  induction lines generalizing e e' with
  | nil => exact ⟨.nil, rfl⟩
  | cons l lines ih =>
    obtain ⟨c, text⟩ := l
    obtain ⟨hc, htext⟩ := hlines _ List.mem_cons_self
    obtain ⟨hreply, hnews, hlater⟩ := respond_continues h hc htext
    obtain ⟨hreplies, hnews'⟩ := ih hlater fun l hl => hlines l (List.mem_cons_of_mem _ hl)
    simp only [converse]
    exact ⟨List.rel_append hreply hreplies, by rw [hnews, hnews']⟩

theorem converse_faultlessInvariant {catalog : Catalog} (hvalid : catalog.Valid) {e : Engine ρ}
    (h : e.FaultlessInvariant catalog) {lines : List (Circumstances × String)}
    (hlines : ∀ l ∈ lines, l.1.Faultless ∧ IsNotEvict l.2) :
    (converse e lines).engine.FaultlessInvariant catalog := by
  induction lines generalizing e with
  | nil => exact h
  | cons l lines ih =>
    obtain ⟨c, text⟩ := l
    obtain ⟨hc, htext⟩ := hlines _ List.mem_cons_self
    refine ih ?_ fun l hl => hlines l (List.mem_cons_of_mem _ hl)
    unfold respond
    cases hline : Line.ofText text with
    | blank => exact h
    | invalid => exact h
    | command op => exact h.run hvalid hc fun u hu => htext u (hu ▸ hline)

omit [TableRepository ρ] in
theorem converse_append (e : Engine ρ) (lines lines' : List (Circumstances × String)) :
    converse e (lines ++ lines')
      = ⟨(converse (converse e lines).engine lines').engine,
          (converse e lines).replies ++ (converse (converse e lines).engine lines').replies,
          (converse e lines).news ++ (converse (converse e lines).engine lines').news⟩ := by
  induction lines generalizing e with
  | nil => rfl
  | cons l lines ih =>
    obtain ⟨c, text⟩ := l
    simp only [List.cons_append, converse, ih, List.append_assoc]

omit [TableRepository ρ] in
/-- The reply to a line stands between those to the lines before and after it. -/
theorem replies_at (e : Engine ρ) (done : List (Circumstances × String)) (c : Circumstances)
    (text : String) (rest : List (Circumstances × String)) :
    let r := respond (converse e done).engine c text
    (converse e (done ++ (c, text) :: rest)).replies
      = (converse e done).replies ++ r.reply.toList ++ (converse r.engine rest).replies := by
  intro r
  rw [converse_append, List.append_assoc]
  rfl

omit [TableRepository ρ] in
theorem isSome_reply (e : Engine ρ) (c : Circumstances) (text : String) :
    (respond e c text).reply.isSome = !text.toList.all Text.isBlank := by
  unfold respond Line.ofText
  cases text.toList.all Text.isBlank with
  | true => rfl
  | false =>
    cases (Json.read? text).bind command? <;> rfl

omit [TableRepository ρ] in
/-- A line that holds no command changes and publishes nothing. -/
theorem respond_invalid {text : String} (h : Line.ofText text = .invalid) (e : Engine ρ)
    (c : Circumstances) : respond e c text = ⟨e, [], [], some .invalidCommand⟩ := by
  unfold respond
  rw [h]

/-- A launched host is an engine over a table of journals with the texts read back, and satisfies
the invariant of faultless runs. -/
theorem relaunched {catalog : Catalog} (hvalid : catalog.Valid) (limit : Nat)
    {before : List (Circumstances × String)}
    (hbefore : ∀ l ∈ before, l.1.Faultless ∧ IsNotEvict l.2 ∧ Sets Value.Writable l.2) :
    let e := Engine.new catalog DocumentRepository.empty limit
    let js := savings e before
    let stopped := (converse e before).engine
    let e' := Engine.new catalog stopped.store.repository limit
    stopped.store.Wrote Value.Writable js ∧ e'.store.Wrote Value.Writable js
      ∧ (stopped.inMemory js).Continues
        (fun key => stopped.store.repository.documents.contains key = true) (e'.inMemory js) := by
  intro e js stopped e'
  have hnew : e.store.Wrote Value.Writable [] :=
    .new (fun _ hj => absurd hj List.not_mem_nil) limit
  have hsets : ∀ l ∈ before, Sets Value.Writable l.2 := fun l hl => (hbefore l hl).2.2
  have hstopped : stopped.store.Wrote Value.Writable js :=
    converse_wrote (fun _ hv => hv.numeric) hnew hsets
  have hrepository : stopped.store.repository = .ofJournals js := hstopped.repository
  refine ⟨hstopped, ?_, ?_⟩
  · rw [show e'.store = Store.new stopped.store.repository limit from rfl, hrepository]
    exact .new hstopped.written limit
  · have hstart : (Engine.new catalog MemoryRepository.empty limit).FaultlessInvariant catalog :=
      Engine.faultlessInvariant_new catalog rfl limit
    have hinvariant := converse_faultlessInvariant hvalid hstart fun l hl =>
      ⟨(hbefore l hl).1, (hbefore l hl).2.1⟩
    rw [show Engine.new catalog MemoryRepository.empty limit = e.inMemory [] from rfl,
      converse_inMemory hnew hsets] at hinvariant
    have hcontinues := Engine.FaultlessInvariant.continues hinvariant limit
    have hknown : ∀ key, ((stopped.inMemory js).store.records.get? key).isSome = true
        ↔ stopped.store.repository.documents.contains key = true := by
      intro key
      rw [Dict.contains, hrepository, DocumentRepository.get?_ofJournals, Option.isSome_map]
      rfl
    simp only [← hknown]
    exact hcontinues

/-- **A restart is not noticed.** A host that is launched over an empty database, stopped between
two lines and launched again gives the replies that it would have given without the break and
publishes the same, as long as nothing fails and nobody is evicted. Only where a player was
not stored when it was stopped, a journal that is shown may differ in its stamp and in the case
of the letters of the name. Every line that is not blank has one reply, in order, and one that
holds no command changes nothing. -/
theorem restart_unseen {config : Config} {data : Option FileTree} {e : Engine DocumentRepository}
    (hlaunch : launch config data (some .empty) = some e)
    (before after : List (Circumstances × String))
    (hlines : ∀ l ∈ before ++ after, l.1.Faultless ∧ IsNotEvict l.2 ∧ Sets Value.Writable l.2) :
    let stopped := (converse e before).engine
    let whole := converse e (before ++ after)
    (∃ e', launch config data (some stopped.store.repository) = some e'
      ∧ (∃ replies, whole.replies = (converse e before).replies ++ replies
        ∧ List.Forall₂
          (Reply.Agrees fun key => stopped.store.repository.documents.contains key = true)
          replies (converse e' after).replies)
      ∧ whole.news = (converse e before).news ++ (converse e' after).news)
    ∧ ∀ done c text rest, before ++ after = done ++ (c, text) :: rest →
      let r := respond (converse e done).engine c text
      whole.replies
          = (converse e done).replies ++ r.reply.toList ++ (converse r.engine rest).replies
        ∧ (r.reply.isSome = true ↔ text.toList.all Text.isBlank = false)
        ∧ (Line.ofText text = .invalid → r.engine = (converse e done).engine ∧ r.news = []) := by
  intro stopped whole
  refine ⟨?_, fun done c text rest hsplit => ?_⟩
  · obtain ⟨catalog, repository, hload, hempty, hwatch, rfl⟩ := launch_eq_some.mp hlaunch
    cases hempty
    have hbefore := fun l hl => hlines l (List.mem_append_left after hl)
    have hafter := fun l hl => hlines l (List.mem_append_right before hl)
    have hsets : ∀ l ∈ after, Sets Value.Writable l.2 := fun l hl => (hafter l hl).2.2
    obtain ⟨hstopped, hrelaunched, hcontinues⟩ :=
      relaunched (Catalog.valid_load hload) config.timeout.toNat hbefore
    obtain ⟨hreplies, hnews⟩ := converse_continues hcontinues fun l hl =>
      ⟨(hafter l hl).1, (hafter l hl).2.1⟩
    rw [converse_inMemory hstopped hsets, converse_inMemory hrelaunched hsets] at hreplies hnews
    refine ⟨_, launch_eq_some.mpr ⟨catalog, _, hload, rfl, hwatch, rfl⟩,
      ⟨_, congrArg Transcript.replies (converse_append _ before after), hreplies⟩, ?_⟩
    rw [show whole = _ from converse_append _ before after]
    exact congrArg _ hnews.symm
  · refine ⟨?_, ?_, fun hinvalid => ?_⟩
    · rw [show whole = converse e (before ++ after) from rfl, hsplit]
      exact replies_at e done c text rest
    · rw [isSome_reply]
      cases text.toList.all Text.isBlank <;> simp
    · rw [respond_invalid hinvalid]
      exact ⟨rfl, rfl⟩

end Host

/-! ## A cellar -/

def cellarText : String :=
  "[quest]\nid = \"rats\"\nname = \"Rats\"\n[[quest.steps]]\nid = \"cull\"\nname = \"Cull\"\n"

def cellarData : FileTree := .folder [("rats.toml", .file cellarText.toUTF8)]

def cellarStep : Step where
  id := "cull"
  name := "Cull"
  description := ""
  objectives := []
  dialogues := ∅
  onStart := []
  onComplete := []
  requireAll := true

/-- The quest of the cellar. -/
def cellar : Quest where
  id := "rats"
  name := "Rats"
  description := ""
  category := .side
  repeatable := false
  cooldown := none
  prerequisites := .none
  steps := [cellarStep]
  rewards := none
  chain := none

theorem load_cellar : Catalog.load? (some cellarData) = some (.ofQuests [cellar]) := by
  have hread : Quest.ofText? cellarText = some cellar := by decide +kernel
  have hutf8 : String.fromUTF8? cellarText.toUTF8 = some cellarText :=
    dif_pos cellarText.isValidUTF8
  have hfile : Quest.ofFile? cellarText.toUTF8 = some cellar := by
    rw [Quest.ofFile?, hutf8, Option.bind_some, hread]
    rfl
  have hname : isQuestFileName "rats.toml" = true := by decide +kernel
  have hfiles : questFilesAmong [] [("rats.toml", .file cellarText.toUTF8)]
      = [(["rats.toml"], cellarText.toUTF8)] := by
    simp [questFilesAmong, FileTree.questFiles, hname]
  simp only [Catalog.load?, cellarData, hfiles, Catalog.ofQuestFiles, List.mergeSort_singleton,
    List.filterMap_cons, List.filterMap_nil, hfile]

/-- The host that is launched over the cellar. -/
def cellarHost : Engine DocumentRepository := .new (.ofQuests [cellar]) .empty 5000

theorem launch_cellar : Host.launch .standard (some cellarData) (some .empty) = some cellarHost :=
  Host.launch_eq_some.mpr ⟨_, _, load_cellar, rfl, rfl, rfl⟩

def startLine (username : String) : Circumstances × String :=
  (.calm .epoch, Json.write (.record [("type", .text "startQuest"),
    ("player", .record [("username", .text username)]), ("quest_id", .text "rats")]))

def progressLine (username : String) : Circumstances × String :=
  (.calm .epoch, Json.write (.record [("type", .text "progress"), ("username", .text username)]))

theorem ofText_startLine (username : String) :
    Host.Line.ofText (startLine username).2
      = .command (.start (.named username 0) "rats" false none) :=
  Host.ofText_write (List.cons_ne_nil _ _)
    ⟨by rfl, by simp [Datum.depth, Datum.depthMembers, Json.nestingLimit]⟩ (by rfl)

theorem ofText_progressLine (username : String) :
    Host.Line.ofText (progressLine username).2 = .command (.progress username) :=
  Host.ofText_write (List.cons_ne_nil _ _)
    ⟨by rfl, by simp [Datum.depth, Datum.depthMembers, Json.nestingLimit]⟩ (by rfl)

/-- A player of the cellar. -/
def cellarJournal (username : String) : Journal where
  username := username
  active := [.start cellar cellarStep .epoch]
  completed := []
  failed := []
  lastUpdated := .epoch

/-- What the surviving host calls Alice is how she was first asked for, long before her quest
was stored; the host that starts anew calls her by the name under which she starts it. -/
theorem spelling_kept :
    let before := [progressLine "ALICE"]
    let after := [startLine "alice", progressLine "alice"]
    let stopped := (Host.converse cellarHost before).engine
    Host.launch .standard (some cellarData) (some stopped.store.repository) = some cellarHost
      ∧ (Host.converse stopped after).replies
        = [.questStarted "rats" "cull", .progress (cellarJournal "ALICE")]
      ∧ (Host.converse cellarHost after).replies
        = [.questStarted "rats" "cull", .progress (cellarJournal "alice")]
      ∧ (Host.converse cellarHost after).engine.store.repository.documents.contains "alice"
        = true := by
  intro before after stopped
  simp only [stopped, before, after, Host.converse, Host.respond, ofText_startLine,
    ofText_progressLine]
  exact ⟨launch_cellar, by rfl, by rfl, by rfl⟩

/-- Ann is shown the quest that she started before the break. -/
theorem restart_unseen_cellar :
    let before := [startLine "Ann"]
    let after := [progressLine "ANN"]
    let stopped := (Host.converse cellarHost before).engine
    (∀ l ∈ before ++ after, l.1.Faultless ∧ Host.IsNotEvict l.2 ∧ Host.Sets Value.Writable l.2)
      ∧ ∃ e', Host.launch .standard (some cellarData) (some stopped.store.repository) = some e'
        ∧ (Host.converse e' after).replies = [.progress (cellarJournal "Ann")] := by
  intro before after stopped
  have hlines : ∀ l ∈ before ++ after,
      l.1.Faultless ∧ Host.IsNotEvict l.2 ∧ Host.Sets Value.Writable l.2 := by
    intro l hl
    simp only [before, after, List.singleton_append, List.mem_cons, List.not_mem_nil, or_false]
      at hl
    rcases hl with rfl | rfl
    · refine ⟨Circumstances.faultless_calm _, fun u hu => ?_, fun op hop => ?_⟩
      · rw [ofText_startLine] at hu
        cases hu
      · rw [ofText_startLine] at hop
        cases hop
        exact nofun
    · refine ⟨Circumstances.faultless_calm _, fun u hu => ?_, fun op hop => ?_⟩
      · rw [ofText_progressLine] at hu
        cases hu
      · rw [ofText_progressLine] at hop
        cases hop
        exact nofun
  obtain ⟨⟨e', hlaunch, ⟨replies, hwhole, hagree⟩, -⟩, -⟩ :=
    Host.restart_unseen launch_cellar before after hlines
  have hbefore : (Host.converse cellarHost before).replies = [.questStarted "rats" "cull"] := by
    simp only [before, Host.converse, Host.respond, ofText_startLine]
    rfl
  have hall : (Host.converse cellarHost (before ++ after)).replies
      = [.questStarted "rats" "cull", .progress (cellarJournal "Ann")] := by
    simp only [before, after, List.singleton_append, Host.converse, Host.respond,
      ofText_startLine, ofText_progressLine]
    rfl
  have hknown : stopped.store.repository.documents.contains (playerKey "Ann") = true := by
    simp only [stopped, before, Host.converse, Host.respond, ofText_startLine]
    rfl
  rw [hall, hbefore] at hwhole
  cases hwhole
  refine ⟨hlines, e', hlaunch, ?_⟩
  generalize (Host.converse e' after).replies = replies' at hagree ⊢
  cases hagree with
  | cons hreply hrest =>
    cases hrest
    rw [hreply.eq_of_known hknown]

end Questline
