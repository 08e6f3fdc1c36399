import Questline.Proofs.Durability
import Questline.Proofs.Offers
import Questline.Proofs.Portions
import Questline.Proofs.Transparency

/-!
# Frame properties of operations

Three frame properties hold in every state that a run reaches. An operation about one player changes
the place of no other (`Engine.run_frame`), and every record stands under the lower-cased name that
it bears. An operation about one quest (`Operation.subject?`) leaves the quest log besides that
quest as it is and in its order (`Operation.besides_plan`). And the effect of an event, a poll or a
talk on one quest is its portion (`Questline.Proofs.Portions`), which is the same in two journals
that agree on the quest (`Rules.portion_independent`).

In `Rules.choose` the talk may be followed by a branch of one quest. That changes the activation of
that quest alone, after the updates and the news of the talk (`Operation.shown`).
-/

namespace Questline

/-- The quest log without the entries of one quest. -/
def QuestLog.besides (l : QuestLog) (quest : String) : QuestLog where
  active := l.active.filter (·.quest ≠ quest)
  completed := l.completed.filter (·.quest ≠ quest)
  failed := l.failed.filter (·.quest ≠ quest)

/-- The quest that an operation that changes one quest is about. -/
def Operation.subject? : Operation → Option String
  | start _ quest _ _ | abandon _ quest | complete _ quest | fail _ quest _
  | advanceTo _ quest _ | setVariable _ quest _ _ => some quest
  | _ => none

/-- The updates that an answer tells. -/
def Answer.updates? : Answer → Option (List Update)
  | updates us => some us
  | chosen choosing => choosing.map (·.updates)
  | _ => none

/-! ## One quest apart from the others -/

namespace Journal

theorem filter_replaceFirst (a : Activation) (l : List Activation) :
    (replaceFirst a l).filter (·.quest ≠ a.quest) = l.filter (·.quest ≠ a.quest) := by
  induction l with
  | nil => rfl
  | cons b rest ih =>
      by_cases hb : b.quest = a.quest
      · simp [replaceFirst, hb]
      · simp only [replaceFirst, hb, if_false, List.filter_cons, ih]

theorem filter_eraseP (quest : String) (l : List Activation) :
    (l.eraseP (·.quest = quest)).filter (·.quest ≠ quest) = l.filter (·.quest ≠ quest) := by
  induction l with
  | nil => rfl
  | cons b rest ih =>
      by_cases hb : b.quest = quest
      · simp [hb]
      · simp only [List.eraseP_cons, hb, decide_false, cond_false, List.filter_cons, ih]

theorem filter_countCompletion (quest : String) (now : Instant) (l : List Completion) :
    (countCompletion quest now l).filter (·.quest ≠ quest) = l.filter (·.quest ≠ quest) := by
  induction l with
  | nil => simp [countCompletion]
  | cons d rest ih =>
      by_cases hd : d.quest = quest
      · simp [countCompletion, hd]
      · simp only [countCompletion, hd, if_false, List.filter_cons, ih]

variable {j : Journal} {quest : String}

theorem besides_activate {a : Activation} (h : a.quest = quest) :
    (j.activate a).log.besides quest = j.log.besides quest := by
  simp [log, QuestLog.besides, activate, h]

theorem besides_update {a : Activation} (h : a.quest = quest) :
    (j.update a).log.besides quest = j.log.besides quest := by
  subst h
  simp only [log, QuestLog.besides, update, filter_replaceFirst]

theorem besides_deactivate : (j.deactivate quest).log.besides quest = j.log.besides quest := by
  simp only [log, QuestLog.besides, deactivate, filter_eraseP]

theorem besides_finish (now : Instant) :
    (Rules.finish quest now j).log.besides quest = j.log.besides quest := by
  simp only [log, QuestLog.besides, Rules.finish, recordCompletion, deactivate, filter_eraseP,
    filter_countCompletion]

theorem besides_recordFailure (reason : Option String) (now : Instant) :
    (j.recordFailure quest reason now).log.besides quest = j.log.besides quest := by
  simp [log, QuestLog.besides, recordFailure]

end Journal

/-- An operation about one quest leaves the others as they are. -/
theorem Operation.besides_plan {c : Catalog} {now : Instant} {op : Operation} {username : String}
    {rule : Journal → Ruling Answer} (h : op.plan c now = .consult username rule) {quest : String}
    (hsubject : op.subject? = some quest) (j : Journal) :
    ((rule j).journal j).log.besides quest = j.log.besides quest := by
  cases consults_of_plan h with
  | @start p id force step q hq =>
      cases hsubject
      rw [Ruling.journal_map]
      rcases Rules.start_cases q p force step now j with ⟨refusal, hr⟩ | ⟨s, -, -, -, hr⟩
      · rw [hr]
        rfl
      · rw [hr]
        exact Journal.besides_activate (Catalog.id_of_get? hq)
  | abandon _ id =>
      cases hsubject
      rw [Ruling.journal_map, Rules.abandon]
      split
      · exact Journal.besides_deactivate
      · rfl
  | complete _ id =>
      cases hsubject
      rw [Ruling.journal_map, Rules.complete]
      split
      · exact Journal.besides_finish now
      · rfl
  | fail _ id reason =>
      cases hsubject
      rw [Ruling.journal_map, Rules.fail]
      split
      · exact (Journal.besides_recordFailure reason now).trans Journal.besides_deactivate
      · rfl
  | @advanceTo _ id step q target hq htarget =>
      cases hsubject
      rw [Ruling.journal_map, Rules.advanceTo]
      split
      · rfl
      · rename_i a ha
        have hquest : a.quest = quest :=
          (Journal.quest_of_activation? ha).trans (Catalog.id_of_get? hq)
        exact Journal.besides_update (a := (Rules.branch q _ a.step username now a).1)
          ((quest_branch ..).trans hquest)
  | setVariable _ id key value =>
      cases hsubject
      rw [Ruling.journal_map, Rules.setVariable]
      split
      · rename_i a ha
        have hquest : a.quest = quest := Journal.quest_of_activation? ha
        exact Journal.besides_update (a := a.setVariable key value) hquest
      · rfl
  | _ => cases hsubject

/-! ## One quest in two runs -/

namespace Rules

variable {c : Catalog} {username : String} {amount? : Objective → Option Amount} {now : Instant}
  {j : Journal}

/-- The portion of a quest is the same in journals and catalogs that agree on the quest. -/
theorem portion_independent {c' : Catalog} {j' : Journal} {x : String} (h : j.log.Single x)
    (h' : j'.log.Single x) (hquest : c'.get? x = c.get? x)
    (hactivation : j'.activation? x = j.activation? x)
    (hcompletion : j'.completion? x = j.completion? x) :
    (progress c' username amount? now j').portion x
      = (progress c username amount? now j).portion x := by
  rw [portion_progress _ _ _ _ h', portion_progress _ _ _ _ h, hactivation, hcompletion,
    Portion.offered_congr hquest]

/-- The portion of a quest is idle if the quest is not active, not in the catalog, or on a step that
is not in its definition. -/
theorem portion_unknown {x : String} (h : j.log.Single x)
    (hunknown : ∀ q a, c.get? x = some q → j.activation? x = some a → q.step? a.step = none) :
    (progress c username amount? now j).portion x
      = .idle (j.activation? x) (j.completion? x) := by
  rw [portion_progress _ _ _ _ h]
  refine Portion.offered_of_none (Option.map_eq_none_iff.mpr (Option.eq_none_iff_forall_ne_some.mpr
    fun ⟨q, a, s⟩ hposition => ?_))
  obtain ⟨hq, ha, hs⟩ := Thread.position?_eq_some.mp hposition
  rw [hunknown q a hq ha] at hs
  cases hs

/-- The quest log and the news of an operation are those of a transition, but for the quests with a
target, which may be branched after it. -/
structure Transition.Shown (t : Transition) (target? : String → Option Step) (l : QuestLog)
    (news : List Notification) : Prop where
  quests : l.active.map (·.quest) = t.journal.active.map (·.quest)
  current : ∀ x, target? x = none → (l.thread x).current = t.journal.activation? x
  completed : l.completed = t.journal.completed
  failed : l.failed = t.journal.failed
  news : ∃ left, news = t.news ++ left ∧ ∀ n ∈ left, (target? n.quest).isSome = true

theorem shown_ruling {α : Type} (target? : String → Option Step) (answer : α) :
    let t := progress c username amount? now j
    t.Shown target? ((t.ruling answer).journal j).log (t.ruling answer).news := by
  intro t
  rw [Transition.journal_ruling, news_ruling_progress]
  exact ⟨rfl, fun _ _ => rfl, rfl, rfl, [], (List.append_nil _).symm,
    fun _ hn => absurd hn List.not_mem_nil⟩

/-- `Shown` for a transition without a branch after it. -/
theorem shown_progress (target? : String → Option Step) :
    let t := progress c username amount? now j
    let r := (t.ruling t.updates).map Answer.updates
    t.Shown target? (r.journal j).log r.news
      ∧ ∃ a, r.answer = .ok a ∧ a.updates? = some t.updates := by
  intro t r
  refine ⟨?_, .updates t.updates, ?_, rfl⟩
  · rw [Ruling.journal_map, Ruling.news_map]
    exact shown_ruling target? t.updates
  · rw [Ruling.answer_map]
    exact congrArg (Except.map Answer.updates) (Transition.answer_ruling t t.updates)

theorem shown_branch {target? : String → Option Step} (t : Transition) {b : Activation}
    {left : Notification} (hb : (target? b.quest).isSome = true) (hleft : left.quest = b.quest) :
    t.Shown target? (t.journal.update b).log (t.news ++ [left]) where
  quests := Journal.map_quest_replaceFirst b t.journal.active
  current x hx := by
    have hne : ¬ b.quest = x := by
      rintro rfl
      rw [hx] at hb
      cases hb
    refine (Journal.find?_replaceFirst b x t.journal.active).trans (if_neg fun h => hne h.1)
  completed := rfl
  failed := rfl
  news := by
    refine ⟨[left], rfl, List.forall_mem_singleton.mpr ?_⟩
    rw [hleft]
    exact hb

end Rules

/-- Every operation with a stimulus shows the transition of `Rules.progress`. -/
theorem Operation.shown {c : Catalog} {now : Instant} {op : Operation} {username : String}
    {rule : Journal → Ruling Answer} (h : op.plan c now = .consult username rule) {j : Journal}
    {met : Stimulus} (hmet : op.stimulus? c j = some met) :
    let t := Rules.progress c username met.amount? now j
    t.Shown (fun x => op.target? c j x) ((rule j).journal j).log (rule j).news
      ∧ ∃ a, (rule j).answer = .ok a ∧ a.updates? = some t.updates := by
  cases op with
  | report u event payload =>
      cases hmet
      cases h
      exact Rules.shown_progress _
  | poll p =>
      cases hmet
      cases h
      exact Rules.shown_progress _
  | choose p npc quest option =>
      obtain ⟨⟨q, origin, picked⟩, hchoice, rfl⟩ := Option.map_eq_some_iff.mp hmet
      cases h
      rw [Ruling.journal_map, Ruling.news_map, Ruling.answer_map]
      intro t
      obtain ⟨r, -, hupdates, hanswer⟩ := Rules.answer_choose now hchoice
      refine ⟨?_, .chosen (some r), ?_, congrArg some hupdates⟩
      · rcases choose_cases now hchoice with ⟨-, answer, hr⟩
          | ⟨target, b, answer, htarget, hb, -, hr⟩
        · rw [hr]
          exact Rules.shown_ruling _ answer
        · rw [hr]
          obtain ⟨hq, -⟩ := choice?_eq_some hchoice
          have hquest : (Rules.branch q target origin p.username now b).1.quest = quest :=
            (quest_branch ..).trans (Journal.quest_of_activation? hb)
          refine Rules.shown_branch t ?_ ?_
          · rw [hquest]
            simp [target?, hchoice, htarget]
          · exact (Catalog.id_of_get? hq).trans hquest.symm
      · rw [hanswer]
        rfl
  | _ => cases hmet

/-! ## One player apart from the others -/

variable {ρ : Type} [Repository ρ] [TableRepository ρ]

namespace Engine

/-- An operation leaves the places of all players but the one it is about as they are. -/
theorem run_frame {e : Engine ρ} (hs : e.store.Sound) (c : Circumstances) {op : Operation}
    {key : String} (hkey : playerKey op.username ≠ key) :
    (e.run c op).engine.store.place key = e.store.place key := by
  cases hplan : op.plan e.catalog c.now with
  | settled answer => simp only [run, hplan]
  | evict username =>
      obtain ⟨u, rfl⟩ := Operation.isEvict_of_plan hplan
      exact Store.place_evict hs c hkey
  | consult username rule =>
      have hname := Operation.username_of_plan hplan
      rw [← hname] at hkey
      rcases e.store.fetch_cases c username with ⟨fault, -, -, hfetch⟩ | ⟨s, accesses, hfetch, -⟩
      · simp only [run, hplan, consult, hfetch, Store.place_setSlot, if_neg hkey]
      · have hfound : (e.store.fetch c username).result = .ok (e.store.opened c username) := by
          rw [hfetch]
        exact (consulted_of_found hs hplan hfound).frame key hkey

/-- An operation about one quest leaves the quest log of its player besides that quest. -/
theorem run_besides {e : Engine ρ} (hs : e.store.Sound) (c : Circumstances) {op : Operation}
    {quest : String} (hsubject : op.subject? = some quest) :
    ((e.run c op).engine.store.place (playerKey op.username)).log.besides quest
      = (e.store.place (playerKey op.username)).log.besides quest := by
  rcases run_cases hs c op with ⟨hquiet, -⟩ | ⟨username, rule, hplan, -, hdone⟩
  · rw [hquiet.log]
  · rw [← Operation.username_of_plan hplan, hdone.log, Operation.besides_plan hplan hsubject,
      Store.log_opened]

theorem take_distinct {e : Engine ρ} (hs : e.store.Sound)
    (hd : ∀ key, (e.store.place key).log.Distinct) (t : Turn) (key : String) :
    ((e.take t).engine.store.place key).log.Distinct := by
  rcases take_cases hs t key with ⟨hlog, -⟩
    | ⟨c, op, username, rule, j, -, hplan, -, -, hj, hlog, -⟩
  · rw [hlog]
    exact hd key
  · rw [hlog]
    exact (Operation.faithful hplan j).distinct (hj ▸ hd key)

theorem after_distinct {e : Engine ρ} (hs : e.store.Sound)
    (hd : ∀ key, (e.store.place key).log.Distinct) (turns : List Turn) (key : String) :
    ((e.after turns).store.place key).log.Distinct := by
  induction turns generalizing e with
  | nil => exact hd key
  | cons t turns ih => exact ih (take_sound hs t) (take_distinct hs hd t)

theorem distinct_new (catalog : Catalog) {repository : ρ}
    (h : ∀ key r, (TableRepository.records repository).get? key = some r → r.log.Distinct)
    (limit : Nat) (key : String) :
    ((new catalog repository limit).store.place key).log.Distinct := by
  have hlog : ((new catalog repository limit).store.place key).log
      = (((TableRepository.records repository).get? key).map Journal.log).getD .blank := rfl
  rw [hlog]
  cases hr : (TableRepository.records repository).get? key with
  | none => exact QuestLog.distinct_blank
  | some r => exact h key r hr

end Engine

/-- **Quests and players are independent.** Take any state that a run reaches over a repository in
which every record stands under its own lower-cased name and has no quest active twice. An operation
about one player leaves what is in use and what is stored of all others as it is, and the records
still stand under their names. An operation about one quest leaves the player's other quests, in
progress, completed or failed, as they are and in order. Where an operation offers amounts, what
becomes of each quest is the same in any journal and under any catalog that have the same of this
quest; the quests that stay active, the updates and the news are those of the quests one after
another, in their order; a quest that cannot be found stays as it is; and this is what is then kept,
published and answered, before an option's branch is taken. -/
theorem kept_apart (catalog : Catalog) (repository : ρ)
    (hkeyed : Keyed (TableRepository.records repository))
    (hdistinct : ∀ key r, (TableRepository.records repository).get? key = some r →
      r.log.Distinct)
    (limit : Nat) (turns : List Turn) :
    let e := (Engine.new catalog repository limit).after turns
    (∀ c op key, playerKey op.username ≠ key →
      (e.run c op).engine.store.place key = e.store.place key)
    ∧ (∀ key r, (e.store.place key).record = some r → playerKey r.username = key)
    ∧ (∀ c op quest, op.subject? = some quest →
      ((e.run c op).engine.store.place (playerKey op.username)).log.besides quest
        = (e.store.place (playerKey op.username)).log.besides quest)
    ∧ ∀ c op j met, (e.store.fetch c op.username).result = .ok j →
      op.stimulus? e.catalog j = some met →
      let t := Rules.progress e.catalog op.username met.amount? c.now j
      (∀ x catalog' j', catalog'.get? x = e.catalog.get? x → j'.log.Single x →
        j'.activation? x = j.activation? x → j'.completion? x = j.completion? x →
        (Rules.progress catalog' op.username met.amount? c.now j').portion x = t.portion x)
      ∧ t.journal.active = j.active.filterMap (fun a => (t.portion a.quest).activation)
      ∧ t.updates = j.active.flatMap (fun a => (t.portion a.quest).updates)
      ∧ t.news = j.active.flatMap (fun a => (t.portion a.quest).news)
      ∧ (∀ x, (∀ q a, e.catalog.get? x = some q → j.activation? x = some a →
          q.step? a.step = none) →
        t.portion x = .idle (j.activation? x) (j.completion? x))
      ∧ t.Shown (fun x => op.target? e.catalog j x)
        ((e.run c op).engine.store.place (playerKey op.username)).log (e.run c op).news
      ∧ ((e.run c op).saveFailed = false →
        ∃ a, (e.run c op).answer = .ok a ∧ a.updates? = some t.updates) := by
  intro e
  have hs : e.store.Sound := Engine.after_sound (Store.sound_new hkeyed limit) turns
  have hd : ∀ key, (e.store.place key).log.Distinct := Engine.after_distinct
    (Store.sound_new hkeyed limit) (Engine.distinct_new catalog hdistinct limit) turns
  refine ⟨fun c op key hkey => Engine.run_frame hs c hkey, fun key => (hs key).record_keyed,
    fun c op quest hsubject => Engine.run_besides hs c hsubject, ?_⟩
  intro c op j met hfound hmet t
  obtain rfl : j = e.store.opened c op.username := Engine.fetch_result_eq_opened hfound
  have hj : (e.store.opened c op.username).log.Distinct := by
    rw [Store.log_opened]
    exact hd _
  have hsingle := QuestLog.distinct_iff.mp hj
  obtain ⟨hupdates, hnews⟩ := Rules.outputs_progress e.catalog op.username met.amount? c.now hj
  obtain ⟨rule, hplan⟩ : ∃ rule, op.plan e.catalog c.now = .consult op.username rule := by
    cases op <;> first | exact ⟨_, rfl⟩ | cases hmet
  have hdone := Engine.consulted_of_found hs hplan hfound
  obtain ⟨hshown, a, hanswer, ha⟩ := Operation.shown hplan hmet
  refine ⟨fun x catalog' j' hquest hsingle' hactivation hcompletion => ?_,
    Rules.active_progress e.catalog op.username met.amount? c.now hj, hupdates, hnews,
    fun x hunknown => Rules.portion_unknown (hsingle x) hunknown, ?_, fun hsaved => ?_⟩
  · exact Rules.portion_independent (hsingle x) hsingle' hquest hactivation hcompletion
  · rw [hdone.log, hdone.news]
    exact hshown
  · rcases hdone.answer with ⟨-, hrun⟩ | ⟨hfailed, -⟩
    · refine ⟨a, ?_, ha⟩
      rw [hrun, hanswer]
      rfl
    · rw [hsaved] at hfailed
      cases hfailed

/-- The same hunt for mice, which rats pass for. -/
def mouseHunt : Quest := { ratHunt with id := "mice", name := "Mice" }

/-- One of two players on two hunts kills a rat. Nothing changes for the other player, and
the hunt for rats is the same as without the other hunt. -/
theorem kept_apart_ratHunt :
    let catalog := Catalog.ofQuests [ratHunt, mouseHunt]
    let c := Circumstances.calm .epoch
    let turns := [Turn.perform c (.start (.named "Ann" 1) "mice" false none),
      .perform c (.start (.named "Bob" 1) "rats" false none),
      .perform c (.start (.named "Ann" 1) "rats" false none)]
    let e := (Engine.new catalog MemoryRepository.empty 5000).after turns
    let leave := Operation.abandon "ann" "mice"
    let event := GameEvent.npcDeath "rat"
    let kill := Operation.ingest "ann" event
    let met := Stimulus.event event.name event.payload
    let j := e.store.opened c kill.username
    let alone := { j with active := j.active.filter (·.quest = "rats") }
    let t := Rules.progress e.catalog kill.username met.amount? c.now j
    Keyed (TableRepository.records MemoryRepository.empty)
      ∧ (∀ key r, (TableRepository.records MemoryRepository.empty).get? key = some r →
        r.log.Distinct)
      ∧ playerKey kill.username ≠ "bob"
      ∧ (e.run c kill).engine.store.place "bob" = e.store.place "bob"
      ∧ ((e.run c leave).engine.store.place (playerKey leave.username)).log.besides "mice"
        = (e.store.place (playerKey leave.username)).log.besides "mice"
      ∧ (e.store.fetch c kill.username).result = .ok j
      ∧ j.active.map (·.quest) = ["mice", "rats"]
      ∧ (Catalog.ofQuests [ratHunt]).get? "rats" = e.catalog.get? "rats"
      ∧ alone.log.Single "rats" ∧ alone.activation? "rats" = j.activation? "rats"
      ∧ alone.completion? "rats" = j.completion? "rats"
      ∧ (Rules.progress (Catalog.ofQuests [ratHunt]) kill.username met.amount? c.now alone).portion
        "rats" = t.portion "rats"
      ∧ ∃ a, (e.run c kill).answer = .ok a ∧ a.updates? = some t.updates := by
  intro catalog c turns e leave event kill met j alone t
  have hkeyed : Keyed (TableRepository.records MemoryRepository.empty) := keyed_empty
  have hdistinct : ∀ key r, (TableRepository.records MemoryRepository.empty).get? key = some r →
      r.log.Distinct := fun _ _ h => by cases h
  have hother : playerKey kill.username ≠ "bob" := by decide +kernel
  have hfound : (e.store.fetch c kill.username).result = .ok j := by decide +kernel
  have hactive : j.active.map (·.quest) = ["mice", "rats"] := by decide +kernel
  have hquest : (Catalog.ofQuests [ratHunt]).get? "rats" = e.catalog.get? "rats" := by
    decide +kernel
  have hsingle : alone.log.Single "rats" := by
    unfold QuestLog.Single
    decide +kernel
  have hcurrent : alone.activation? "rats" = j.activation? "rats" := by decide +kernel
  have hdone : alone.completion? "rats" = j.completion? "rats" := by decide +kernel
  have hsaved : (e.run c kill).saveFailed = false := by decide +kernel
  obtain ⟨hplayers, -, hquests, hmet⟩ :=
    kept_apart catalog MemoryRepository.empty hkeyed hdistinct 5000 turns
  have hleave := hquests c leave "mice" rfl
  obtain ⟨hown, -, -, -, -, -, hanswer⟩ := hmet c kill j met hfound rfl
  -- unfolding more than names would carry out the run
  with_reducible exact ⟨hkeyed, hdistinct, hother, hplayers c kill "bob" hother, hleave, hfound,
    hactive, hquest, hsingle, hcurrent, hdone,
    hown "rats" _ alone hquest hsingle hcurrent hdone, hanswer hsaved⟩

end Questline
