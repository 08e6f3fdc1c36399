import Questline.Proofs.Matching
import Questline.Proofs.Steadiness
import Questline.Proofs.Writing

/-!
# Level events and polls agree

A level goal is moved by the `PlayerLevelUp` event and by a poll of the player. Both offer it the
same observation (`Objective.amount?_of_level`). The event moves no other goal, and a poll of a
player who holds nothing and has no flags set observes nothing of the others, so that the event and
the poll have the same effect (`levels_agree`).

They do not offer the same amounts, though: of an item goal the poll observes zero, where the event
offers nothing. An observation of zero moves no counter that is recorded (`Rules.offer_alike`), and
in a run under one catalog every counter of a current step is recorded. From there on the argument
is a congruence of `Rules.progress` in the strides of the quests (`Rules.progress_congr`).
-/

namespace Questline

/-! ## Amounts with the same effect -/

/-- Two offers of an objective are the same, or one is no amount and the other an observation of
zero. -/
def Objective.Alike (f g : Objective → Option Amount) (o : Objective) : Prop :=
  f o = g o ∨ f o = none ∧ g o = some (.observed 0)

/-- The counters of all objectives are recorded. -/
def StepProgress.Records (p : StepProgress) (objectives : List Objective) : Prop :=
  ∀ o ∈ objectives, ∃ c, p.counters.get? o.id = some c

theorem StepProgress.Records.setCounter {p : StepProgress} {objectives : List Objective}
    (h : p.Records objectives) (id : String) (c : Counter) :
    (p.setCounter id c).Records objectives := by
  intro o ho
  simp only [StepProgress.setCounter, Dict.get?_insert]
  split
  · exact ⟨c, rfl⟩
  · exact h o ho

namespace Rules

variable {f g : Objective → Option Amount}

theorem offer_alike {objectives : List Objective} (halike : ∀ o : Objective, o.Alike f g)
    {p : StepProgress} (hrecorded : p.Records objectives) :
    offer f objectives p = offer g objectives p := by
  induction objectives generalizing p with
  | nil => rfl
  | cons o rest ih =>
      have hrest : p.Records rest := fun x hx => hrecorded x (List.mem_cons_of_mem _ hx)
      rcases halike o with hsame | ⟨hnone, hzero⟩
      · simp only [offer, hsame]
        cases g o with
        | none => exact ih hrest
        | some amount =>
            dsimp only
            rw [ih (hrest.setCounter o.id _)]
      · -- the counter of `o` is put back as it was
        obtain ⟨c, hc⟩ := hrecorded o List.mem_cons_self
        have hcounter : p.counter o.id o.requiredCount = c := by
          rw [StepProgress.counter, hc, Option.getD_some]
        simp only [offer, hnone, hzero, hcounter, c.apply_observed_zero,
          StepProgress.setCounter_self hc, Bool.false_eq_true, if_false]
        exact ih hrest

variable {c : Catalog} {username : String} {now : Instant}

theorem stride?_alike (halike : ∀ o : Objective, o.Alike f g) {j : Journal}
    (hj : j.log.Unfinished c) (x : String) :
    (j.thread x).stride? c username f now x = (j.thread x).stride? c username g now x := by
  unfold Thread.stride?
  cases hposition : (j.thread x).position? c x with
  | none => rfl
  | some r =>
      obtain ⟨q, a, s⟩ := r
      obtain ⟨-, ha, -⟩ := Thread.position?_eq_some.mp hposition
      obtain ⟨p, hp, -⟩ := hj.orderly.opened x a ha
      obtain ⟨hrecorded, -⟩ := hj.pending x q a s p hposition hp
      have hbefore : a.currentProgress s now = p := Activation.currentProgress_of_recorded hp s now
      simp only [Option.map_some, stride, hbefore, offer_alike halike hrecorded]

/-- `advanceAll` is the same for amounts with the same strides. -/
theorem advanceAll_congr {quests : List String} (hnodup : quests.Nodup) {j : Journal}
    (hsingle : ∀ x ∈ quests, j.log.Single x)
    (hstride : ∀ x ∈ quests,
      (j.thread x).stride? c username f now x = (j.thread x).stride? c username g now x) :
    advanceAll c username f now quests j = advanceAll c username g now quests j := by
  induction quests generalizing j with
  | nil => rfl
  | cons quest rest ih =>
      obtain ⟨hquest, hrest⟩ := List.nodup_cons.mp hnodup
      have hfirst : advanceQuest c username f now j quest
          = advanceQuest c username g now j quest := by
        rw [advanceQuest_eq, advanceQuest_eq, hstride quest List.mem_cons_self]
      simp only [advanceAll, hfirst]
      rw [ih hrest (fun x hx => ?_) fun x hx => ?_]
      · exact single_advanceQuest c username g now (hsingle x (List.mem_cons_of_mem _ hx)) quest
      · -- the quests still to come are as they were
        have hne : quest ≠ x := fun heq => hquest (heq ▸ hx)
        have hx' := List.mem_cons_of_mem quest hx
        rw [thread_advanceQuest c username g now (hsingle x hx') quest, if_neg hne]
        exact hstride x hx'

theorem progress_congr {j : Journal} (hd : j.log.Distinct)
    (hstride : ∀ x,
      (j.thread x).stride? c username f now x = (j.thread x).stride? c username g now x) :
    progress c username f now j = progress c username g now j :=
  advanceAll_congr hd (fun x _ => QuestLog.distinct_iff.mp hd x) fun x _ => hstride x

end Rules

/-! ## Level events and polls of a journal -/

/-- An event of another name than the one a goal listens for does not concern it. -/
theorem Objective.eventAmount?_of_other {o : Objective} {event : String} (p : Payload)
    (h : o.goal.eventName? ≠ some event) : eventAmount? event p o = none := by
  rw [eventAmount?, isMovedBy, beq_false_of_ne h, Bool.false_and, if_neg Bool.false_ne_true]

/-- A level event and a poll at that level offer every objective alike, if the player holds nothing
and has no flags set. -/
theorem Objective.alike_level {p : Player} (hitems : ∀ item, p.itemCount item = 0)
    (hflags : ∀ flag, p.hasAnyFlag flag = false) (previous : UInt32) (o : Objective) :
    let event := GameEvent.playerLevelUp p.level previous
    o.Alike (eventAmount? event.name event.payload) (polledAmount? p) := by
  intro event
  have hlevel := GameEvent.number?_playerLevelUp p.level previous
  have hother : o.goal.eventName? ≠ some EventName.playerLevelUp →
      eventAmount? event.name event.payload o = none := eventAmount?_of_other event.payload
  cases hgoal : o.goal with
  | reachLevel level =>
      have hevent := amount?_of_level hgoal (.event event.name event.payload)
      have hlook := amount?_of_level hgoal (.look p)
      have hreported : (Stimulus.event event.name event.payload).level? = some p.level.toNat := by
        rw [Stimulus.level?, if_pos (show event.name = EventName.playerLevelUp from rfl), hlevel]
      rw [hreported] at hevent
      exact Or.inl (hevent.trans hlook.symm)
  | haveItem item =>
      refine Or.inr ⟨hother ?_, ?_⟩
      · rw [hgoal]
        exact fun h => by cases h
      · simp only [polledAmount?, hgoal, hitems]
  | haveFlag flag =>
      refine Or.inl ((hother ?_).trans ?_)
      · rw [hgoal]
        exact fun h => by cases h
      · simp only [polledAmount?, hgoal, hflags, Bool.false_eq_true, if_false]
  | _ =>
      refine Or.inl ((hother ?_).trans ?_)
      · rw [hgoal]
        simp only [Goal.eventName?]
        decide
      · simp only [polledAmount?, hgoal]

/-- The rulings of a level event and of a poll at that level are the same. -/
theorem Rules.report_level {c : Catalog} {j : Journal} (hj : j.log.Unfinished c) {p : Player}
    (hitems : ∀ item, p.itemCount item = 0) (hflags : ∀ flag, p.hasAnyFlag flag = false)
    (previous : UInt32) (now : Instant) :
    let event := GameEvent.playerLevelUp p.level previous
    report c p.username event.name event.payload now j = poll c p now j := by
  intro event
  have halike : ∀ o : Objective,
      o.Alike (Objective.eventAmount? event.name event.payload) (Objective.polledAmount? p) :=
    Objective.alike_level hitems hflags previous
  have hsame : progress c p.username (Objective.eventAmount? event.name event.payload) now j
      = progress c p.username (Objective.polledAmount? p) now j :=
    progress_congr hj.orderly.distinct (stride?_alike halike hj)
  simp only [report, poll, hsame]

/-- The answer of a poll. -/
theorem Rules.answer_poll (c : Catalog) (p : Player) (now : Instant) (j : Journal) :
    ((poll c p now j).map Answer.updates).answer
      = .ok (.updates (progress c p.username (Objective.polledAmount? p) now j).updates) := by
  rw [Ruling.answer_map, poll, Transition.answer_ruling]
  rfl

theorem Operation.plan_poll (c : Catalog) (now : Instant) (p : Player) :
    (Operation.poll p).plan c now
      = .consult p.username fun j => (Rules.poll c p now j).map .updates := rfl

/-! ## Runs -/

variable {ρ : Type} [Repository ρ] [TableRepository ρ]

namespace Engine

/-- Rules that agree on the journal found are carried out alike, whatever fails. -/
theorem consult_congr {e : Engine ρ} {c : Circumstances} {username : String}
    {rule rule' : Journal → Ruling Answer}
    (h : rule (e.store.opened c username) = rule' (e.store.opened c username)) :
    e.consult c username rule = e.consult c username rule' := by
  rcases e.store.fetch_cases c username with ⟨fault, -, -, hfetch⟩ | ⟨s, accesses, hfetch, -⟩
  · simp only [consult, hfetch]
  · simp only [consult, hfetch, h]

/-- Rulings on journals with one quest log, each carried out where nothing fails, leave journals
that differ in the stamp at most. -/
theorem found_alike {catalog : Catalog} {now : Instant} {op : Operation} {username : String}
    {rule : Journal → Ruling Answer} (hplan : op.plan catalog now = .consult username rule)
    {j i : Journal} (hlog : j.log = i.log) (hname : i.username = j.username) (s s' : Instant) :
    ∃ stamp, (rule i).found s' i = ((rule j).found s j).touch stamp := by
  have husername : ∀ (stamp : Instant) (x : Journal),
      ((rule x).found stamp x).username = x.username := by
    intro stamp x
    rw [← Operation.username_plan hplan x]
    cases rule x <;> rfl
  have hsame : ((rule j).found s j).log = ((rule i).found s' i).log := by
    rw [Ruling.log_found, Ruling.log_found, (Operation.plan_of_log_eq hplan hlog).2,
      Journal.log_relabel]
  refine ⟨((rule i).found s' i).lastUpdated, (Journal.eq_relabel_of_log_eq hsame).trans ?_⟩
  rw [husername, hname, ← husername s j]
  rfl

/-- Two polls at one time, where nothing fails, differ in the stamp at most. -/
theorem run_poll_alike {e : Engine ρ} (hs : e.store.Sound) {c c' : Circumstances}
    (hc : c.Faultless) (hc' : c'.Faultless) (hnow : c'.now = c.now) (p : Player) :
    let o := e.run c (.poll p)
    let o' := e.run c' (.poll p)
    (∃ us, o.answer = .ok (.updates us) ∧ o'.answer = .ok (.updates us)) ∧ o'.news = o.news
      ∧ (∀ key, playerKey p.username ≠ key →
        o'.engine.store.place key = o.engine.store.place key)
      ∧ ∃ j stamp, (∀ d, (o.engine.store.fetch d p.username).result = .ok j)
        ∧ ∀ d, (o'.engine.store.fetch d p.username).result = .ok (j.touch stamp) := by
  intro o o'
  have hplan := Operation.plan_poll e.catalog c.now p
  have h := run_faultless hs hc hplan
  have hplan' : (Operation.poll p).plan e.catalog c'.now = .consult p.username
      fun j => (Rules.poll e.catalog p c.now j).map .updates := by rw [hnow, hplan]
  have h' := run_faultless hs hc' hplan'
  have hlog : (e.store.opened c p.username).log = (e.store.opened c' p.username).log := by
    rw [Store.log_opened, Store.log_opened]
  have hname : (e.store.opened c' p.username).username
      = (e.store.opened c p.username).username := by
    unfold Store.opened
    cases (e.store.place (playerKey p.username)).kept? <;> rfl
  obtain ⟨hruling, -⟩ := Operation.plan_of_log_eq hplan hlog
  obtain ⟨stamp, hfound⟩ := found_alike hplan hlog hname c.savedAt c'.savedAt
  have hanswer : o.answer = .ok (.updates (Rules.progress e.catalog p.username
      (Objective.polledAmount? p) c.now (e.store.opened c p.username)).updates) := by
    rw [h.answer, Rules.answer_poll]
    rfl
  refine ⟨⟨_, hanswer, ?_⟩, ?_, fun key hkey => ?_, _, stamp, h.fetched, fun d => ?_⟩
  · have hsame : o'.answer = o.answer.map (Answer.relabel
        (e.store.opened c' p.username).username (e.store.opened c' p.username).lastUpdated) := by
      rw [h'.answer, h.answer, hruling, Ruling.answer_map, Ruling.answer_relabel]
      cases (Ruling.map Answer.updates (Rules.poll e.catalog p c.now
        (e.store.opened c p.username))).answer <;> rfl
    rw [hsame, hanswer]
    rfl
  · rw [h'.news, h.news, hruling, Ruling.news_map, Ruling.news_relabel]
  · rw [h'.frame key hkey, h.frame key hkey]
  · rw [h'.fetched d]
    exact congrArg Except.ok hfound

end Engine

/-- **Level events and polls agree.** In a run over an empty repository under a catalog of valid
quests, whatever has failed before: the event that a player has reached a level, and a poll of the
player at that level, who holds nothing and has no flags set, have the same outcome, whatever fails,
to the last access and the last field (first part). At two moments that the rules cannot tell
apart, and where nothing fails, they have the same answer and the same news, touch no other
player, and leave journals that differ in the time of the last change at most. -/
theorem levels_agree (catalog : Catalog) (hvalid : catalog.Valid) (repository : ρ)
    (hempty : TableRepository.records repository = ∅) (limit : Nat) (turns : List Turn)
    (hkeep : ∀ t ∈ turns, t.Keeps catalog) (p : Player) (hitems : ∀ item, p.itemCount item = 0)
    (hflags : ∀ flag, p.hasAnyFlag flag = false) (previous : UInt32) :
    let e := (Engine.new catalog repository limit).after turns
    let gain := Operation.ingest p.username (.playerLevelUp p.level previous)
    (∀ c, e.run c gain = e.run c (.poll p))
    ∧ ∀ c c' : Circumstances, c.Faultless → c'.Faultless → c'.now = c.now →
      let gained := e.run c gain
      let seen := e.run c' (.poll p)
      (∃ us, gained.answer = .ok (.updates us) ∧ seen.answer = .ok (.updates us))
      ∧ seen.news = gained.news
      ∧ (∀ key, playerKey p.username ≠ key →
        seen.engine.store.place key = gained.engine.store.place key)
      ∧ ∃ j stamp, (∀ d, (gained.engine.store.fetch d p.username).result = .ok j)
        ∧ ∀ d, (seen.engine.store.fetch d p.username).result = .ok (j.touch stamp) := by
  intro e gain
  have hnew := Engine.runInvariant_new catalog hempty limit
  obtain ⟨hcatalog, hsound, -, -⟩ : e.RunInvariant catalog := hnew.after hvalid hkeep
  have hall : (e.store.place (playerKey p.username)).All (·.Unfinished catalog) :=
    Engine.after_unfinished hvalid hnew
      (Engine.all_new QuestLog.Unfinished.blank catalog hempty limit _) hkeep
  have hsame : ∀ c, e.run c gain = e.run c (.poll p) := by
    intro c
    have hj : (e.store.opened c p.username).log.Unfinished e.catalog := by
      rw [hcatalog, Store.log_opened]
      exact hall.log
    exact Engine.consult_congr
      (congrArg (Ruling.map Answer.updates) (Rules.report_level hj hitems hflags previous c.now))
  refine ⟨hsame, fun c c' hc hc' hnow => ?_⟩
  simp only [hsame c]
  exact Engine.run_poll_alike hsound hc hc' hnow p

/-- Reach the fifth level, or find a key or a guide or kill the troll; then reach the eighth. -/
def ascent : Quest where
  id := "ascent"
  name := "Ascent"
  description := ""
  category := .main
  repeatable := false
  cooldown := none
  prerequisites := .none
  steps :=
    [{ id := "foot", name := "Foot", description := "",
        objectives := [⟨"level", "", none, .reachLevel 5⟩, ⟨"key", "", some 2, .haveItem "key"⟩,
          ⟨"guide", "", none, .haveFlag "guide"⟩, ⟨"troll", "", none, .killMob "troll"⟩],
        dialogues := ∅, onStart := [], onComplete := [.giveItem "rope" 1], requireAll := false },
      { id := "peak", name := "Peak", description := "",
        objectives := [⟨"level", "", none, .reachLevel 8⟩], dialogues := ∅, onStart := [],
        onComplete := [], requireAll := true }]
  rewards := none
  chain := none

/-- The sixth level is enough for the first step of the ascent, by the event as by a poll. -/
theorem levels_agree_ascent :
    let turns := [Turn.perform (.calm .epoch) (.start (.named "Ann" 1) "ascent" false none)]
    let e := (Engine.new (Catalog.ofQuests [ascent]) MemoryRepository.empty 5000).after turns
    let p := Player.named "Ann" 6
    let gained := e.run (.calm .epoch) (.ingest "Ann" (.playerLevelUp 6 5))
    (Catalog.ofQuests [ascent]).Valid ∧ TableRepository.records MemoryRepository.empty = ∅
      ∧ (∀ t ∈ turns, t.Keeps (Catalog.ofQuests [ascent])) ∧ (∀ item, p.itemCount item = 0)
      ∧ (∀ flag, p.hasAnyFlag flag = false) ∧ (Circumstances.calm .epoch).Faultless
      ∧ gained = e.run (.calm .epoch) (.poll p)
      ∧ gained.answer = .ok (.updates [⟨"ascent", "foot", [⟨"level", 5, 5, true⟩], true, true,
        some "peak", false, none⟩]) := by
  intro turns e p gained
  have hvalid : (Catalog.ofQuests [ascent]).Valid := Catalog.valid_ofQuests fun q hq => by
    rw [List.mem_singleton.mp hq]
    decide
  have hkeep : ∀ t ∈ turns, t.Keeps (Catalog.ofQuests [ascent]) := by simp [turns, Turn.Keeps]
  have hitems : ∀ item, p.itemCount item = 0 := fun _ => rfl
  have hflags : ∀ flag, p.hasAnyFlag flag = false := fun _ => rfl
  obtain ⟨hsame, -⟩ := levels_agree (Catalog.ofQuests [ascent]) hvalid MemoryRepository.empty rfl
    5000 turns hkeep p hitems hflags 5
  exact ⟨hvalid, rfl, hkeep, hitems, hflags, Circumstances.faultless_calm _, hsame _, by rfl⟩

end Questline
