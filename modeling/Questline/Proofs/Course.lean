import Questline.Proofs.QuestTransition
import Questline.Quest.Validity

/-!
# Runs, quest by quest

`Engine.take_transition` lifts the transition relation of one quest to the turns of a run: a turn
either applies no rule to the player's journal (`Engine.reached?` is `none`), leaves the thread as
it is and publishes nothing about it, or takes the thread through one `QuestTransition` and
publishes its news. A player is known by the lower-cased name.

The runs of interest start over an empty repository. All quest logs in them are orderly
(`Engine.after_orderly`), and while one catalog stays in place it knows every active quest and its
step. Both are part of the invariant of such runs, `Engine.RunInvariant`.
-/

namespace Questline

namespace Notification

/-- Whether a notification bears a quest and, up to lower-casing, the name of a player. -/
def isAbout (key quest : String) (n : Notification) : Bool :=
  playerKey n.username = key && n.quest = quest

/-- The step that a notification puts its quest on, which was on the step `here` before. -/
def stepAfter (here : Option String) : Notification → Option String
  | started _ _ step _ => some step
  | stepCompleted _ _ _ next _ => next
  | objectiveUpdated _ _ _ _ => here
  | abandoned _ _ | completed _ _ _ _ | failed _ _ _ => none

/-- The step that a notification names as entered. -/
def entered? (n : Notification) : Option String := n.stepAfter none

end Notification

/-- All news of a ruling is about the player of the operation, so that of one quest is selected by
the quest alone. -/
theorem Operation.news_about {c : Catalog} {now : Instant} {op : Operation} {username : String}
    {rule : Journal → Ruling Answer} (h : op.plan c now = .consult username rule) (j : Journal)
    {key : String} (hkey : playerKey username = key) (quest : String) :
    (rule j).news.filter (·.isAbout key quest) = (rule j).news.filter (·.quest = quest) := by
  refine List.filter_congr fun n hn => ?_
  have hname := (Operation.faithful h j).named n hn
  simp only [Notification.isAbout, hname, hkey, decide_true, Bool.true_and]

variable {ρ : Type} [Repository ρ] [TableRepository ρ]

namespace Engine

/-- The journal to which a turn applies its rule, if it is that of the player of a lower-cased name:
there is a plan to consult it and it can be loaded. -/
def reached? (e : Engine ρ) (key : String) : Turn → Option Journal
  | .perform c op =>
    match op.plan e.catalog c.now with
    | .consult username _ =>
      if playerKey username = key then (e.store.fetch c username).result.toOption else none
    | _ => none
  | .reload _ => none

/-- **Inversion of a turn, player by player.** Either the turn reaches no journal of the player,
leaves the quest log and publishes nothing about the player, or it applies the rule of its
operation to the journal that it reaches. -/
theorem take_cases {e : Engine ρ} (hs : e.store.Sound) (t : Turn) (key : String) :
    (((e.take t).engine.store.place key).log = (e.store.place key).log
      ∧ (∀ n ∈ (e.take t).news, playerKey n.username ≠ key) ∧ e.reached? key t = none)
    ∨ ∃ c op username rule j, t = .perform c op
      ∧ op.plan e.catalog c.now = .consult username rule ∧ playerKey username = key
      ∧ e.reached? key t = some j ∧ j.log = (e.store.place key).log
      ∧ ((e.take t).engine.store.place key).log = ((rule j).journal j).log
      ∧ (e.take t).news = (rule j).news := by
  cases t with
  | reload catalog => exact Or.inl ⟨rfl, fun _ hn => absurd hn List.not_mem_nil, rfl⟩
  | perform c op =>
      rcases run_cases hs c op with ⟨hquiet, -, hlost⟩ | ⟨username, rule, hplan, hfetch, hdone⟩
      · refine Or.inl ⟨hquiet.log key, ?_, ?_⟩
        · rw [show (e.take (.perform c op)).news = [] from hquiet.news]
          exact fun _ hn => absurd hn List.not_mem_nil
        · unfold reached?
          dsimp only
          split
          · rename_i username rule hplan
            obtain ⟨-, fault, -, hfetch, -⟩ := hlost username rule hplan
            split
            · rw [hfetch]
              rfl
            · rfl
          · rfl
      · have hnamed := (Operation.faithful hplan (e.store.opened c username)).named
        by_cases hkey : playerKey username = key
        · subst hkey
          refine Or.inr ⟨c, op, username, rule, e.store.opened c username, rfl, hplan, rfl, ?_,
            Store.log_opened .., hdone.log, hdone.news⟩
          simp only [reached?, hplan, if_true, hfetch]
          rfl
        · refine Or.inl ⟨congrArg Place.log (hdone.frame key hkey), fun n hn => ?_, ?_⟩
          · rw [hnamed n (hdone.news ▸ hn)]
            exact hkey
          · simp only [reached?, hplan, if_neg hkey]

/-- Every quest log that an engine keeps is orderly. -/
def Orderly (e : Engine ρ) : Prop := ∀ key, (e.store.place key).log.Orderly

theorem log_new {catalog : Catalog} {repository : ρ}
    (hempty : TableRepository.records repository = ∅) (limit : Nat) (key : String) :
    ((new catalog repository limit).store.place key).log = .blank := by
  have hrecord : ((new catalog repository limit).store.place key).record = none := by
    show Dict.get? (TableRepository.records repository) key = none
    rw [hempty]
    rfl
  unfold Place.log
  rw [Place.kept?_of_not_loaded (fun _ _ h => by cases h), hrecord]
  rfl

theorem sound_new (catalog : Catalog) {repository : ρ}
    (hempty : TableRepository.records repository = ∅) (limit : Nat) :
    (new catalog repository limit).store.Sound :=
  Store.sound_new (hempty ▸ keyed_empty) limit

theorem orderly_new (catalog : Catalog) {repository : ρ}
    (hempty : TableRepository.records repository = ∅) (limit : Nat) :
    (new catalog repository limit).Orderly := fun key => by
  rw [log_new hempty]
  exact QuestLog.orderly_blank

theorem take_orderly {e : Engine ρ} (hs : e.store.Sound) (ho : e.Orderly) (t : Turn) :
    (e.take t).engine.Orderly := by
  intro key
  rcases take_cases hs t key with ⟨hlog, -⟩
    | ⟨c, op, username, rule, j, -, hplan, -, -, hj, hlog, -⟩
  · rw [hlog]
    exact ho key
  · rw [hlog]
    exact Operation.orderly_plan hplan (hj ▸ ho key)

/-- **Inversion of a turn, quest by quest.** Either the turn reaches no journal of the player, or it
takes the thread of the quest through a `QuestTransition`. -/
theorem take_transition {e : Engine ρ} (hs : e.store.Sound) (t : Turn) {key quest : String}
    (ho : (e.store.place key).log.OrderlyAt quest) :
    (((e.take t).engine.store.place key).log.thread quest = (e.store.place key).log.thread quest
      ∧ (e.take t).news.filter (·.isAbout key quest) = [] ∧ e.reached? key t = none)
    ∨ ∃ c op username rule j, t = .perform c op
      ∧ op.plan e.catalog c.now = .consult username rule
      ∧ e.reached? key t = some j ∧ j.log = (e.store.place key).log
      ∧ QuestTransition e.catalog username c.now quest (op.stimulus? e.catalog j)
        (op.target? e.catalog j quest) ((e.store.place key).log.thread quest)
        ((e.take t).news.filter (·.isAbout key quest))
        (((e.take t).engine.store.place key).log.thread quest) := by
  rcases take_cases hs t key with ⟨hlog, hnews, hreached⟩
    | ⟨c, op, username, rule, j, rfl, hplan, hkey, hreached, hj, hlog, hnews⟩
  · refine Or.inl ⟨by rw [hlog], List.filter_eq_nil_iff.mpr fun n hn habout => ?_, hreached⟩
    exact hnews n hn (of_decide_eq_true (Bool.and_eq_true_iff.mp habout).1)
  · have htransition := Operation.transition hplan (hj ▸ ho)
    refine Or.inr ⟨c, op, username, rule, j, rfl, hplan, hreached, hj, ?_⟩
    rw [hnews, Operation.news_about hplan j hkey, hlog, ← hj]
    exact htransition

theorem after_orderly {e : Engine ρ} (hs : e.store.Sound) (ho : e.Orderly) (turns : List Turn) :
    (e.after turns).Orderly := by
  induction turns generalizing e with
  | nil => exact ho
  | cons t turns ih => exact ih (take_sound hs t) (take_orderly hs ho t)

/-! ## One catalog for good -/

end Engine

/-- Whether a turn leaves a catalog in place. -/
def Turn.Keeps (catalog : Catalog) : Turn → Prop
  | perform _ _ => True
  | reload other => other = catalog

/-- Every quest is valid. -/
def Catalog.Valid (c : Catalog) : Prop := ∀ id q, c.get? id = some q → q.Valid

theorem Catalog.Valid.insert {c : Catalog} (hc : c.Valid) {q : Quest} (hq : q.Valid) :
    (c.insert q).Valid := by
  intro id r hr
  rw [Catalog.get?_insert] at hr
  split at hr
  · cases hr
    exact hq
  · exact hc id r hr

theorem Catalog.valid_ofQuests {qs : List Quest} (h : ∀ q ∈ qs, q.Valid) :
    (Catalog.ofQuests qs).Valid := by
  have hfold : ∀ c : Catalog, c.Valid → (qs.foldl Catalog.insert c).Valid := by
    induction qs with
    | nil => exact fun c hc => hc
    | cons q qs ih =>
        exact fun c hc => ih (fun r hr => h r (List.mem_cons_of_mem _ hr)) _
          (hc.insert (h q List.mem_cons_self))
  exact hfold ∅ fun _ _ h => by cases h

theorem valid_ratHunt : (Catalog.ofQuests [ratHunt]).Valid :=
  Catalog.valid_ofQuests fun q hq => by
    rw [List.mem_singleton.mp hq]
    decide

/-- The look-up of `Rules.advanceQuest` finds everything if the quest is active. -/
def Thread.Known (c : Catalog) (quest : String) (t : Thread) : Prop :=
  ∀ a, t.current = some a → ∃ q s, t.position? c quest = some (q, a, s)

namespace Quest

theorem mem_of_nextStep? {q : Quest} {id : String} {next : Step}
    (h : q.nextStep? id = some next) : next ∈ q.steps := by
  unfold nextStep? at h
  revert h
  induction q.steps with
  | nil => exact fun h => by cases h
  | cons s rest ih =>
      intro h
      simp only [stepAfter?] at h
      split at h
      · exact List.mem_cons_of_mem _ (List.mem_of_head? h)
      · exact List.mem_cons_of_mem _ (ih h)

/-- Where no two steps share an id, a step is found under its own. -/
theorem Valid.step?_of_mem {q : Quest} (hq : q.Valid) {s : Step} (hs : s ∈ q.steps) :
    q.step? s.id = some s := find?_of_nodup hq.stepIds_nodup hs

theorem Valid.step?_of_nextStep? {q : Quest} (hq : q.Valid) {id : String} {next : Step}
    (h : q.nextStep? id = some next) : q.step? next.id = some next :=
  hq.step?_of_mem (mem_of_nextStep? h)

/-- Where no two steps share an id, a step is not followed by one of its own id. -/
theorem Valid.nextStep?_ne {q : Quest} (hq : q.Valid) {id : String} {next : Step}
    (h : q.nextStep? id = some next) : next.id ≠ id := by
  have hnodup : (q.steps.map (·.id)).Nodup := hq.stepIds_nodup
  unfold nextStep? at h
  revert h hnodup
  induction q.steps with
  | nil => exact fun h => by cases h
  | cons s rest ih =>
      intro h hnodup
      obtain ⟨hs, hrest⟩ := List.nodup_cons.mp hnodup
      simp only [stepAfter?] at h
      split at h
      · rename_i hid
        intro hnext
        exact hs (List.mem_map.mpr ⟨next, List.mem_of_head? h, hnext.trans hid.symm⟩)
      · exact ih h hrest

end Quest

theorem Thread.position?_of_known {c : Catalog} {quest : String} {t : Thread} {q : Quest}
    {a : Activation} {s : Step} (hq : c.get? quest = some q) (ha : t.current = some a)
    (hs : q.step? a.step = some s) : t.position? c quest = some (q, a, s) :=
  Thread.position?_eq_some.mpr ⟨hq, ha, hs⟩

/-- A quest that is active is on one step, and one progress is recorded of it. -/
theorem Thread.recorded_unique {c : Catalog} {quest : String} {q : Quest} {a : Activation}
    {s : Step} {p : StepProgress} {count : Option UInt32} (hq : c.get? quest = some q)
    (hs : q.step? a.step = some s) (hp : a.progress.get? a.step = some p) {q' : Quest}
    {a' : Activation} {s' : Step} {p' : StepProgress}
    (hposition : Thread.position? c quest ⟨some a, count⟩ = some (q', a', s'))
    (hp' : a'.progress.get? a'.step = some p') : s = s' ∧ p = p' := by
  obtain ⟨hq', ha', hs'⟩ := Thread.position?_eq_some.mp hposition
  cases ha'
  cases hq.symm.trans hq'
  exact ⟨Option.some.inj (hs.symm.trans hs'), Option.some.inj (hp.symm.trans hp')⟩

theorem QuestStride.known {c : Catalog} (hc : c.Valid) {username : String} {now : Instant}
    {quest : String}
    {amount? : Objective → Option Amount} {t t' : Thread} {news : List Notification}
    (h : QuestStride c username now quest amount? t news t') (ht : t.Known c quest) :
    t'.Known c quest := by
  cases h with
  | idle => exact ht
  | update o =>
      intro b hb
      cases hb
      exact ⟨o.q, o.s, Thread.position?_of_known o.known rfl o.onStep⟩
  | @advance a count o _ next hnext =>
      intro b hb
      cases hb
      have hnext' := (hc _ _ o.known).step?_of_nextStep? hnext
      exact ⟨o.q, next, Thread.position?_of_known o.known rfl hnext'⟩
  | complete => exact fun b hb => by cases hb

theorem QuestTransition.known {c : Catalog} (hc : c.Valid) {username : String} {now : Instant}
    {quest : String}
    {stimulus? : Option Stimulus} {target? : Option Step} {t t' : Thread}
    {news : List Notification}
    (h : QuestTransition c username now quest stimulus? target? t news t')
    (ht : t.Known c quest) : t'.Known c quest := by
  have hbranch : ∀ (q : Quest) (target : Step) (origin : String) (a : Activation)
      (count : Option UInt32), c.get? quest = some q → q.step? target.id = some target →
      Thread.Known c quest ⟨some (Rules.branch q target origin username now a).1, count⟩ := by
    intro q target origin a count hq htarget b hb
    cases hb
    refine ⟨q, target, Thread.position?_of_known hq rfl ?_⟩
    rw [step_branch]
    exact htarget
  cases h with
  | stay => exact ht
  | start hq hs =>
      intro b hb
      cases hb
      exact ⟨_, _, Thread.position?_of_known hq rfl hs⟩
  | abandon => exact fun b hb => by cases hb
  | complete => exact fun b hb => by cases hb
  | fail => exact fun b hb => by cases hb
  | @setVariable a count key value =>
      intro b hb
      cases hb
      obtain ⟨q, s, h⟩ := ht a rfl
      obtain ⟨hq, -, hs⟩ := Thread.position?_eq_some.mp h
      exact ⟨q, s, Thread.position?_of_known hq rfl hs⟩
  | meet hstride => exact hstride.known hc ht
  | branch hq htarget => exact hbranch _ _ _ _ _ hq htarget
  | talk hq htarget => exact hbranch _ _ _ _ _ hq htarget

namespace Engine

theorem take_catalog {e : Engine ρ} (hs : e.store.Sound) {t : Turn} (ht : t.Keeps e.catalog) :
    (e.take t).engine.catalog = e.catalog := by
  cases t with
  | perform c op =>
      rcases run_cases hs c op with ⟨-, hcatalog, -⟩ | ⟨_, _, -, -, hdone⟩
      · exact hcatalog
      · exact hdone.catalog
  | reload catalog => exact ht

theorem after_catalog {e : Engine ρ} (hs : e.store.Sound) {turns : List Turn}
    (hturns : ∀ t ∈ turns, t.Keeps e.catalog) : (e.after turns).catalog = e.catalog := by
  have htake : ∀ (e' : Engine ρ) t, e'.store.Sound ∧ e'.catalog = e.catalog →
      t.Keeps e.catalog →
      (e'.take t).engine.store.Sound ∧ (e'.take t).engine.catalog = e.catalog := by
    rintro e' t ⟨hs', hcatalog⟩ ht
    exact ⟨take_sound hs' t, (take_catalog hs' (hcatalog ▸ ht)).trans hcatalog⟩
  exact (after_of_take htake ⟨hs, rfl⟩ hturns).2

/-- The catalog in place knows every active quest and the step it is on. -/
def Known (e : Engine ρ) : Prop :=
  ∀ key quest, ((e.store.place key).log.thread quest).Known e.catalog quest

theorem known_new {catalog : Catalog} {repository : ρ}
    (hempty : TableRepository.records repository = ∅) (limit : Nat) :
    (new catalog repository limit).Known := fun key quest a ha => by
  rw [log_new hempty] at ha
  cases ha

theorem take_known {e : Engine ρ} (hs : e.store.Sound) (ho : e.Orderly) (hc : e.catalog.Valid)
    (hk : e.Known) {t : Turn} (ht : t.Keeps e.catalog) : (e.take t).engine.Known := by
  intro key quest
  rw [take_catalog hs ht]
  rcases take_transition hs t ((ho key).at quest) with ⟨hthread, -⟩ |
    ⟨_, _, _, _, _, -, -, -, -, htransition⟩
  · rw [hthread]
    exact hk key quest
  · exact htransition.known hc (hk key quest)

/-- The invariant of runs that start without a journal and keep one catalog. -/
structure RunInvariant (catalog : Catalog) (e : Engine ρ) : Prop where
  catalog : e.catalog = catalog
  sound : e.store.Sound
  orderly : e.Orderly
  known : e.Known

theorem runInvariant_new (catalog : Catalog) {repository : ρ}
    (hempty : TableRepository.records repository = ∅) (limit : Nat) :
    (new catalog repository limit).RunInvariant catalog :=
  ⟨rfl, sound_new catalog hempty limit, orderly_new catalog hempty limit, known_new hempty limit⟩

theorem RunInvariant.take {catalog : Catalog} (hc : catalog.Valid) {e : Engine ρ}
    (h : e.RunInvariant catalog) {t : Turn} (ht : t.Keeps catalog) :
    (e.take t).engine.RunInvariant catalog := by
  obtain ⟨rfl, hs, ho, hk⟩ := h
  exact ⟨take_catalog hs ht, take_sound hs t, take_orderly hs ho t, take_known hs ho hc hk ht⟩

theorem RunInvariant.after {catalog : Catalog} (hc : catalog.Valid) {e : Engine ρ}
    (h : e.RunInvariant catalog) {turns : List Turn} (hturns : ∀ t ∈ turns, t.Keeps catalog) :
    (e.after turns).RunInvariant catalog :=
  after_of_take (P := RunInvariant catalog) (fun _ _ h ht => h.take hc ht) h hturns

end Engine

end Questline
