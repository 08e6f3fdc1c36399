import Questline.Proofs.Gating

/-!
# Steps are walked in order

From its start on, a quest that no `advanceTo` and no dialogue option branches goes from each step
to the one after it in the definition, and ends with the last one. For one operation that is
`Thread.UnbranchedTransition`, for the turns of a run `StepwiseRun`: a turn leaves the quest on its
step, takes it to the next, completes it on the last, or takes it off the active quests without
completing a step.

The run may begin over any repository. A quest that has just been started is active once, and
it stays so whatever there is of other quests, so the invariant of a run (`Engine.WalkInvariant`) is
about this quest alone (`QuestLog.OrderlyAt`).
-/

namespace Questline

/-- The step that a `quest:step_completed` notification names as completed, with the next one. -/
def Notification.stepEnd? : Notification → Option (String × Option String)
  | stepCompleted _ _ step next _ => some (step, next)
  | _ => none

/-- The ids of steps one after another, each with the one that follows. -/
def stepEnds : List Step → List (String × Option String)
  | [] => []
  | s :: rest => (s.id, rest.head?.map (·.id)) :: stepEnds rest

theorem stepEnds_drop {steps : List Step} {k : Nat} {s : Step} (hs : steps[k]? = some s) :
    stepEnds (steps.drop k)
      = (s.id, steps[k + 1]?.map (·.id)) :: stepEnds (steps.drop (k + 1)) := by
  obtain ⟨hk, rfl⟩ := List.getElem?_eq_some_iff.mp hs
  rw [List.drop_eq_getElem_cons hk, stepEnds, List.head?_drop]

/-- Where no two steps share an id, the step after the one at a position is at the next. -/
theorem Quest.Valid.nextStep?_of_getElem? {q : Quest} (hq : q.Valid) {k : Nat} {s : Step}
    (hs : q.steps[k]? = some s) : q.nextStep? s.id = q.steps[k + 1]? := by
  have hnodup : (q.steps.map (·.id)).Nodup := hq.stepIds_nodup
  unfold nextStep?
  revert hnodup hs
  induction q.steps generalizing k with
  | nil => exact fun h => by cases h
  | cons first rest ih =>
      intro hs hnodup
      obtain ⟨hfirst, hrest⟩ := List.nodup_cons.mp hnodup
      cases k with
      | zero =>
          cases hs
          simp only [stepAfter?, if_true, List.getElem?_cons_succ, List.head?_eq_getElem?]
      | succ k =>
          have hmem : s ∈ rest := List.mem_of_getElem? hs
          have hne : first.id ≠ s.id := fun h => hfirst (List.mem_map.mpr ⟨s, hmem, h.symm⟩)
          simp only [stepAfter?, if_neg hne, List.getElem?_cons_succ]
          exact ih hs hrest

/-! ## Branches -/

namespace Operation

/-- Whether an operation applies `Rules.branch` to a quest of a journal: an `advanceTo` of an active
quest to one of its steps, or a `choose` whose option has a target that the talk has not brought the
quest to. Whether the journal can be saved afterwards does not matter: the one in use is on the
target in any case. -/
def branches (c : Catalog) (now : Instant) (j : Journal) (quest : String) : Operation → Bool
  | advanceTo u id step => j.isActive quest && ((advanceTo u id step).target? c j quest).isSome
  | choose p npc id option =>
    let event := Rules.talk npc option
    let t := Rules.progress c p.username (Objective.eventAmount? event.name event.payload) now j
    match (choose p npc id option).target? c j quest, t.journal.activation? quest with
    | some target, some a => a.step ≠ target.id
    | _, _ => false
  | _ => false

/-- Whether an operation runs `Rules.progress`: an event, a poll or the talk of a pick. -/
def meets : Operation → Bool
  | report _ _ _ | poll _ | choose _ _ _ _ => true
  | _ => false

end Operation

/-! ## One operation -/

/-- The quest is active, on the step at a position of its definition. -/
def Thread.OnStep (q : Quest) (k : Nat) (t : Thread) : Prop :=
  ∃ a s, t.current = some a ∧ q.steps[k]? = some s ∧ a.step = s.id

/-- The effect of an operation that does not branch on a quest that is on the step at position `k`.
Only one that runs `Rules.progress` (`met`) completes the step or the quest. -/
inductive Thread.UnbranchedTransition (q : Quest) (k : Nat) (met : Bool) (news : List Notification)
    (t' : Thread) : Prop
  | rests (hends : news.filterMap (·.stepEnd?) = []) (hnews : news.countP (·.isCompletion) = 0)
      (ht : t'.OnStep q k)
  | dropped (hmet : met = false) (hends : news.filterMap (·.stepEnd?) = []) (ht : t'.current = none)
  | moves {s next : Step} (hmet : met = true) (hs : q.steps[k]? = some s)
      (hnext : q.steps[k + 1]? = some next)
      (hends : news.filterMap (·.stepEnd?) = [(s.id, some next.id)])
      (hnews : news.countP (·.isCompletion) = 0) (ht : t'.OnStep q (k + 1))
  | finishes {s : Step} (hmet : met = true) (hs : q.steps[k]? = some s)
      (hlast : q.steps[k + 1]? = none) (hends : news.filterMap (·.stepEnd?) = [(s.id, none)])
      (hnews : news.countP (·.isCompletion) = 1) (ht : t'.current = none)

theorem Offering.stepEnd_counterNews {c : Catalog} {amount? : Objective → Option Amount}
    {quest : String} {a : Activation} (o : Offering c amount? quest a) (username : String) :
    (o.counterNews username).filterMap (·.stepEnd?) = [] := by
  refine List.filterMap_eq_nil_iff.mpr fun n hn => ?_
  obtain ⟨m, -, rfl⟩ := List.mem_map.mp hn
  rfl

section Moves

variable {c : Catalog} {username : String} {now : Instant} {quest : String} {q : Quest} {k : Nat}
  {t t' : Thread} {news : List Notification}

/-- `Rules.advanceQuest` goes to the next position, or completes the quest at the last. -/
theorem QuestStride.unbranched {amount? : Objective → Option Amount}
    (h : QuestStride c username now quest amount? t news t') (hq : c.get? quest = some q)
    (hvalid : q.Valid) (ht : t.OnStep q k) : t'.UnbranchedTransition q k true news := by
  have honStep : ∀ {a count} (o : Offering c amount? quest a),
      Thread.OnStep q k ⟨some a, count⟩ → o.q = q ∧ q.steps[k]? = some o.s := by
    rintro a count o ⟨b, s, ha, hs, hstep⟩
    cases ha
    cases hq.symm.trans o.known
    have hself := o.onStep
    rw [hstep, hvalid.step?_of_mem (List.mem_of_getElem? hs)] at hself
    cases hself
    exact ⟨rfl, hs⟩
  cases h with
  | idle hposition =>
      obtain ⟨a, s, ha, hs, hstep⟩ := ht
      have hself : q.step? a.step = some s :=
        hstep ▸ hvalid.step?_of_mem (List.mem_of_getElem? hs)
      rw [Thread.position?_of_known hq ha hself] at hposition
      cases hposition
  | update o =>
      obtain ⟨a, s, ha, hs, hstep⟩ := ht
      cases ha
      exact .rests (o.stepEnd_counterNews username) o.completions_counterNews ⟨_, s, rfl, hs, hstep⟩
  | advance o hcompletesStep hnext =>
      obtain ⟨hknown, hs⟩ := honStep o ht
      subst hknown
      rw [hvalid.nextStep?_of_getElem? hs] at hnext
      refine .moves rfl hs hnext ?_ ?_ ⟨_, _, rfl, hnext, rfl⟩
      · rw [List.filterMap_append, o.stepEnd_counterNews]
        rfl
      · rw [List.countP_append, o.completions_counterNews]
        rfl
  | complete o hcompletesStep hnext =>
      obtain ⟨hknown, hs⟩ := honStep o ht
      subst hknown
      rw [hvalid.nextStep?_of_getElem? hs] at hnext
      refine .finishes rfl hs hnext ?_ ?_ rfl
      · rw [List.filterMap_append, o.stepEnd_counterNews]
        rfl
      · rw [List.countP_append, o.completions_counterNews]
        rfl

/-- An operation without a stimulus and without a target leaves the quest on its step or takes it
off the active ones. -/
theorem QuestTransition.unbranched (h : QuestTransition c username now quest none none t news t')
    (ht : t.OnStep q k) : t'.UnbranchedTransition q k false news := by
  cases h with
  | stay => exact .rests rfl rfl ht
  | start =>
      obtain ⟨a, s, ha, -⟩ := ht
      cases ha
  | abandon => exact .dropped rfl rfl rfl
  | complete => exact .dropped rfl rfl rfl
  | fail => exact .dropped rfl rfl rfl
  | setVariable =>
      obtain ⟨a, s, ha, hs, hstep⟩ := ht
      cases ha
      exact .rests rfl rfl ⟨_, s, rfl, hs, hstep⟩

end Moves

/-- `Rules.choose` without a branch is the talk, if the option is offered, and else nothing. -/
theorem Operation.choose_unbranched {c : Catalog} {now : Instant} {j : Journal} {quest : String}
    {p : Player} {npc id option : String} (hj : j.log.OrderlyAt quest)
    (hb : (choose p npc id option).branches c now j quest = false) :
    let r := Rules.choose c p npc id option now j
    (r.news.filter (·.quest = quest) = [] ∧ (r.journal j).thread quest = j.thread quest)
    ∨ ∃ amount?, QuestStride c p.username now quest amount? (j.thread quest)
      (r.news.filter (·.quest = quest)) ((r.journal j).thread quest) := by
  cases hchoice : Rules.choice? c p npc id option j with
  | none =>
      simp only [Rules.choose, hchoice]
      exact Or.inl ⟨rfl, rfl⟩
  | some r =>
      obtain ⟨q, origin, picked⟩ := r
      right
      let talk : Stimulus := .event (Rules.talk npc option).name (Rules.talk npc option).payload
      rcases choose_cases now hchoice with ⟨-, answer, hr⟩
        | ⟨target, b, answer, htarget, hactive, helsewhere, hr⟩
      · have hstride := hj.stride (c := c) p.username now talk.amount?
        rw [← Rules.offerNews_progress _ _ _ _ hj.single,
          ← Rules.thread_progress _ _ _ _ hj.single] at hstride
        rw [hr, Rules.news_ruling_progress, Rules.Transition.journal_ruling]
        exact ⟨talk.amount?, hstride⟩
      · by_cases hid : id = quest
        · -- the quest that is talked about would be branched
          subst hid
          simp only [branches, target?, if_true, hchoice, Option.bind_some, htarget, hactive,
            decide_eq_false_iff_not, Classical.not_not] at hb
          exact absurd hb helsewhere
        · have htransition := transition_choose (c := c) hj p npc id option now
          simp only [stimulus?, target?, hchoice, Option.map_some, if_neg hid] at htransition
          cases htransition with
          | meet hstride => exact ⟨talk.amount?, hstride⟩

/-- Every operation that does not branch a quest is an `UnbranchedTransition` of it. -/
theorem Operation.unbranched {c : Catalog} {now : Instant} {op : Operation} {username : String}
    {rule : Journal → Ruling Answer} (h : op.plan c now = .consult username rule) {j : Journal}
    {quest : String} (hj : j.log.OrderlyAt quest) (hb : op.branches c now j quest = false)
    {q : Quest} (hq : c.get? quest = some q) (hvalid : q.Valid) {k : Nat}
    (ht : (j.thread quest).OnStep q k) :
    (((rule j).journal j).thread quest).UnbranchedTransition q k op.meets
      ((rule j).news.filter (·.quest = quest)) := by
  have htransition := Operation.transition h hj
  cases op with
  | report u event payload =>
      cases htransition with
      | meet hstride => exact hstride.unbranched hq hvalid ht
  | poll p =>
      cases htransition with
      | meet hstride => exact hstride.unbranched hq hvalid ht
  | choose p npc id option =>
      cases h
      rw [Ruling.news_map, Ruling.journal_map]
      rcases choose_unbranched hj hb with ⟨hnews, hthread⟩ | ⟨amount?, hstride⟩
      · rw [hnews, hthread]
        exact .rests rfl rfl ht
      · exact hstride.unbranched hq hvalid ht
  | advanceTo u id step =>
      have hactive : j.isActive quest = true := by
        obtain ⟨a, s, ha, -⟩ := ht
        exact Option.isSome_iff_exists.mpr ⟨a, ha⟩
      cases htarget : (advanceTo u id step).target? c j quest with
      | none =>
          rw [htarget] at htransition
          exact QuestTransition.unbranched htransition ht
      | some target =>
          simp only [branches, hactive, htarget, Option.isSome_some, Bool.and_self] at hb
          cases hb
  | _ => exact QuestTransition.unbranched htransition ht

/-! ## Runs -/

def Turn.meets : Turn → Bool
  | perform _ op => op.meets
  | reload _ => false

/-- What a turn of a run does to one active quest of a player. -/
structure QuestTurn where
  turn : Turn
  /-- Whether the turn branches the quest, saved or not. -/
  branches : Bool
  /-- The notifications about the quest. -/
  news : List Notification
  /-- The step that the quest is on afterwards, if it is still active. -/
  here : Option String

namespace QuestTurn

/-- The completed steps of its notifications. -/
def stepEnds (p : QuestTurn) : List (String × Option String) := p.news.filterMap (·.stepEnd?)

/-- Whether one of its notifications is `quest:completed`. -/
def completes (p : QuestTurn) : Bool := p.news.any (·.isCompletion)

end QuestTurn

variable {ρ : Type} [Repository ρ] [TableRepository ρ]

namespace Engine

/-- Whether a turn branches a quest of the player of a lower-cased name. -/
def branches (e : Engine ρ) (key quest : String) (t : Turn) : Bool :=
  match t, e.reached? key t with
  | .perform c op, some j => op.branches e.catalog c.now j quest
  | _, _ => false

/-- The turns of a run up to the one after which a quest of a player is not active any more. -/
def walk (key quest : String) : Engine ρ → List Turn → List QuestTurn
  | _, [] => []
  | e, t :: turns =>
    if ((e.store.place key).log.thread quest).current.isSome then
      let after := (e.take t).engine
      ⟨t, e.branches key quest t, (e.take t).news.filter (·.isAbout key quest),
        ((after.store.place key).log.thread quest).current.map (·.step)⟩
        :: after.walk key quest turns
    else []

end Engine

/-- The turns take a quest from the step at position `k` on through the positions in order. -/
inductive StepwiseRun (q : Quest) : Nat → List QuestTurn → Prop
  | stop (k : Nat) : StepwiseRun q k []
  | rests {k : Nat} {s : Step} {p : QuestTurn} {rest : List QuestTurn} (hs : q.steps[k]? = some s)
      (hends : p.stepEnds = []) (hcompletes : p.completes = false) (hhere : p.here = some s.id)
      (hrest : StepwiseRun q k rest) : StepwiseRun q k (p :: rest)
  | moves {k : Nat} {s next : Step} {p : QuestTurn} {rest : List QuestTurn}
      (hmet : p.turn.meets = true)
      (hs : q.steps[k]? = some s) (hnext : q.steps[k + 1]? = some next)
      (hends : p.stepEnds = [(s.id, some next.id)]) (hcompletes : p.completes = false)
      (hhere : p.here = some next.id) (hrest : StepwiseRun q (k + 1) rest) :
      StepwiseRun q k (p :: rest)
  | dropped {k : Nat} {p : QuestTurn} (hmet : p.turn.meets = false) (hends : p.stepEnds = [])
      (hhere : p.here = none) : StepwiseRun q k [p]
  | finishes {k : Nat} {s : Step} {p : QuestTurn} (hmet : p.turn.meets = true)
      (hs : q.steps[k]? = some s) (hlast : q.steps[k + 1]? = none)
      (hends : p.stepEnds = [(s.id, none)]) (hcompletes : p.completes = true)
      (hhere : p.here = none) : StepwiseRun q k [p]

namespace Engine

/-- The invariant of a run between branches of a quest: it is on the step at position `k`, and the
quest log is orderly at it. -/
structure WalkInvariant (catalog : Catalog) (key quest : String) (q : Quest) (k : Nat)
    (e : Engine ρ) : Prop where
  catalog : e.catalog = catalog
  sound : e.store.Sound
  orderly : (e.store.place key).log.OrderlyAt quest
  here : ((e.store.place key).log.thread quest).OnStep q k

theorem take_orderlyAt {e : Engine ρ} (hs : e.store.Sound) {key quest : String}
    (ho : (e.store.place key).log.OrderlyAt quest) (t : Turn) :
    ((e.take t).engine.store.place key).log.OrderlyAt quest := by
  rcases take_cases hs t key with ⟨hlog, -⟩
    | ⟨c, op, username, rule, j, -, hplan, -, -, hj, hlog, -⟩
  · rw [hlog]
    exact ho
  · rw [hlog]
    exact Operation.orderlyAt_plan hplan (hj ▸ ho)

variable {catalog : Catalog} {key quest : String} {q : Quest} {k : Nat} {e : Engine ρ}

/-- Step lemma: a turn that does not branch the quest is an `UnbranchedTransition` of it. -/
theorem WalkInvariant.take (h : e.WalkInvariant catalog key quest q k)
    (hq : catalog.get? quest = some q)
    (hvalid : q.Valid) {t : Turn} (hb : e.branches key quest t = false) :
    (((e.take t).engine.store.place key).log.thread quest).UnbranchedTransition q k t.meets
      ((e.take t).news.filter (·.isAbout key quest)) := by
  obtain ⟨rfl, hs, ho, ht⟩ := h
  rcases take_cases hs t key with ⟨hlog, hnews, -⟩
    | ⟨c, op, username, rule, j, rfl, hplan, hkey, hreached, hj, hlog, hnews⟩
  · have hnone : (e.take t).news.filter (·.isAbout key quest) = [] := by
      refine List.filter_eq_nil_iff.mpr fun n hn habout => ?_
      exact hnews n hn (of_decide_eq_true (Bool.and_eq_true_iff.mp habout).1)
    rw [hlog, hnone]
    exact .rests rfl rfl ht
  · simp only [branches, hreached] at hb
    rw [hnews, Operation.news_about hplan j hkey, hlog]
    exact Operation.unbranched hplan (hj ▸ ho) hb hq hvalid
      (show (j.log.thread quest).OnStep q k from
      hj ▸ ht)

/-- Run lemma, by induction on the turns. -/
theorem WalkInvariant.walks (h : e.WalkInvariant catalog key quest q k)
    (hq : catalog.get? quest = some q)
    (hvalid : q.Valid) {turns : List Turn} (hkeep : ∀ t ∈ turns, t.Keeps catalog)
    (hb : ∀ p ∈ e.walk key quest turns, p.branches = false) :
    StepwiseRun q k (e.walk key quest turns) := by
  induction turns generalizing e k with
  | nil => exact .stop k
  | cons t turns ih =>
      obtain ⟨a, s, ha, hs, hstep⟩ := h.here
      have hactive : ((e.store.place key).log.thread quest).current.isSome = true :=
        Option.isSome_iff_exists.mpr ⟨a, ha⟩
      simp only [walk, hactive, if_true] at hb ⊢
      have hkeepTaken := hkeep t List.mem_cons_self
      have hkeepRest := fun t' ht' => hkeep t' (List.mem_cons_of_mem _ ht')
      have hunbranched := hb _ List.mem_cons_self
      have hbRest := fun p hp => hb p (List.mem_cons_of_mem _ hp)
      -- where the quest stays active, the rest of the run follows it on
      have hfollows : ∀ k', (((e.take t).engine.store.place key).log.thread quest).OnStep q k' →
          (e.take t).engine.WalkInvariant catalog key quest q k' := fun k' ht' =>
        ⟨(take_catalog h.sound (h.catalog ▸ hkeepTaken)).trans h.catalog, take_sound h.sound t,
          take_orderlyAt h.sound h.orderly t, ht'⟩
      -- where it does not, there is no rest of the walk
      have hover : (((e.take t).engine.store.place key).log.thread quest).current = none →
          (e.take t).engine.walk key quest turns = [] := by
        intro hnone
        cases turns with
        | nil => rfl
        | cons t' turns => simp only [walk, hnone, Option.isSome_none, Bool.false_eq_true, if_false]
      have hsilent : ∀ {news : List Notification}, news.countP (·.isCompletion) = 0 →
          news.any (·.isCompletion) = false := by
        intro news hnews
        exact List.any_eq_false.mpr (List.countP_eq_zero.mp hnews)
      rcases h.take hq hvalid hunbranched with ⟨hends, hnews, ht'⟩ | ⟨hmet, hends, ht'⟩
        | ⟨hmet, hs', hnext, hends, hnews, ht'⟩ | ⟨hmet, hs', hlast, hends, hnews, ht'⟩
      · obtain ⟨b, s', hb', hs', hstep'⟩ := id ht'
        cases hs.symm.trans hs'
        refine .rests hs hends (hsilent hnews) ?_ (ih (hfollows k ht') hkeepRest hbRest)
        simp only [hb', Option.map_some, hstep']
      · rw [hover ht']
        exact .dropped hmet hends (by simp only [ht', Option.map_none])
      · obtain ⟨b, s', hb', hs'', hstep'⟩ := id ht'
        cases hnext.symm.trans hs''
        refine .moves hmet hs' hnext hends (hsilent hnews) ?_
          (ih (hfollows (k + 1) ht') hkeepRest hbRest)
        simp only [hb', Option.map_some, hstep']
      · rw [hover ht']
        refine .finishes hmet hs' hlast hends ?_ (by simp only [ht', Option.map_none])
        exact List.any_eq_true.mpr (List.countP_pos_iff.mp (hnews ▸ Nat.one_pos))

/-- A start that succeeds or publishes anything establishes the invariant. -/
theorem WalkInvariant.of_start (hs : e.store.Sound) (hcatalog : e.catalog = catalog)
    {c : Circumstances}
    {p : Player} {force : Bool} {step : Option String}
    (h : (∃ a, (e.run c (.start p quest force step)).answer = .ok (.started a))
      ∨ (e.run c (.start p quest force step)).news ≠ []) :
    ∃ q k s, catalog.get? quest = some q ∧ Rules.startingStep? q step = some s
      ∧ (step = none → k = 0) ∧ q.steps[k]? = some s
      ∧ (e.run c (.start p quest force step)).news = [.started p.username quest s.id s.onStart]
      ∧ (e.run c (.start p quest force step)).engine.WalkInvariant catalog
        (playerKey p.username) quest q k := by
  obtain ⟨q, j, hq, hfetch, hinactive, -⟩ := run_start hs h
  have hid : q.id = quest := Catalog.id_of_get? hq
  have hplan : (Operation.start p quest force step).plan e.catalog c.now = .consult p.username
      fun j => (Rules.start q p force step c.now j).map .started := by
    simp only [Operation.plan, hq]
  have hdone := consulted_of_found hs hplan hfetch
  rcases Rules.start_cases q p force step c.now j with
    ⟨refusal, hr⟩ | ⟨s, hstarting, -, -, hr⟩
  · have hlook : (Rules.start q p force step c.now j).map Answer.started
        = .look (.error refusal) := by
      rw [hr]
      rfl
    have hnews := hdone.news
    rw [hlook] at hnews
    rcases h with ⟨a, hok⟩ | hheard
    · rw [answer_of_look hplan hfetch hlook] at hok
      cases hok
    · exact absurd hnews hheard
  · have hposition : ∃ k : Nat, (step = none → k = 0) ∧ q.steps[k]? = some s := by
      cases step with
      | none => exact ⟨0, fun _ => rfl, List.head?_eq_getElem?.symm.trans hstarting⟩
      | some id =>
          obtain ⟨k, hk⟩ := List.getElem?_of_mem (List.mem_of_find?_eq_some hstarting)
          exact ⟨k, fun hnone => (by cases hnone), hk⟩
    obtain ⟨k, hfirst, hs'⟩ := hposition
    have hlog := hdone.log
    have hnews := hdone.news
    simp only [hr] at hlog hnews
    have hactivated : j.isActive (Activation.start q s c.now).quest = false :=
      show j.isActive q.id = false from hid ▸ hinactive
    have hthread : ((j.activate (.start q s c.now)).log.thread quest).current
        = some (.start q s c.now) := by
      have hthread := Journal.thread_activate hactivated quest
      rw [if_pos (show (Activation.start q s c.now).quest = quest from hid)] at hthread
      exact congrArg Thread.current hthread
    refine ⟨q, k, s, hcatalog ▸ hq, hstarting, hfirst, hs', hid ▸ hnews,
      hdone.catalog.trans hcatalog, hdone.sound, ?_, ?_⟩
    · rw [hlog]
      refine ⟨?_, fun a ha => ?_⟩
      · exact Journal.single_activate (Journal.single_of_inactive hinactive) hactivated
      · cases ha.symm.trans hthread
        exact Activation.open_start ..
    · rw [hlog]
      exact ⟨_, s, hthread, hs', rfl⟩

end Engine

/-! ## What a walk shows -/

/-- The steps of a quest, from a position on, are completed in the order of the definition. -/
structure StepsInOrder (q : Quest) (k : Nat) (walk : List QuestTurn) : Prop where
  /-- The steps are completed one after another, each with the one that follows and the last
  one with none. -/
  order : walk.flatMap (·.stepEnds) <+: stepEnds (q.steps.drop k)
  /-- The current step is the one after the last that was completed. -/
  here : ∀ done p rest, walk = done ++ p :: rest → ∀ id, p.here = some id →
    ∃ s, q.steps[k + ((done ++ [p]).flatMap (·.stepEnds)).length]? = some s ∧ s.id = id
  /-- An event, a poll or a talk completes the quest exactly by completing the last step. -/
  completes : ∀ p ∈ walk, p.turn.meets = true →
    (p.completes = true ↔ ∃ id, (id, none) ∈ p.stepEnds)
  /-- Nothing else completes a step. -/
  met : ∀ p ∈ walk, p.stepEnds ≠ [] → p.turn.meets = true
  few : walk.countP (fun p => p.stepEnds ≠ []) ≤ q.steps.length - k

namespace StepwiseRun

variable {q : Quest} {k : Nat} {walk : List QuestTurn}

theorem order (h : StepwiseRun q k walk) :
    walk.flatMap (·.stepEnds) <+: stepEnds (q.steps.drop k) := by
  induction h with
  | stop => exact List.nil_prefix
  | rests _ hends _ _ _ ih => rw [List.flatMap_cons, hends]; exact ih
  | moves _ hs hnext hends _ _ _ ih =>
      rw [List.flatMap_cons, hends, stepEnds_drop hs, hnext]
      exact (List.prefix_cons_inj _).mpr ih
  | dropped _ hends => rw [List.flatMap_singleton, hends]; exact List.nil_prefix
  | finishes _ hs hlast hends =>
      rw [List.flatMap_singleton, hends, stepEnds_drop hs, hlast]
      exact (List.prefix_cons_inj _).mpr List.nil_prefix

theorem here (h : StepwiseRun q k walk) (done : List QuestTurn) (p : QuestTurn)
    (rest : List QuestTurn)
    (hwalk : walk = done ++ p :: rest) (id : String) (hhere : p.here = some id) :
    ∃ s, q.steps[k + ((done ++ [p]).flatMap (·.stepEnds)).length]? = some s ∧ s.id = id := by
  induction h generalizing done with
  | stop => cases done <;> cases hwalk
  | @rests k s first later hs hends _ hfirst _ ih =>
      rcases List.cons_eq_append_iff.mp hwalk with ⟨rfl, hp⟩ | ⟨done, rfl, hlater⟩
      · cases hp
        cases hfirst.symm.trans hhere
        exact ⟨s, by simpa [hends] using hs, rfl⟩
      · obtain ⟨s', hs', hid⟩ := ih done hlater
        exact ⟨s', by simpa [hends] using hs', hid⟩
  | @moves k s next first later _ _ hnext hends _ hfirst _ ih =>
      rcases List.cons_eq_append_iff.mp hwalk with ⟨rfl, hp⟩ | ⟨done, rfl, hlater⟩
      · cases hp
        cases hfirst.symm.trans hhere
        exact ⟨next, by simpa [hends] using hnext, rfl⟩
      · obtain ⟨s', hs', hid⟩ := ih done hlater
        refine ⟨s', ?_, hid⟩
        rw [List.cons_append, List.flatMap_cons, List.length_append, hends, List.length_singleton,
          ← Nat.add_assoc]
        exact hs'
  | dropped _ _ hfirst =>
      rcases List.cons_eq_append_iff.mp hwalk with ⟨rfl, hp⟩ | ⟨done, rfl, hlater⟩
      · cases hp
        cases hfirst.symm.trans hhere
      · cases done <;> cases hlater
  | finishes _ _ _ _ _ hfirst =>
      rcases List.cons_eq_append_iff.mp hwalk with ⟨rfl, hp⟩ | ⟨done, rfl, hlater⟩
      · cases hp
        cases hfirst.symm.trans hhere
      · cases done <;> cases hlater

/-- Only a turn that runs `Rules.progress` completes a step, and it completes the quest exactly with
the last one. -/
theorem completes (h : StepwiseRun q k walk) : ∀ p ∈ walk, (p.stepEnds ≠ [] → p.turn.meets = true)
    ∧ (p.turn.meets = true → (p.completes = true ↔ ∃ id, (id, none) ∈ p.stepEnds)) := by
  induction h with
  | stop => exact fun p hp => absurd hp List.not_mem_nil
  | rests _ hends hcompletes _ _ ih =>
      exact List.forall_mem_cons.mpr ⟨by simp [hends, hcompletes], ih⟩
  | moves hmet _ _ hends hcompletes _ _ ih =>
      exact List.forall_mem_cons.mpr ⟨by simp [hmet, hends, hcompletes], ih⟩
  | dropped hmet hends => exact List.forall_mem_singleton.mpr (by simp [hmet, hends])
  | finishes hmet _ _ hends hcompletes =>
      exact List.forall_mem_singleton.mpr (by simp [hmet, hends, hcompletes])

theorem few (h : StepwiseRun q k walk) :
    walk.countP (fun p => p.stepEnds ≠ []) ≤ q.steps.length - k := by
  induction h with
  | stop => exact Nat.zero_le _
  | rests _ hends _ _ _ ih => simpa [List.countP_cons, hends] using ih
  | @moves k s next p rest _ _ hnext hends _ _ _ ih =>
      have hk : k + 1 < q.steps.length := (List.getElem?_eq_some_iff.mp hnext).1
      have hcount : (p :: rest).countP (fun p => p.stepEnds ≠ [])
          = rest.countP (fun p => p.stepEnds ≠ []) + 1 :=
        List.countP_cons_of_pos (by simp [hends])
      omega
  | dropped _ hends => simp [hends]
  | @finishes k s p _ hs _ hends =>
      have hk : k < q.steps.length := (List.getElem?_eq_some_iff.mp hs).1
      have hcount : [p].countP (fun p => p.stepEnds ≠ []) ≤ 1 := List.countP_le_length
      omega

theorem inOrder (h : StepwiseRun q k walk) : StepsInOrder q k walk where
  order := h.order
  here := h.here
  completes p hp := (h.completes p hp).2
  met p hp := (h.completes p hp).1
  few := h.few

end StepwiseRun

/-- **Steps are walked in definition order.** Over any repository and under one catalog of valid
quests, whatever fails: from a start on, and as long as no turn branches it, a quest completes
its steps in the order of the definition, each once and without a gap; it is always on the step
after the last that was completed; and events, polls and talks complete it exactly by completing
the last step. So no more turns complete a step than there are steps from the first one on.

An `advanceTo` that cannot be saved counts as a branch, although it is answered with the error:
the journal in use is on the other step, and the news of it is published. -/
theorem walked_in_order (catalog : Catalog) (hvalid : catalog.Valid) (repository : ρ)
    (hkeyed : Keyed (TableRepository.records repository)) (limit : Nat) (before turns : List Turn)
    (hkeep : ∀ t ∈ before ++ turns, t.Keeps catalog) (c : Circumstances) (p : Player)
    (quest : String) (force : Bool) (step : Option String) :
    let e := (Engine.new catalog repository limit).after before
    let started := e.run c (.start p quest force step)
    let walk := started.engine.walk (playerKey p.username) quest turns
    (∃ a, started.answer = .ok (.started a)) ∨ started.news ≠ [] →
    (∀ turn ∈ walk, turn.branches = false) →
    ∃ q k s, catalog.get? quest = some q ∧ Rules.startingStep? q step = some s
      ∧ (step = none → k = 0) ∧ q.steps[k]? = some s
      ∧ started.news = [.started p.username quest s.id s.onStart] ∧ StepsInOrder q k walk := by
  intro e started walk hstarted hunbranched
  obtain ⟨hbefore, hturns⟩ := List.forall_mem_append.mp hkeep
  have hnew := Store.sound_new hkeyed limit
  have hcatalog : e.catalog = catalog := Engine.after_catalog hnew hbefore
  obtain ⟨q, k, s, hq, hs, hfirst, hposition, hnews, hfollows⟩ :=
    Engine.WalkInvariant.of_start (Engine.after_sound hnew before) hcatalog hstarted
  have hwalks := hfollows.walks hq (hvalid quest q hq) hturns hunbranched
  exact ⟨q, k, s, hq, hs, hfirst, hposition, hnews, hwalks.inOrder⟩

/-- The hunt is walked from the first step to the last, although the start could not be saved
and a reading in between failed. -/
theorem walked_in_order_ratHunt :
    let catalog := Catalog.ofQuests [ratHunt]
    let e := Engine.new catalog MemoryRepository.empty 5000
    let started := e.run unsaved (.start (.named "Ann" 1) "rats" false none)
    let turns := [Turn.perform (.calm .epoch) (.ingest "ANN" (.npcDeath "rat")),
      .perform (.calm .epoch) (.evict "ann"),
      .perform unloaded (.ingest "ann" (.npcDeath "rat")),
      .perform unsaved (.ingest "ann" (.npcDeath "rat")),
      .perform (.calm .epoch) (.choose (.named "ann" 1) "warden" "rats" "done")]
    let walk := started.engine.walk (playerKey "Ann") "rats" turns
    catalog.Valid ∧ Keyed (TableRepository.records MemoryRepository.empty)
      ∧ (∀ t ∈ [] ++ turns, t.Keeps catalog) ∧ started.news ≠ []
      ∧ (∀ turn ∈ walk, turn.branches = false)
      ∧ walk.flatMap (·.stepEnds) = [("cull", some "tell"), ("tell", none)]
      ∧ ∃ q k, StepsInOrder q k walk := by
  intro catalog e started turns walk
  have hkeep : ∀ t ∈ [] ++ turns, t.Keeps catalog := by simp [turns, Turn.Keeps]
  have hstarted : started.news ≠ [] := by decide +kernel
  have hunbranched : ∀ turn ∈ walk, turn.branches = false := by decide +kernel
  obtain ⟨q, k, -, -, -, -, -, -, hwalks⟩ := walked_in_order catalog valid_ratHunt
    MemoryRepository.empty keyed_empty 5000 [] turns hkeep unsaved (.named "Ann" 1) "rats" false
    none (Or.inr hstarted) hunbranched
  exact ⟨valid_ratHunt, keyed_empty, hkeep, hstarted, hunbranched, by decide +kernel, q, k, hwalks⟩

/-- Ann is on the second step when she is sent back to the first. She is told that this failed, as
it could not be saved, and yet two more rats complete the first step a second time. -/
example :
    let catalog := Catalog.ofQuests [ratHunt]
    let e := Engine.new catalog MemoryRepository.empty 5000
    let started := e.run (.calm .epoch) (.start (.named "Ann" 1) "rats" false none)
    let kill := Turn.perform (.calm .epoch) (.ingest "ann" (.npcDeath "rat"))
    let back := Turn.perform unsaved (.advanceTo "ann" "rats" "cull")
    let walk := started.engine.walk "ann" "rats" [kill, kill, back, kill, kill]
    ((started.engine.after [kill, kill]).take back).answer = .error (.storage (.timeout 5000))
      ∧ walk.map (·.branches) = [false, false, true, false, false]
      ∧ walk.flatMap (·.stepEnds)
        = [("cull", some "tell"), ("tell", some "cull"), ("cull", some "tell")] := by
  decide +kernel

end Questline
