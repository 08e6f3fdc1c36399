import Questline.Proofs.Tally

/-!
# Objectives that share a counter

The counters of a step are kept by objective id, and nothing keeps two objectives of a step from
having one id: `Quest.defect?` looks at the step ids only. Objectives of one id share a counter.
When the step is entered, the counter is that of the last of them (`Step.freshCounter?`); when the
player meets something, it is moved by each of them that this selects, one after another
(`Step.movedCounter?`).

That is all that happens to a counter. By any operation, the counters of a step that is entered are
fresh, those of the step that the quest is on are moved, and those of other steps stay
(`QuestTransition.counterEffect`, `counters_by_id`). Where no two objectives of a step share an id,
each has a counter of its own, which it alone moves, and at most once.
-/

namespace Questline

/-! ## The counters of a quest -/

namespace Activation

theorem counter?_setCurrentProgress (a : Activation) (p : StepProgress) (step id : String) :
    (a.setCurrentProgress p).counter? step id
      = if a.step = step then p.counters.get? id else a.counter? step id := by
  unfold counter? setCurrentProgress
  rw [Dict.get?_insert]
  split <;> rfl

theorem counter?_enter (a : Activation) (s : Step) (now : Instant) (step id : String) :
    (a.enter s now).counter? step id
      = if s.id = step then s.freshCounter? id else a.counter? step id := by
  unfold counter? enter
  rw [Dict.get?_insert]
  split
  · exact StepProgress.counters_start s now id
  · rfl

theorem counter?_start (q : Quest) (s : Step) (now : Instant) (step id : String) :
    (Activation.start q s now).counter? step id
      = if s.id = step then s.freshCounter? id else none :=
  counter?_enter ⟨q.id, s.id, now, ∅, ∅⟩ s now step id

/-- A branch moves no counter of the step that it leaves. -/
theorem counter?_branch {a : Activation} (ha : a.Open) (q : Quest) (target : Step)
    (origin username : String) (now : Instant) (step id : String) :
    (Rules.branch q target origin username now a).1.counter? step id
      = if target.id = step then target.freshCounter? id else a.counter? step id := by
  obtain ⟨p, hp, -⟩ := ha
  have hleft : ∀ p' : StepProgress, p'.counters = p.counters →
      ((a.setCurrentProgress p').enter target now).counter? step id
        = if target.id = step then target.freshCounter? id else a.counter? step id := by
    intro p' hcounters
    rw [counter?_enter, counter?_setCurrentProgress, hcounters]
    congr 1
    split
    · rename_i hstep
      subst hstep
      rw [counter?, hp, Option.bind_some]
    · rfl
  simp only [Rules.branch]
  split
  · exact counter?_enter ..
  · rename_i s _
    rw [currentProgress_of_recorded hp]
    split
    · exact hleft _ rfl
    · exact hleft _ rfl

end Activation

namespace Thread

/-- The counter under an id of a step of the quest. -/
def counter? (t : Thread) (step id : String) : Option Counter :=
  t.current.bind (·.counter? step id)

/-- The same after a stimulus, if any: `Rules.offer` moves counters of the step that the quest is
on, where the catalog knows that step. -/
def movedCounter? (c : Catalog) (quest : String) (met? : Option Stimulus) (t : Thread)
    (step id : String) : Option Counter :=
  match met?, t.position? c quest with
  | some met, some (_, a, s) =>
    if a.step = step then s.movedCounter? met.amount? id (t.counter? step id)
    else t.counter? step id
  | _, _ => t.counter? step id

/-- One of the notifications names a step as entered. -/
def Enters (news : List Notification) (step : String) : Prop :=
  ∃ n ∈ news, n.entered? = some step

/-- The effect of an operation on the counters of a quest that is active afterwards. -/
structure CounterEffect (c : Catalog) (quest : String) (met? : Option Stimulus) (t : Thread)
    (news : List Notification) (a : Activation) : Prop where
  /-- The counters of a step that is entered are those of its objectives, by id. -/
  fresh : ∀ step, Enters news step → ∃ q s, c.get? quest = some q ∧ q.step? step = some s
    ∧ ∀ id, a.counter? step id = s.freshCounter? id
  /-- Those of other steps are moved by the stimulus, and by nothing else. -/
  moved : ∀ step, ¬ Enters news step → ∀ id,
    a.counter? step id = t.movedCounter? c quest met? step id

/-- Where no two objectives of a step share an id, each has a counter of its own, which changes only
if the stimulus moves that objective, and then once. -/
theorem CounterEffect.own {c : Catalog} {quest : String} {met? : Option Stimulus} {t : Thread}
    {news : List Notification} {a : Activation} (h : t.CounterEffect c quest met? news a)
    {q : Quest} (hq : c.get? quest = some q) {s : Step} (hs : q.step? s.id = some s)
    (hnodup : (s.objectives.map (·.id)).Nodup) {o : Objective} (ho : o ∈ s.objectives) :
    (Enters news s.id → a.counter? s.id o.id = some ⟨0, o.requiredCount, false⟩)
      ∧ (¬ Enters news s.id → ∀ counter, t.counter? s.id o.id = some counter →
        a.counter? s.id o.id = some counter
          ∨ ∃ met b amount, met? = some met ∧ t.current = some b ∧ b.step = s.id
            ∧ met.amount? o = some amount
            ∧ a.counter? s.id o.id = some (counter.apply amount).1) := by
  refine ⟨fun hstep => ?_, fun hstep counter hcounter => ?_⟩
  · obtain ⟨q', s', hq', hs', hfresh⟩ := h.fresh s.id hstep
    cases hq.symm.trans hq'
    cases hs.symm.trans hs'
    rw [hfresh, Step.freshCounter?_of_nodup hnodup ho,
      Counter.fresh_eq o.one_le_requiredCount]
  · rw [h.moved s.id hstep]
    unfold movedCounter?
    split
    · rename_i met q' b s' hposition
      obtain ⟨hq', hb, hs'⟩ := position?_eq_some.mp hposition
      cases hq.symm.trans hq'
      split
      · rename_i hcurrent
        rw [hcurrent] at hs'
        cases hs.symm.trans hs'
        rw [Step.movedCounter?_of_nodup hnodup ho, hcounter]
        cases hamount : met.amount? o with
        | none =>
            refine Or.inl ?_
            rw [Objective.moves, hamount]
        | some amount =>
            refine Or.inr ⟨met, b, amount, rfl, hb, hcurrent, hamount, ?_⟩
            rw [Objective.moves, hamount]
            rfl
      · exact Or.inl hcounter
    · exact Or.inl hcounter

section

variable {c : Catalog} {username : String} {now : Instant} {quest : String}

theorem movedCounter?_of_position {t : Thread} {q : Quest} {a : Activation} {s : Step}
    (h : t.position? c quest = some (q, a, s)) (met : Stimulus) (step id : String) :
    t.movedCounter? c quest (some met) step id
      = if a.step = step then s.movedCounter? met.amount? id (t.counter? step id)
        else t.counter? step id := by
  unfold movedCounter?
  rw [h]

theorem enters_append {news later : List Notification} {step : String} :
    Enters (news ++ later) step ↔ Enters news step ∨ Enters later step := by
  unfold Enters
  simp only [List.mem_append, or_and_right, exists_or]

theorem enters_singleton {n : Notification} {step : String} :
    Enters [n] step ↔ n.entered? = some step := by
  unfold Enters
  simp only [List.mem_singleton, exists_eq_left]

theorem not_enters_counterNews {amount? : Objective → Option Amount} {a : Activation}
    (o : Offering c amount? quest a) (step : String) : ¬ Enters (o.counterNews username) step := by
  rintro ⟨n, hn, hstep⟩
  obtain ⟨m, -, rfl⟩ := List.mem_map.mp hn
  cases hstep

/-- Offered amounts move the counters of the step that the quest is on. -/
theorem counter?_offered {met : Stimulus} {a : Activation} (o : Offering c met.amount? quest a)
    (count : Option UInt32) {p : StepProgress} (hp : p.counters = o.after.counters)
    (step id : String) :
    (a.setCurrentProgress p).counter? step id
      = movedCounter? c quest (some met) ⟨some a, count⟩ step id := by
  have hposition := position?_of_known (t := ⟨some a, count⟩) o.known rfl o.onStep
  have hafter := Rules.counters_offer met.amount? id o.s.objectives o.before
  rw [o.offered] at hafter
  rw [Activation.counter?_setCurrentProgress, hp, movedCounter?_of_position hposition]
  split
  · rename_i hstep
    subst hstep
    have hbefore : counter? ⟨some a, count⟩ a.step id = o.before.counters.get? id := by
      show (a.progress.get? a.step).bind _ = _
      rw [o.recorded]
      rfl
    rw [hbefore]
    exact hafter
  · rfl

theorem counterEffect_of_stride (hc : c.Valid) {met : Stimulus} {t t' : Thread}
    {news : List Notification} (h : QuestStride c username now quest met.amount? t news t')
    {a' : Activation} (ha' : t'.current = some a') :
    t.CounterEffect c quest (some met) news a' := by
  cases h with
  | idle hposition =>
      refine ⟨fun _ ⟨_, hn, _⟩ => absurd hn List.not_mem_nil, fun step _ id => ?_⟩
      unfold movedCounter?
      rw [hposition, counter?, ha']
      rfl
  | @update a count o =>
      cases ha'
      exact ⟨fun step hstep => absurd hstep (not_enters_counterNews o step),
        fun step _ id => counter?_offered o count rfl step id⟩
  | @advance a count o _ next hnext =>
      cases ha'
      have henters : ∀ step, Enters (o.counterNews username ++ [.stepCompleted username quest o.s.id
          (some next.id) (o.s.onComplete ++ next.onStart)]) step ↔ next.id = step := by
        intro step
        rw [enters_append, enters_singleton, or_iff_right (not_enters_counterNews o step)]
        exact Option.some_inj
      refine ⟨fun step hstep => ?_, fun step hstep id => ?_⟩
      · obtain rfl := (henters step).mp hstep
        refine ⟨o.q, next, o.known, (hc _ _ o.known).step?_of_nextStep? hnext, fun id => ?_⟩
        rw [Activation.counter?_enter, if_pos rfl]
      · rw [Activation.counter?_enter, if_neg fun hid => hstep ((henters step).mpr hid)]
        exact counter?_offered o count (p := o.after.complete now) rfl step id
  | complete => cases ha'

/-- `CounterEffect` for a branch after the stimulus. -/
theorem CounterEffect.branch {met? : Option Stimulus} {t : Thread} {news : List Notification}
    {b : Activation} (h : t.CounterEffect c quest met? news b) (hb : b.Open) {q : Quest}
    {target : Step} (hq : c.get? quest = some q) (htarget : q.step? target.id = some target)
    (origin : String) :
    let r := Rules.branch q target origin username now b
    t.CounterEffect c quest met? (news ++ [r.2]) r.1 := by
  intro r
  have henters : ∀ step, Enters (news ++ [r.2]) step ↔ Enters news step ∨ target.id = step := by
    intro step
    rw [enters_append, enters_singleton]
    exact or_congr_right Option.some_inj
  refine ⟨fun step hstep => ?_, fun step hstep id => ?_⟩
  · by_cases hid : target.id = step
    · subst hid
      refine ⟨q, target, hq, htarget, fun id => ?_⟩
      rw [Activation.counter?_branch hb, if_pos rfl]
    · obtain ⟨q', s, hq', hs, hfresh⟩ := h.fresh step (((henters step).mp hstep).resolve_right hid)
      refine ⟨q', s, hq', hs, fun id => ?_⟩
      rw [Activation.counter?_branch hb, if_neg hid, hfresh]
  · obtain ⟨hnews, hid⟩ := not_or.mp fun hor => hstep ((henters step).mpr hor)
    rw [Activation.counter?_branch hb, if_neg hid, h.moved step hnews]

/-- `CounterEffect` without a stimulus, where no step is entered and every counter stays. -/
theorem counterEffect_of_still {t : Thread} {a : Activation}
    (h : ∀ step id, a.counter? step id = t.counter? step id) : t.CounterEffect c quest none [] a :=
  ⟨fun _ ⟨_, hn, _⟩ => absurd hn List.not_mem_nil, fun step _ id => h step id⟩

end

end Thread

/-- Every transition `CounterEffect` the counters of its quest. -/
theorem QuestTransition.counterEffect {c : Catalog} (hc : c.Valid) {username : String}
    {now : Instant} {quest : String} {met? : Option Stimulus} {target? : Option Step}
    {t t' : Thread} {news : List Notification}
    (h : QuestTransition c username now quest met? target? t news t') (ht : t.Open)
    {a' : Activation} (ha' : t'.current = some a') :
    t.CounterEffect c quest met? news a' := by
  cases h with
  | stay =>
      refine Thread.counterEffect_of_still fun step id => ?_
      rw [Thread.counter?, ha']
      rfl
  | @start q s count hq hs =>
      cases ha'
      have henters : ∀ step, Thread.Enters [.started username quest s.id s.onStart] step
          ↔ s.id = step := fun step => Thread.enters_singleton.trans Option.some_inj
      refine ⟨fun step hstep => ?_, fun step hstep id => ?_⟩
      · obtain rfl := (henters step).mp hstep
        refine ⟨q, s, hq, hs, fun id => ?_⟩
        rw [Activation.counter?_start, if_pos rfl]
      · rw [Activation.counter?_start, if_neg fun hid => hstep ((henters step).mpr hid)]
        rfl
  | abandon => cases ha'
  | complete => cases ha'
  | fail => cases ha'
  | setVariable =>
      cases ha'
      exact Thread.counterEffect_of_still fun _ _ => rfl
  | meet hstride => exact Thread.counterEffect_of_stride hc hstride ha'
  | @branch q target a count hq htarget =>
      cases ha'
      exact (Thread.counterEffect_of_still fun _ _ => rfl).branch (ht a rfl) hq htarget a.step
  | @talk stimulus q target a b count count' news hq htarget hstride =>
      cases ha'
      exact (Thread.counterEffect_of_stride hc hstride rfl).branch (hstride.opened ht b rfl) hq
        htarget a.step

/-! ## Runs -/

variable {ρ : Type} [Repository ρ] [TableRepository ρ]

/-- Every turn `CounterEffect` the counters of a quest. -/
theorem Engine.take_counterEffect {e : Engine ρ} (hs : e.store.Sound) (ho : e.Orderly)
    (hc : e.catalog.Valid) (t : Turn) (key quest : String) {a' : Activation}
    (ha' : (((e.take t).engine.store.place key).log.thread quest).current = some a') :
    ((e.store.place key).log.thread quest).CounterEffect e.catalog quest (e.met? key t)
      ((e.take t).news.filter (·.isAbout key quest)) a' := by
  rcases take_transition hs t ((ho key).at quest) with ⟨hthread, hnews, hreached⟩
    | ⟨c, op, username, rule, j, rfl, -, hreached, -, htransition⟩
  · have hmet : e.met? key t = none := by
      cases t with
      | perform c op =>
          simp only [met?, hreached]
          rfl
      | reload catalog => rfl
    rw [hthread] at ha'
    rw [hnews, hmet]
    refine Thread.counterEffect_of_still fun step id => ?_
    rw [Thread.counter?, ha']
    rfl
  · have hmet : e.met? key (.perform c op) = op.stimulus? e.catalog j := by
      simp only [met?, hreached]
      rfl
    rw [hmet]
    exact htransition.counterEffect hc ((ho key).opened quest) ha'

/-- **Counters are kept by objective id.** In a run over an empty repository, with any catalogs, as
long as the quests that are known now are valid: whatever is done next, the counters of every quest
that is active afterwards are those of its objectives by id where a step is entered, and else those
from before, moved by the stimulus through each objective of the id that it selects. So
where no two objectives of a step share an id, an objective starts at nothing of what it requires,
and its counter changes only if the objective itself is selected, and then by one amount. -/
theorem counters_by_id (catalog : Catalog) (repository : ρ)
    (hempty : TableRepository.records repository = ∅) (limit : Nat) (turns : List Turn)
    (hvalid : ((Engine.new catalog repository limit).after turns).catalog.Valid) (t : Turn)
    (c c' : Circumstances) (username : String) (j j' : Journal)
    (hbefore : (((Engine.new catalog repository limit).after turns).store.fetch c username).result
      = .ok j)
    (hafter : ((((Engine.new catalog repository limit).after turns).take t).engine.store.fetch c'
      username).result = .ok j') (a : Activation) (ha : a ∈ j'.active) :
    let e := (Engine.new catalog repository limit).after turns
    let met? := e.met? (playerKey username) t
    let news := (e.take t).news.filter (·.isAbout (playerKey username) a.quest)
    (j.thread a.quest).CounterEffect e.catalog a.quest met? news a
      ∧ ∀ q s, e.catalog.get? a.quest = some q → q.step? s.id = some s →
        (s.objectives.map (·.id)).Nodup → ∀ o ∈ s.objectives,
        (Thread.Enters news s.id → a.counter? s.id o.id = some ⟨0, o.requiredCount, false⟩)
        ∧ (¬ Thread.Enters news s.id →
          ∀ counter, (j.thread a.quest).counter? s.id o.id = some counter →
          a.counter? s.id o.id = some counter
            ∨ ∃ met b amount, met? = some met ∧ j.activation? a.quest = some b ∧ b.step = s.id
              ∧ met.amount? o = some amount
              ∧ a.counter? s.id o.id = some (counter.apply amount).1) := by
  intro e met? news
  have hs : e.store.Sound := Engine.after_sound (Engine.sound_new catalog hempty limit) turns
  have ho : e.Orderly := Engine.after_orderly (Engine.sound_new catalog hempty limit)
    (Engine.orderly_new catalog hempty limit) turns
  have hj : j.log = (e.store.place (playerKey username)).log := by
    rw [Engine.fetch_result_eq_opened hbefore, Store.log_opened]
  have hj' : j'.log = ((e.take t).engine.store.place (playerKey username)).log := by
    rw [Engine.fetch_result_eq_opened hafter, Store.log_opened]
  have hdistinct : j'.log.Distinct := by
    rw [hj']
    exact (Engine.take_orderly hs ho t (playerKey username)).distinct
  have hactive : (((e.take t).engine.store.place (playerKey username)).log.thread a.quest).current
      = some a := by
    rw [← hj']
    exact Journal.activation?_of_mem hdistinct ha
  have heffect := Engine.take_counterEffect hs ho hvalid t (playerKey username) a.quest hactive
  rw [← hj] at heffect
  exact ⟨heffect, fun q s hq hstep hnodup o hobjective =>
    heffect.own hq hstep hnodup hobjective⟩

/-- Four rats are to be killed, and four rats, both under one id. -/
def twinHunt : Quest where
  id := "rats"
  name := "Rats"
  description := ""
  category := .side
  repeatable := false
  cooldown := none
  prerequisites := .none
  steps :=
    [{ id := "cull", name := "Cull", description := "",
        objectives :=
          [⟨"kills", "", some 4, .killMob "rat"⟩, ⟨"kills", "", some 4, .killMob "rat"⟩],
        dialogues := ∅, onStart := [], onComplete := [], requireAll := true }]
  rewards := none
  chain := none

/-- One rat moves the counter of the hunt with one objective by one, and that of the twins by
two. -/
theorem counters_by_id_ratHunt :
    let turns := [Turn.perform (.calm .epoch) (.start (.named "ann" 1) "rats" false none)]
    let t := Turn.perform (.calm .epoch) (.ingest "ann" (.npcDeath "rat"))
    let once := (Engine.new (Catalog.ofQuests [ratHunt]) MemoryRepository.empty 5000).after turns
    let twice := (Engine.new (Catalog.ofQuests [twinHunt]) MemoryRepository.empty 5000).after turns
    let j := once.store.opened (.calm .epoch) "ann"
    let j' := (once.take t).engine.store.opened (.calm .epoch) "ann"
    let k := twice.store.opened (.calm .epoch) "ann"
    let k' := (twice.take t).engine.store.opened (.calm .epoch) "ann"
    let a := j'.active.head (by decide)
    let b := k'.active.head (by decide)
    TableRepository.records MemoryRepository.empty = ∅
      ∧ once.catalog.Valid ∧ twice.catalog.Valid
      ∧ (once.store.fetch (.calm .epoch) "ann").result = .ok j
      ∧ ((once.take t).engine.store.fetch (.calm .epoch) "ann").result = .ok j'
      ∧ (twice.store.fetch (.calm .epoch) "ann").result = .ok k
      ∧ ((twice.take t).engine.store.fetch (.calm .epoch) "ann").result = .ok k'
      ∧ a ∈ j'.active ∧ b ∈ k'.active
      ∧ (j.thread "rats").counter? "cull" "kills" = some ⟨0, 2, false⟩
      ∧ a.counter? "cull" "kills" = some ⟨1, 2, false⟩
      ∧ (k.thread "rats").counter? "cull" "kills" = some ⟨0, 4, false⟩
      ∧ b.counter? "cull" "kills" = some ⟨2, 4, false⟩ := by
  intro turns t once twice j j' k k' a b
  have hvalid : once.catalog.Valid := valid_ratHunt
  have htwins : twice.catalog.Valid := Catalog.valid_ofQuests fun q hq => by
    rw [List.mem_singleton.mp hq]
    decide
  have ha : a ∈ j'.active := List.head_mem _
  have hb : b ∈ k'.active := List.head_mem _
  obtain ⟨-, hown⟩ := counters_by_id _ MemoryRepository.empty rfl 5000 turns hvalid t
    (.calm .epoch) (.calm .epoch) "ann" j j' (by rfl) (by rfl) a ha
  obtain ⟨htwin, -⟩ := counters_by_id _ MemoryRepository.empty rfl 5000 turns htwins t
    (.calm .epoch) (.calm .epoch) "ann" k k' (by rfl) (by rfl) b hb
  have hone : a.counter? "cull" "kills" = some ⟨1, 2, false⟩ := by
    obtain ⟨-, hmoved⟩ := hown ratHunt (ratHunt.steps.head (by decide)) (by rfl) (by rfl)
      (by decide) ⟨"kills", "", some 2, .killMob "rat"⟩ (by decide)
    rcases hmoved (by unfold Thread.Enters; decide +kernel) ⟨0, 2, false⟩ (by decide +kernel)
      with hstill | ⟨met, _, amount, hmet, -, -, hamount, hafter⟩
    · exact absurd hstill (by decide +kernel)
    · cases hmet
      cases hamount
      exact hafter
  have htwo : b.counter? "cull" "kills" = some ⟨2, 4, false⟩ := by
    rw [htwin.moved "cull" (by unfold Thread.Enters; decide +kernel) "kills"]
    decide +kernel
  exact ⟨rfl, hvalid, htwins, by rfl, by rfl, by rfl, by rfl, ha, hb, by decide +kernel, hone,
    by decide +kernel, htwo⟩

/-- The quest of the twins is valid, and its step has one entry for two objectives. A rat is one
kill for each of them, and the entry is at two. -/
theorem twins_share_counter :
    let start := Turn.perform (.calm .epoch) (.start (.named "ann" 1) "rats" false none)
    let kill := Turn.perform (.calm .epoch) (.ingest "ann" (.npcDeath "rat"))
    let e := (Engine.new (Catalog.ofQuests [twinHunt]) MemoryRepository.empty 5000).after [start]
    let entries := fun e : Engine MemoryRepository =>
      ((e.store.opened (.calm .epoch) "ann").activation? "rats").bind fun a =>
        (a.progress.get? "cull").map (·.counters.entries)
    twinHunt.Valid
      ∧ twinHunt.steps.map (·.objectives.length) = [2]
      ∧ (∀ s ∈ twinHunt.steps, ∀ o ∈ s.objectives,
        o.id = "kills" ∧ (e.met? "ann" kill).bind (·.amount? o) = some (.increment 1))
      ∧ entries e = some [("kills", ⟨0, 4, false⟩)]
      ∧ entries (e.take kill).engine = some [("kills", ⟨2, 4, false⟩)] := by
  decide +kernel

end Questline
