import Questline.Proofs.Thread

/-!
# The transition relation of one quest

`QuestTransition` relates the thread of a quest before an operation to the thread after it and to
the notifications about the quest, with one constructor for each effect that an operation can have.
`Operation.transition` is its inversion lemma: whatever the operation, the rule that
`Operation.plan` applies to a journal takes the thread of every quest through one of these
transitions. The proofs about one operation after this one are case analyses of it.

The part of it that `Rules.advanceQuest` is responsible for, the outcomes of `Rules.stride`, is
`QuestStride`.

Both need a quest log that is orderly at the quest (`QuestLog.OrderlyAt`): the quest is not active
twice, and if it is active, its current step has its progress recorded and is not completed. Every
quest log that an engine keeps is orderly at all quests (`QuestLog.Orderly`) if it starts without
one.
-/

namespace Questline

/-! ## Orderly quest logs -/

/-- The current step has its progress recorded and is not completed. -/
def Activation.Open (a : Activation) : Prop :=
  ∃ p, a.progress.get? a.step = some p ∧ p.completed = false

def Thread.Open (t : Thread) : Prop := ∀ a, t.current = some a → a.Open

structure QuestLog.Orderly (l : QuestLog) : Prop where
  distinct : l.Distinct
  opened : ∀ quest, (l.thread quest).Open

theorem QuestLog.orderly_blank : QuestLog.blank.Orderly where
  distinct := QuestLog.distinct_blank
  opened _ _ h := by cases h

structure QuestLog.OrderlyAt (l : QuestLog) (quest : String) : Prop where
  single : l.Single quest
  opened : (l.thread quest).Open

theorem QuestLog.Orderly.at {l : QuestLog} (h : l.Orderly) (quest : String) : l.OrderlyAt quest :=
  ⟨QuestLog.distinct_iff.mp h.distinct quest, h.opened quest⟩

namespace Activation

theorem open_start (q : Quest) (s : Step) (now : Instant) : (Activation.start q s now).Open :=
  ⟨StepProgress.start s now, by simp [start], rfl⟩

theorem open_enter (a : Activation) (s : Step) (now : Instant) : (a.enter s now).Open :=
  ⟨StepProgress.start s now, by simp [enter], rfl⟩

theorem open_setCurrentProgress (a : Activation) {p : StepProgress} (h : p.completed = false) :
    (a.setCurrentProgress p).Open :=
  ⟨p, by simp [setCurrentProgress], h⟩

theorem currentProgress_of_recorded {a : Activation} {p : StepProgress}
    (h : a.progress.get? a.step = some p) (s : Step) (now : Instant) :
    a.currentProgress s now = p := by
  unfold currentProgress
  rw [h]
  rfl

end Activation

/-- `Rules.offer` changes counters only: the mark that the step is completed stays. -/
theorem Rules.completed_offer (amount? : Objective → Option Amount) (objectives : List Objective)
    (p : StepProgress) : (offer amount? objectives p).1.completed = p.completed := by
  induction objectives generalizing p with
  | nil => rfl
  | cons o rest ih =>
      simp only [offer]
      split
      · exact ih p
      · split
        · exact ih _
        · exact ih _

/-! ## The transitions of a thread -/

theorem Quest.id_of_step? {q : Quest} {id : String} {s : Step} (h : q.step? id = some s) :
    s.id = id := by simpa using List.find?_some h

/-- A call of `Rules.offer` by `Rules.stride`: the current step of an active quest, its progress
before and after, and the counters that moved. -/
structure Offering (c : Catalog) (amount? : Objective → Option Amount) (quest : String)
    (a : Activation) where
  q : Quest
  s : Step
  before : StepProgress
  after : StepProgress
  moved : List ObjectiveUpdate
  /-- Whether an objective has just completed. -/
  anyCompleted : Bool
  known : c.get? quest = some q
  onStep : q.step? a.step = some s
  recorded : a.progress.get? a.step = some before
  unfinished : before.completed = false
  offered : Rules.offer amount? s.objectives before = (after, moved, anyCompleted)

namespace Offering

variable {c : Catalog} {amount? : Objective → Option Amount} {quest : String} {a : Activation}

/-- The test of `Rules.stride` for completing the step. -/
def completesStep (o : Offering c amount? quest a) : Bool :=
  o.anyCompleted && o.after.isSatisfied o.s

/-- The notifications about the counters that moved. -/
def counterNews (o : Offering c amount? quest a) (username : String) : List Notification :=
  o.moved.map (Notification.objectiveUpdated username quest o.s.id)

theorem step_id (o : Offering c amount? quest a) : o.s.id = a.step := Quest.id_of_step? o.onStep

theorem after_unfinished (o : Offering c amount? quest a) : o.after.completed = false := by
  have h := Rules.completed_offer amount? o.s.objectives o.before
  rw [o.offered] at h
  exact h.trans o.unfinished

end Offering

section Moves

variable (c : Catalog) (username : String) (now : Instant) (quest : String)

/-- The effect of `Rules.advanceQuest` on the thread of its quest: the thread before, the news and
the thread after. -/
inductive QuestStride (amount? : Objective → Option Amount) :
    Thread → List Notification → Thread → Prop
  /-- The quest is not active, or the catalog does not know it or its step. -/
  | idle {t : Thread} (h : t.position? c quest = none) : QuestStride amount? t [] t
  /-- Only counters change, if anything does. -/
  | update {a : Activation} {count : Option UInt32} (o : Offering c amount? quest a)
      (h : o.completesStep = false) :
      QuestStride amount? ⟨some a, count⟩ (o.counterNews username)
        ⟨some (a.setCurrentProgress o.after), count⟩
  /-- The step is completed and the quest enters the next one. -/
  | advance {a : Activation} {count : Option UInt32} (o : Offering c amount? quest a)
      (h : o.completesStep = true) {next : Step} (hnext : o.q.nextStep? o.s.id = some next) :
      QuestStride amount? ⟨some a, count⟩
        (o.counterNews username ++ [.stepCompleted username quest o.s.id (some next.id)
          (o.s.onComplete ++ next.onStart)])
        ⟨some ((a.setCurrentProgress (o.after.complete now)).enter next now), count⟩
  /-- The last step is completed, and the quest with it. -/
  | complete {a : Activation} {count : Option UInt32} (o : Offering c amount? quest a)
      (h : o.completesStep = true) (hnext : o.q.nextStep? o.s.id = none) :
      QuestStride amount? ⟨some a, count⟩
        (o.counterNews username ++ [.stepCompleted username quest o.s.id none o.s.onComplete,
          .completed username quest (count.getD 0 + 1) o.q.rewards])
        ⟨none, some (count.getD 0 + 1)⟩

/-- The effect of an operation on the thread of one quest: the stimulus of the operation, its target
for the quest, the thread before, the notifications about the quest, and the thread after. -/
inductive QuestTransition :
    Option Stimulus → Option Step → Thread → List Notification → Thread → Prop
  | stay {target? : Option Step} {t : Thread} (h : target? = none ∨ t.current = none) :
      QuestTransition none target? t [] t
  | start {q : Quest} {s : Step} {count : Option UInt32} (hq : c.get? quest = some q)
      (hs : q.step? s.id = some s) :
      QuestTransition none none ⟨none, count⟩ [.started username quest s.id s.onStart]
        ⟨some (.start q s now), count⟩
  | abandon {a : Activation} {count : Option UInt32} :
      QuestTransition none none ⟨some a, count⟩ [.abandoned username quest] ⟨none, count⟩
  | complete {a : Activation} {count : Option UInt32} (rewards : Option Rewards) :
      QuestTransition none none ⟨some a, count⟩
        [.completed username quest (count.getD 0 + 1) rewards]
        ⟨none, some (count.getD 0 + 1)⟩
  | fail {a : Activation} {count : Option UInt32} (reason : Option String) :
      QuestTransition none none ⟨some a, count⟩ [.failed username quest reason] ⟨none, count⟩
  | setVariable {a : Activation} {count : Option UInt32} (key : String) (value : Value) :
      QuestTransition none none ⟨some a, count⟩ [] ⟨some (a.setVariable key value), count⟩
  /-- `Rules.progress`, without a branch after it: there is no target, or the stimulus alone has
  brought the quest to it or ended the quest. -/
  | meet {stimulus : Stimulus} {target? : Option Step} {t t' : Thread} {news : List Notification}
      (h : QuestStride c username now quest stimulus.amount? t news t')
      (hthere : ∀ target b, target? = some target → t'.current = some b → b.step = target.id) :
      QuestTransition (some stimulus) target? t news t'
  | branch {q : Quest} {target : Step} {a : Activation} {count : Option UInt32}
      (hq : c.get? quest = some q) (htarget : q.step? target.id = some target) :
      QuestTransition none (some target) ⟨some a, count⟩
        [(Rules.branch q target a.step username now a).2]
        ⟨some (Rules.branch q target a.step username now a).1, count⟩
  /-- `Rules.choose`, which branches the quest from the step that the talk has left it on. -/
  | talk {stimulus : Stimulus} {q : Quest} {target : Step} {a b : Activation}
      {count count' : Option UInt32} {news : List Notification} (hq : c.get? quest = some q)
      (htarget : q.step? target.id = some target)
      (h : QuestStride c username now quest stimulus.amount? ⟨some a, count⟩ news ⟨some b, count'⟩)
      (helsewhere : b.step ≠ target.id) :
      QuestTransition (some stimulus) (some target) ⟨some a, count⟩
        (news ++ [(Rules.branch q target a.step username now b).2])
        ⟨some (Rules.branch q target a.step username now b).1, count'⟩

end Moves

theorem Thread.eq_of_current {t : Thread} {a : Activation} (h : t.current = some a) :
    t = ⟨some a, t.count⟩ := by
  rw [← h]

theorem QuestStride.opened {c : Catalog} {username : String} {now : Instant} {quest : String}
    {amount? : Objective → Option Amount} {t t' : Thread} {news : List Notification}
    (h : QuestStride c username now quest amount? t news t') (ht : t.Open) : t'.Open := by
  cases h with
  | idle => exact ht
  | update o =>
      intro b hb
      cases hb
      exact Activation.open_setCurrentProgress _ o.after_unfinished
  | advance o =>
      intro b hb
      cases hb
      exact Activation.open_enter ..
  | complete => exact fun b hb => by cases hb

theorem QuestTransition.opened {c : Catalog} {username : String} {now : Instant} {quest : String}
    {stimulus? : Option Stimulus} {target? : Option Step} {t t' : Thread}
    {news : List Notification}
    (h : QuestTransition c username now quest stimulus? target? t news t')
    (ht : t.Open) : t'.Open := by
  cases h with
  | stay => exact ht
  | start =>
      intro b hb
      cases hb
      exact Activation.open_start ..
  | abandon => exact fun b hb => by cases hb
  | complete => exact fun b hb => by cases hb
  | fail => exact fun b hb => by cases hb
  | setVariable =>
      intro b hb
      cases hb
      obtain ⟨p, hp⟩ := ht _ rfl
      exact ⟨p, hp⟩
  | meet hstride => exact hstride.opened ht
  | branch =>
      intro b hb
      cases hb
      exact Activation.open_enter ..
  | talk =>
      intro b hb
      cases hb
      exact Activation.open_enter ..

/-! ## Every rule makes transitions -/

section Rules

variable {c : Catalog} {j : Journal}

/-- `Rules.advanceQuest` takes an orderly thread through a `QuestStride`. -/
theorem QuestLog.OrderlyAt.stride {quest : String} (h : j.log.OrderlyAt quest) (username : String)
    (now : Instant) (amount? : Objective → Option Amount) :
    QuestStride c username now quest amount? (j.thread quest)
      ((j.thread quest).offerNews c username amount? now quest)
      ((j.thread quest).afterOffer c username amount? now quest) := by
  unfold Thread.offerNews Thread.afterOffer Thread.stride?
  cases hposition : (j.thread quest).position? c quest with
  | none => exact .idle hposition
  | some r =>
      obtain ⟨q, a, s⟩ := r
      obtain ⟨hq, ha, hs⟩ := Thread.position?_eq_some.mp hposition
      obtain ⟨before, hbefore, hunfinished⟩ := h.opened a ha
      have hquest : a.quest = quest := Journal.quest_of_activation? ha
      have hcurrent : a.currentProgress s now = before :=
        Activation.currentProgress_of_recorded hbefore s now
      obtain ⟨after, moved, anyCompleted, hoffer, hcases⟩ := Rules.stride_cases q s username
        ((j.thread quest).count.getD 0 + 1) amount? now a (hcurrent ▸ hunfinished)
      rw [hcurrent] at hoffer
      let o : Offering c amount? quest a := ⟨q, s, before, after, moved, anyCompleted, hq, hs,
        hbefore, hunfinished, hoffer⟩
      rw [Thread.eq_of_current ha]
      simp only [Option.map_some, Thread.afterStride]
      rw [hquest] at hcases
      rcases hcases with ⟨hcompletesStep, hactivation, hfinished, hnews⟩
        | ⟨hcompletesStep, next, hnext, hactivation, hfinished, hnews⟩
        | ⟨hcompletesStep, hnext, hfinished, hnews⟩
      · rw [hactivation, hfinished, hnews]
        exact .update o hcompletesStep
      · rw [hactivation, hfinished, hnews, hnext]
        exact .advance o hcompletesStep hnext
      · rw [hfinished, hnews, hnext]
        have hleaving : Rules.leavingActions s none = s.onComplete := List.append_nil _
        rw [hleaving]
        exact .complete o hcompletesStep hnext

/-- A rule that changes one thread and publishes about its quest only takes every quest through a
transition if it does so with its own. -/
theorem QuestTransition.of_one {username : String} {now : Instant} {x : String} (quest : String)
    (target? : String → Option Step) {j' : Journal} {t' : Thread} {news : List Notification}
    (hthread : j'.thread x = if quest = x then t' else j.thread x)
    (hnews : ∀ n ∈ news, n.quest = quest) (htarget : ∀ x, quest ≠ x → target? x = none)
    (htransition : QuestTransition c username now quest none (target? quest) (j.thread quest)
      news t') :
    QuestTransition c username now x none (target? x) (j.thread x) (news.filter (·.quest = x))
      (j'.thread x) := by
  rw [hthread]
  by_cases hx : quest = x
  · subst hx
    have hall : news.filter (·.quest = quest) = news :=
      List.filter_eq_self.mpr fun n hn => decide_eq_true (hnews n hn)
    rw [if_pos rfl, hall]
    exact htransition
  · have hnone : news.filter (·.quest = x) = [] :=
      List.filter_eq_nil_iff.mpr fun n hn hnx =>
        hx ((hnews n hn).symm.trans (of_decide_eq_true hnx))
    rw [if_neg hx, hnone]
    exact .stay (Or.inl (htarget x hx))

theorem current_of_isActive {quest : String} (h : j.isActive quest = true) :
    ∃ a, j.activation? quest = some a := Option.isSome_iff_exists.mp h

theorem step?_self {q : Quest} {id : String} {s : Step} (h : q.step? id = some s) :
    q.step? s.id = some s := by
  rw [Quest.id_of_step? h]
  exact h

theorem step?_startingStep? {q : Quest} {step : Option String} {s : Step}
    (h : Rules.startingStep? q step = some s) : q.step? s.id = some s := by
  cases step with
  | some id => exact step?_self h
  | none =>
      obtain ⟨rest, hrest⟩ := List.head?_eq_some_iff.mp h
      simp [Quest.step?, hrest]

theorem transition_start {q : Quest} (hq : c.get? q.id = some q) (p : Player) (force : Bool)
    (step : Option String) (now : Instant) (x : String) :
    QuestTransition c p.username now x none none (j.thread x)
      ((Rules.start q p force step now j).news.filter (·.quest = x))
      (((Rules.start q p force step now j).journal j).thread x) := by
  simp only [Rules.start]
  split
  · exact .stay (Or.inl rfl)
  · split
    · exact .stay (Or.inl rfl)
    · rename_i s hs
      cases hactive : j.isActive q.id with
      | true => exact .stay (Or.inl rfl)
      | false =>
          have hnone : j.thread q.id = ⟨none, (j.thread q.id).count⟩ := by
            rw [← show j.activation? q.id = none by simpa [Journal.isActive] using hactive]
            rfl
          refine QuestTransition.of_one q.id (fun _ => none)
            (Journal.thread_activate (a := .start q s now) hactive x) ?_ (fun _ _ => rfl) ?_
          · exact List.forall_mem_singleton.mpr rfl
          · rw [hnone]
            exact .start hq (step?_startingStep? hs)

theorem thread_eq_of_activation? {quest : String} {a : Activation}
    (h : j.activation? quest = some a) : j.thread quest = ⟨some a, (j.thread quest).count⟩ :=
  Thread.eq_of_current h

theorem transition_abandon {x : String} (hj : j.log.OrderlyAt x) (username quest : String)
    (now : Instant) :
    QuestTransition c username now x none none (j.thread x)
      ((Rules.abandon username quest j).news.filter (·.quest = x))
      (((Rules.abandon username quest j).journal j).thread x) := by
  simp only [Rules.abandon]
  cases hactive : j.isActive quest with
  | false => exact .stay (Or.inl rfl)
  | true =>
      obtain ⟨a, ha⟩ := current_of_isActive hactive
      refine QuestTransition.of_one quest (fun _ => none) (j.thread_deactivate hj.single quest) ?_
        (fun _ _ => rfl) ?_
      · exact List.forall_mem_singleton.mpr rfl
      · rw [thread_eq_of_activation? ha]
        exact .abandon

theorem transition_complete {x : String} (hj : j.log.OrderlyAt x) (username quest : String)
    (rewards : Option Rewards) (now : Instant) :
    QuestTransition c username now x none none (j.thread x)
      ((Rules.complete username quest rewards now j).news.filter (·.quest = x))
      (((Rules.complete username quest rewards now j).journal j).thread x) := by
  simp only [Rules.complete]
  cases hactive : j.isActive quest with
  | false => exact .stay (Or.inl rfl)
  | true =>
      obtain ⟨a, ha⟩ := current_of_isActive hactive
      refine QuestTransition.of_one quest (fun _ => none) (j.thread_finish hj.single quest now) ?_
        (fun _ _ => rfl) ?_
      · exact List.forall_mem_singleton.mpr rfl
      · rw [thread_eq_of_activation? ha]
        exact .complete rewards

theorem transition_fail {x : String} (hj : j.log.OrderlyAt x) (username quest : String)
    (reason : Option String) (now : Instant) :
    QuestTransition c username now x none none (j.thread x)
      ((Rules.fail username quest reason now j).news.filter (·.quest = x))
      (((Rules.fail username quest reason now j).journal j).thread x) := by
  simp only [Rules.fail]
  cases hactive : j.isActive quest with
  | false => exact .stay (Or.inl rfl)
  | true =>
      obtain ⟨a, ha⟩ := current_of_isActive hactive
      refine QuestTransition.of_one quest (fun _ => none) (j.thread_deactivate hj.single quest) ?_
        (fun _ _ => rfl) ?_
      · exact List.forall_mem_singleton.mpr rfl
      · rw [thread_eq_of_activation? ha]
        exact .fail reason

theorem transition_setVariable (username quest key : String) (value : Value) (now : Instant)
    (x : String) :
    QuestTransition c username now x none none (j.thread x)
      ((Rules.setVariable quest key value j).news.filter (·.quest = x))
      (((Rules.setVariable quest key value j).journal j).thread x) := by
  simp only [Rules.setVariable]
  cases ha : j.activation? quest with
  | none => exact .stay (Or.inl rfl)
  | some a =>
      have hquest : (a.setVariable key value).quest = quest :=
        show a.quest = quest from Journal.quest_of_activation? ha
      have hthread := Journal.thread_update (j := j) (a := a.setVariable key value) (b := a)
        (hquest ▸ ha) x
      rw [hquest] at hthread
      refine QuestTransition.of_one quest (fun _ => none) hthread
        (fun n hn => absurd hn List.not_mem_nil)
        (fun _ _ => rfl) ?_
      rw [thread_eq_of_activation? ha]
      exact .setVariable key value

theorem quest_branch (q : Quest) (target : Step) (origin username : String) (now : Instant)
    (a : Activation) : (Rules.branch q target origin username now a).1.quest = a.quest := by
  simp only [Rules.branch]
  split
  · rfl
  · split <;> rfl

theorem step_branch (q : Quest) (target : Step) (origin username : String) (now : Instant)
    (a : Activation) : (Rules.branch q target origin username now a).1.step = target.id := by
  simp only [Rules.branch]
  split
  · rfl
  · split <;> rfl

theorem about_branch (q : Quest) (target : Step) (origin username : String) (now : Instant)
    (a : Activation) : (Rules.branch q target origin username now a).2.username = username
      ∧ (Rules.branch q target origin username now a).2.quest = q.id := ⟨rfl, rfl⟩

theorem transition_advanceTo {q : Quest} (hq : c.get? q.id = some q) {target : Step}
    (htarget : q.step? target.id = some target) (username : String) (now : Instant)
    (x : String) :
    QuestTransition c username now x none (if q.id = x then some target else none) (j.thread x)
      ((Rules.advanceTo q target username now j).news.filter (·.quest = x))
      (((Rules.advanceTo q target username now j).journal j).thread x) := by
  simp only [Rules.advanceTo]
  cases ha : j.activation? q.id with
  | none =>
      refine .stay ?_
      by_cases hx : q.id = x
      · subst hx
        exact Or.inr ha
      · exact Or.inl (if_neg hx)
  | some a =>
      have hquest : (Rules.branch q target a.step username now a).1.quest = q.id :=
        (quest_branch ..).trans (Journal.quest_of_activation? ha)
      have hthread := Journal.thread_update (j := j) (b := a)
        (a := (Rules.branch q target a.step username now a).1) (hquest ▸ ha) x
      rw [hquest] at hthread
      refine QuestTransition.of_one q.id (fun x => if q.id = x then some target else none)
        hthread ?_
        (fun x hx => if_neg hx) ?_
      · exact List.forall_mem_singleton.mpr rfl
      · rw [if_pos rfl, thread_eq_of_activation? ha]
        exact .branch hq htarget

/-- `Rules.progress` takes every quest through its own stride. -/
theorem transition_progress {x : String} (hj : j.log.OrderlyAt x) (username : String)
    (stimulus : Stimulus) (now : Instant) {α : Type} (answer : α) :
    let r := (Rules.progress c username stimulus.amount? now j).ruling answer
    QuestTransition c username now x (some stimulus) none (j.thread x) (r.news.filter (·.quest = x))
      ((r.journal j).thread x) := by
  dsimp only
  rw [Rules.news_ruling_progress, Rules.Transition.journal_ruling,
    Rules.offerNews_progress _ _ _ _ hj.single, Rules.thread_progress _ _ _ _ hj.single]
  exact .meet (hj.stride username now stimulus.amount?) (fun _ _ h => by cases h)

/-- `Rules.choice?` finds options in a dialogue of the current step of an active quest only. -/
theorem choice?_eq_some {p : Player} {npc quest option : String} {q : Quest} {origin : String}
    {picked : Choice} (h : Rules.choice? c p npc quest option j = some (q, origin, picked)) :
    c.get? quest = some q ∧ ∃ a, j.activation? quest = some a ∧ a.step = origin
      ∧ (q.step? a.step).isSome := by
  simp only [Rules.choice?, Option.bind_eq_bind, Option.bind_eq_some_iff] at h
  obtain ⟨q', hq, a, ha, s, hs, d, -, picked', -, hpicked⟩ := h
  split at hpicked
  · cases hpicked
    exact ⟨hq, a, ha, rfl, by rw [hs]; rfl⟩
  · cases hpicked

/-- `Rules.choose` on an offered option is the talk alone, where the option has no target or the
talk has ended the quest or brought it there, and else the talk and a branch. -/
theorem choose_cases {p : Player} {npc quest option : String} {q : Quest} {origin : String}
    {picked : Choice} (now : Instant)
    (h : Rules.choice? c p npc quest option j = some (q, origin, picked)) :
    let event := Rules.talk npc option
    let t := Rules.progress c p.username (Objective.eventAmount? event.name event.payload) now j
    let r := Rules.choose c p npc quest option now j
    ((∀ target b, picked.advanceTo.bind q.step? = some target →
        t.journal.activation? quest = some b → b.step = target.id)
      ∧ ∃ answer, r = t.ruling answer)
    ∨ ∃ target b answer, picked.advanceTo.bind q.step? = some target
      ∧ t.journal.activation? quest = some b ∧ b.step ≠ target.id
      ∧ r = .commit (t.journal.update (Rules.branch q target origin p.username now b).1)
        (t.news ++ [(Rules.branch q target origin p.username now b).2]) answer := by
  simp only [Rules.choose, h]
  generalize Rules.progress c p.username _ now j = t
  cases htarget : picked.advanceTo.bind q.step? with
  | none => exact Or.inl ⟨fun _ _ h => (by cases h), _, rfl⟩
  | some target =>
      cases hb : t.journal.activation? quest with
      | none => exact Or.inl ⟨fun _ _ _ h => (by cases h), _, rfl⟩
      | some b =>
          by_cases hstep : b.step = target.id
          · refine Or.inl ⟨fun target' b' htarget' hb' => ?_, _, if_pos hstep⟩
            cases htarget'
            cases hb'
            exact hstep
          · exact Or.inr ⟨target, b, _, rfl, rfl, hstep, if_neg hstep⟩

/-- The talk and the branch after it are one transition of the quest that is branched, and for the
other quests that of the talk. -/
theorem transition_talk {q : Quest} {quest : String} (hq : c.get? quest = some q) {target : Step}
    (htarget : q.step? target.id = some target) {username : String} {now : Instant}
    {stimulus : Stimulus} {t : Rules.Transition} {a b : Activation}
    (ha : j.activation? quest = some a) (hb : t.journal.activation? quest = some b)
    (helsewhere : b.step ≠ target.id) {x : String}
    (hstride : QuestStride c username now x stimulus.amount? (j.thread x)
      (t.news.filter (·.quest = x))
      (t.journal.thread x)) :
    QuestTransition c username now x (some stimulus) (if quest = x then some target else none)
      (j.thread x)
      ((t.news ++ [(Rules.branch q target a.step username now b).2]).filter (·.quest = x))
      ((t.journal.update (Rules.branch q target a.step username now b).1).thread x) := by
  have hid : q.id = quest := Catalog.id_of_get? hq
  have hquest : (Rules.branch q target a.step username now b).1.quest = quest :=
    (quest_branch ..).trans (Journal.quest_of_activation? hb)
  have hthread := Journal.thread_update (j := t.journal) (b := b)
    (a := (Rules.branch q target a.step username now b).1) (hquest ▸ hb) x
  rw [hquest] at hthread
  have hleft : [(Rules.branch q target a.step username now b).2].filter (·.quest = x)
      = if quest = x then [(Rules.branch q target a.step username now b).2] else [] := by
    simp [List.filter_cons, (about_branch q target a.step username now b).2, hid]
  rw [hthread, List.filter_append, hleft]
  by_cases hx : quest = x
  · subst hx
    rw [thread_eq_of_activation? ha, thread_eq_of_activation? hb] at hstride
    rw [if_pos rfl, if_pos rfl, if_pos rfl, thread_eq_of_activation? ha]
    exact .talk hq htarget hstride helsewhere
  · rw [if_neg hx, if_neg hx, if_neg hx, List.append_nil]
    exact .meet hstride fun _ _ h => by cases h

theorem transition_choose {x : String} (hj : j.log.OrderlyAt x) (p : Player)
    (npc quest option : String) (now : Instant) :
    QuestTransition c p.username now x ((Operation.choose p npc quest option).stimulus? c j)
      ((Operation.choose p npc quest option).target? c j x) (j.thread x)
      ((Rules.choose c p npc quest option now j).news.filter (·.quest = x))
      (((Rules.choose c p npc quest option now j).journal j).thread x) := by
  simp only [Operation.stimulus?, Operation.target?]
  cases hchoice : Rules.choice? c p npc quest option j with
  | none =>
      simp only [Rules.choose, hchoice]
      refine .stay (Or.inl ?_)
      by_cases hx : quest = x <;> simp [hx]
  | some r =>
      obtain ⟨q, origin, picked⟩ := r
      obtain ⟨hq, a, ha, rfl, -⟩ := choice?_eq_some hchoice
      let talk : Stimulus := .event (Rules.talk npc option).name (Rules.talk npc option).payload
      have hstride := hj.stride (c := c) p.username now talk.amount?
      rw [← Rules.offerNews_progress _ _ _ _ hj.single,
        ← Rules.thread_progress _ _ _ _ hj.single] at hstride
      show QuestTransition c p.username now x (some talk) _ _ _ _
      simp only [Option.bind_some]
      rcases choose_cases now hchoice with ⟨hthere, answer, hr⟩
        | ⟨target, b, answer, htarget, hb, helsewhere, hr⟩
      · rw [hr, Rules.news_ruling_progress, Rules.Transition.journal_ruling]
        refine .meet hstride fun target b h hb => ?_
        split at h
        · rename_i hx
          subst hx
          exact hthere target b h hb
        · cases h
      · obtain ⟨id, -, hid⟩ := Option.bind_eq_some_iff.mp htarget
        rw [hr, htarget]
        exact transition_talk hq (step?_self hid) ha hb helsewhere hstride

end Rules

/-- **Inversion of an operation, quest by quest.** The rule that an operation applies takes the
thread of every quest, in a journal that is orderly at it, through a `QuestTransition`. -/
theorem Operation.transition {c : Catalog} {now : Instant} {op : Operation} {username : String}
    {rule : Journal → Ruling Answer} (h : op.plan c now = .consult username rule) {j : Journal}
    {x : String} (hj : j.log.OrderlyAt x) :
    QuestTransition c username now x (op.stimulus? c j) (op.target? c j x) (j.thread x)
      ((rule j).news.filter (·.quest = x)) (((rule j).journal j).thread x) := by
  cases consults_of_plan h with
  | start p quest force step hq =>
      rw [Ruling.news_map, Ruling.journal_map]
      exact transition_start ((Catalog.id_of_get? hq).symm ▸ hq) p force step now x
  | abandon _ quest =>
      rw [Ruling.news_map, Ruling.journal_map]
      exact transition_abandon hj username quest now
  | complete _ quest =>
      rw [Ruling.news_map, Ruling.journal_map]
      exact transition_complete hj username quest _ now
  | fail _ quest reason =>
      rw [Ruling.news_map, Ruling.journal_map]
      exact transition_fail hj username quest reason now
  | report _ event payload =>
      rw [Ruling.news_map, Ruling.journal_map]
      exact transition_progress hj username (.event event payload) now _
  | poll p =>
      rw [Ruling.news_map, Ruling.journal_map]
      exact transition_progress hj p.username (.look p) now _
  | @advanceTo _ quest step q target hq htarget =>
      rw [Ruling.news_map, Ruling.journal_map]
      have hid : q.id = quest := Catalog.id_of_get? hq
      have htransition := transition_advanceTo (j := j) (hid.symm ▸ hq) (step?_self htarget)
        username now x
      simpa only [stimulus?, target?, hq, hid, Option.bind_some, htarget] using htransition
  | setVariable _ quest key value =>
      rw [Ruling.news_map, Ruling.journal_map]
      exact transition_setVariable username quest key value now x
  | choose p npc quest option =>
      rw [Ruling.news_map, Ruling.journal_map]
      exact transition_choose hj p npc quest option now
  | _ => exact .stay (Or.inl rfl)

/-! ## The journal as a whole -/

/-- The quests and the reasons in the history of failures. -/
def QuestLog.failures (l : QuestLog) : List (String × Option String) :=
  l.failed.map fun f => (f.quest, f.reason)

/-- What a ruling does to the quest log as a whole: no quest becomes active twice, the news bears
the name that the request came under, and the failures that are published are those that are
added to the history. -/
structure Ruling.Faithful {α : Type} (username : String) (j : Journal) (r : Ruling α) : Prop where
  distinct : j.log.Distinct → (r.journal j).log.Distinct
  named : ∀ n ∈ r.news, n.username = username
  failures : (r.journal j).log.failures = j.log.failures ++ r.news.filterMap Notification.failure?

namespace Ruling.Faithful

variable {username : String} {j : Journal}

theorem look {α : Type} (answer : Except Refusal α) : (Ruling.look answer).Faithful username j where
  distinct := id
  named _ hn := absurd hn List.not_mem_nil
  failures := (List.append_nil _).symm

theorem handle {α : Type} (answer : Except Refusal α) :
    (Ruling.handle j answer).Faithful username j where
  distinct := id
  named _ hn := absurd hn List.not_mem_nil
  failures := (List.append_nil _).symm

theorem map {α β : Type} {r : Ruling α} (h : r.Faithful username j) (f : α → β) :
    (r.map f).Faithful username j where
  distinct := (Ruling.journal_map f r j).symm ▸ h.distinct
  named := (Ruling.news_map f r).symm ▸ h.named
  failures := by
    rw [Ruling.journal_map, Ruling.news_map]
    exact h.failures

end Ruling.Faithful

section Faithful

variable (c : Catalog) (username : String) (j : Journal) (now : Instant)

theorem faithful_start (q : Quest) (p : Player) (force : Bool) (step : Option String) :
    (Rules.start q p force step now j).Faithful p.username j := by
  simp only [Rules.start]
  split
  · exact .look _
  · split
    · exact .look _
    · split
      · exact .look _
      · rename_i s _ hactive
        exact ⟨fun hd => Journal.distinct_activate hd (Bool.eq_false_iff.mpr hactive),
          List.forall_mem_singleton.mpr rfl, (List.append_nil _).symm⟩

theorem faithful_abandon (quest : String) :
    (Rules.abandon username quest j).Faithful username j := by
  simp only [Rules.abandon]
  split
  · exact ⟨fun hd => Journal.distinct_deactivate hd quest, List.forall_mem_singleton.mpr rfl,
      (List.append_nil _).symm⟩
  · exact .handle _

theorem faithful_complete (quest : String) (rewards : Option Rewards) :
    (Rules.complete username quest rewards now j).Faithful username j := by
  simp only [Rules.complete]
  split
  · exact ⟨fun hd => Journal.distinct_finish hd quest now, List.forall_mem_singleton.mpr rfl,
      (List.append_nil _).symm⟩
  · exact .handle _

theorem faithful_fail (quest : String) (reason : Option String) :
    (Rules.fail username quest reason now j).Faithful username j := by
  simp only [Rules.fail]
  split
  · exact ⟨fun hd => Journal.distinct_deactivate hd quest, List.forall_mem_singleton.mpr rfl,
      List.map_append⟩
  · exact .handle _

theorem faithful_setVariable (quest key : String) (value : Value) :
    (Rules.setVariable quest key value j).Faithful username j := by
  simp only [Rules.setVariable]
  split
  · exact ⟨fun hd => Journal.distinct_update hd _, fun n hn => absurd hn List.not_mem_nil,
      (List.append_nil _).symm⟩
  · exact .handle _

theorem faithful_advanceTo (q : Quest) (target : Step) :
    (Rules.advanceTo q target username now j).Faithful username j := by
  simp only [Rules.advanceTo]
  split
  · exact .handle _
  · exact ⟨fun hd => Journal.distinct_update hd _, List.forall_mem_singleton.mpr rfl,
      (List.append_nil _).symm⟩

theorem distinct_progress (amount? : Objective → Option Amount) (hd : j.log.Distinct) :
    (Rules.progress c username amount? now j).journal.log.Distinct :=
  Rules.distinct_advanceAll c username amount? now _ hd

theorem failures_progress (amount? : Objective → Option Amount) :
    (Rules.progress c username amount? now j).journal.log.failures = j.log.failures
      ∧ (Rules.progress c username amount? now j).news.filterMap Notification.failure? = [] := by
  refine ⟨congrArg (List.map _) (Rules.failed_advanceAll c username amount? now _ j), ?_⟩
  exact List.filterMap_eq_nil_iff.mpr fun n hn =>
    (Rules.about_advanceAll c username amount? now _ j n hn).2

theorem faithful_progress {α : Type} (amount? : Objective → Option Amount) (answer : α) :
    ((Rules.progress c username amount? now j).ruling answer).Faithful username j := by
  obtain ⟨hfailures, hnone⟩ := failures_progress c username j now amount?
  refine ⟨?_, ?_, ?_⟩
  · rw [Rules.Transition.journal_ruling]
    exact distinct_progress c username j now amount?
  · rw [Rules.news_ruling_progress]
    exact fun n hn => (Rules.about_advanceAll c username amount? now _ j n hn).1
  · rw [Rules.Transition.journal_ruling, Rules.news_ruling_progress, hfailures, hnone,
      List.append_nil]

theorem faithful_choose (p : Player) (npc quest option : String) :
    (Rules.choose c p npc quest option now j).Faithful p.username j := by
  cases hchoice : Rules.choice? c p npc quest option j with
  | none =>
      simp only [Rules.choose, hchoice]
      exact .look _
  | some r =>
      obtain ⟨q, origin, picked⟩ := r
      rcases choose_cases now hchoice with ⟨-, answer, hr⟩
        | ⟨target, b, answer, -, -, -, hr⟩
      · rw [hr]
        exact faithful_progress ..
      · rw [hr]
        obtain ⟨hfailures, hnone⟩ := failures_progress c p.username j now
          (Objective.eventAmount? (Rules.talk npc option).name (Rules.talk npc option).payload)
        refine ⟨fun hd => Journal.distinct_update (distinct_progress c p.username j now _ hd) _,
          List.forall_mem_append.mpr ⟨fun n hn => ?_, List.forall_mem_singleton.mpr rfl⟩, ?_⟩
        · exact (Rules.about_advanceAll c p.username _ now _ j n hn).1
        · show QuestLog.failures (Journal.log _) = _ ++ List.filterMap _ (_ ++ _)
          rw [List.filterMap_append, hnone]
          exact hfailures.trans (List.append_nil _).symm

end Faithful

theorem Operation.faithful {c : Catalog} {now : Instant} {op : Operation} {username : String}
    {rule : Journal → Ruling Answer} (h : op.plan c now = .consult username rule) (j : Journal) :
    (rule j).Faithful username j := by
  cases consults_of_plan h with
  | start p quest force step hq => exact (faithful_start j now _ p force step).map _
  | abandon _ quest => exact (faithful_abandon username j quest).map _
  | complete _ quest => exact (faithful_complete username j now quest _).map _
  | fail _ quest reason => exact (faithful_fail username j now quest reason).map _
  | report _ event payload => exact (faithful_progress c username j now _ _).map _
  | poll p => exact (faithful_progress c p.username j now _ _).map _
  | advanceTo _ quest step hq htarget => exact (faithful_advanceTo username j now _ _).map _
  | setVariable _ quest key value => exact (faithful_setVariable username j quest key value).map _
  | choose p npc quest option => exact (faithful_choose c j now p npc quest option).map _
  | _ => exact .look _

/-- `QuestLog.Orderly` is an invariant of every operation. -/
theorem Operation.orderly_plan {c : Catalog} {now : Instant} {op : Operation} {username : String}
    {rule : Journal → Ruling Answer} (h : op.plan c now = .consult username rule) {j : Journal}
    (hj : j.log.Orderly) : ((rule j).journal j).log.Orderly where
  distinct := (Operation.faithful h j).distinct hj.distinct
  opened x := (Operation.transition h (hj.at x)).opened (hj.opened x)

end Questline
