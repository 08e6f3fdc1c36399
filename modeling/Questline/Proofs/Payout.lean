import Questline.Proofs.Course

/-!
# What leaving a step pays

A quest leaves a step in two ways: `Rules.stride` completes it, and `Rules.branch` sends the quest
elsewhere; `Rules.choose` can do both at once. Either way the step's actions are handed out if and
only if the policy held when the step was left and the quest was on that step already when the
operation began (`Departure.isPaid`). `Engine.departures` computes the departures of an operation
from the journal that it reaches.

A *visit* lasts from the notification that a step is entered to the next one that puts the quest
anywhere else (`Notification.stepAfter`). `paid_once` says that what is published are exactly the
departures, with what they pay, and that each of them ends a visit of the step that is left; so no
visit pays twice, and none that ends otherwise pays at all.
-/

namespace Questline

/-- An active quest that leaves a step. -/
structure Departure where
  username : String
  quest : String
  /-- The step that is left. -/
  step : Step
  /-- What is recorded of that step when it is left. -/
  progress : StepProgress
  /-- The step that the quest was on when the operation began. -/
  origin : String
  /-- The step that is entered, if any. -/
  next : Option Step

namespace Departure

/-- Whether leaving the step pays its actions. -/
def isPaid (d : Departure) : Bool := d.progress.isSatisfied d.step && d.step.id == d.origin

def actions (d : Departure) : List Action :=
  (if d.isPaid then d.step.onComplete else []) ++ (d.next.map (·.onStart)).getD []

def notification (d : Departure) : Notification :=
  .stepCompleted d.username d.quest d.step.id (d.next.map (·.id)) d.actions

end Departure

/-- The departures of a quest in one operation, in order: the one by `Rules.stride`, if the stimulus
completes the step, and then the one by `Rules.branch`, unless a talk has brought the quest to the
target. -/
def Thread.departures (c : Catalog) (username : String) (now : Instant) (quest : String)
    (stimulus? : Option Stimulus) (target? : Option Step) (t : Thread) : List Departure :=
  match t.position? c quest with
  | none => []
  | some (q, a, s) =>
    let here := a.currentProgress s now
    match stimulus? with
    | none => target?.toList.map fun target => ⟨username, quest, s, here, s.id, some target⟩
    | some stimulus =>
      let (p, _, anyCompleted) := Rules.offer stimulus.amount? s.objectives here
      let sentOn (s' : Step) (p' : StepProgress) : List Departure :=
        (target?.toList.filter (·.id ≠ s'.id)).map fun target =>
          ⟨username, quest, s', p', s.id, some target⟩
      if anyCompleted && p.isSatisfied s then
        ⟨username, quest, s, p, s.id, q.nextStep? s.id⟩
          :: (q.nextStep? s.id).toList.flatMap fun next => sentOn next (.start next now)
      else sentOn s p

/-- The departures of a quest of the player of a lower-cased name in an operation. -/
def Engine.departures {ρ : Type} [Repository ρ] (e : Engine ρ) (key quest : String)
    (c : Circumstances) (op : Operation) : List Departure :=
  match op.plan e.catalog c.now with
  | .consult username _ =>
    match e.reached? key (.perform c op) with
    | some j =>
      (j.thread quest).departures e.catalog username c.now quest (op.stimulus? e.catalog j)
        (op.target? e.catalog j quest)
    | none => []
  | _ => []

namespace Notification

/-- The step that a `quest:step_completed` notification names as left. -/
def left? : Notification → Option String
  | stepCompleted _ _ step _ _ => some step
  | _ => none

end Notification

/-! ## One transition -/

/-- The notification of `Rules.branch` is that of its departure. -/
theorem notification_branch {q : Quest} {target : Step} {origin username : String} {now : Instant}
    {a : Activation} {s : Step} {p : StepProgress} (hs : q.step? a.step = some s)
    (hp : a.progress.get? a.step = some p) (hopen : p.completed = false) :
    (Rules.branch q target origin username now a).2
      = Departure.notification ⟨username, q.id, s, p, origin, some target⟩ := by
  have hid : s.id = a.step := Quest.id_of_step? hs
  have hearned : Rules.isEarned s p origin = (p.isSatisfied s && s.id == origin) := by
    unfold Rules.isEarned
    rw [hopen, Bool.not_false, Bool.and_true, Bool.and_comm]
  simp only [Rules.branch, hs, Activation.currentProgress_of_recorded hp, hearned]
  unfold Departure.notification Departure.actions Departure.isPaid
  dsimp only
  rw [hid]
  cases (p.isSatisfied s && a.step == origin) <;> rfl

namespace Thread

variable {c : Catalog} {username : String} {now : Instant} {quest : String}

theorem departures_of_inactive (stimulus? : Option Stimulus) (target? : Option Step) {t : Thread}
    (h : t.current = none) : t.departures c username now quest stimulus? target? = [] := by
  unfold departures
  rw [position?_of_inactive c quest h]

theorem departures_unasked (t : Thread) :
    t.departures c username now quest none none = [] := by
  unfold departures
  split <;> rfl

variable {a : Activation} {count : Option UInt32}

theorem departures_sent {q : Quest} {s : Step} {p : StepProgress}
    (hposition : Thread.position? c quest ⟨some a, count⟩ = some (q, a, s))
    (hp : a.progress.get? a.step = some p) (target : Step) :
    Thread.departures c username now quest none (some target) ⟨some a, count⟩
      = [⟨username, quest, s, p, s.id, some target⟩] := by
  simp only [departures, hposition, Activation.currentProgress_of_recorded hp]
  rfl

theorem departures_gain {stimulus : Stimulus} (o : Offering c stimulus.amount? quest a)
    (h : o.completesStep = false) (target? : Option Step) :
    Thread.departures c username now quest (some stimulus) target? ⟨some a, count⟩
      = (target?.toList.filter (·.id ≠ o.s.id)).map fun target =>
          ⟨username, quest, o.s, o.after, o.s.id, some target⟩ := by
  have hposition : Thread.position? c quest ⟨some a, count⟩ = some (o.q, a, o.s) :=
    position?_of_known o.known rfl o.onStep
  have hcompletesStep : (o.anyCompleted && o.after.isSatisfied o.s) = false := h
  simp only [departures, hposition, Activation.currentProgress_of_recorded o.recorded, o.offered,
    hcompletesStep, Bool.false_eq_true, if_false]

theorem departures_pass {stimulus : Stimulus} (o : Offering c stimulus.amount? quest a)
    (h : o.completesStep = true) (target? : Option Step) :
    Thread.departures c username now quest (some stimulus) target? ⟨some a, count⟩
      = ⟨username, quest, o.s, o.after, o.s.id, o.q.nextStep? o.s.id⟩
        :: (o.q.nextStep? o.s.id).toList.flatMap fun next =>
          (target?.toList.filter (·.id ≠ next.id)).map fun target =>
            ⟨username, quest, next, .start next now, o.s.id, some target⟩ := by
  have hposition : Thread.position? c quest ⟨some a, count⟩ = some (o.q, a, o.s) :=
    position?_of_known o.known rfl o.onStep
  have hcompletesStep : (o.anyCompleted && o.after.isSatisfied o.s) = true := h
  simp only [departures, hposition, Activation.currentProgress_of_recorded o.recorded, o.offered,
    hcompletesStep, if_true]

end Thread

namespace Offering

variable {c : Catalog} {amount? : Objective → Option Amount} {quest : String} {a : Activation}

theorem left_counterNews (o : Offering c amount? quest a) (username : String) :
    (o.counterNews username).filter (·.left?.isSome) = [] := by
  refine List.filter_eq_nil_iff.mpr fun n hn => ?_
  obtain ⟨m, -, rfl⟩ := List.mem_map.mp hn
  exact Bool.false_ne_true

/-- The departure by `Rules.stride` is paid for. -/
theorem notification_settled (o : Offering c amount? quest a) (h : o.completesStep = true)
    (username : String) (next : Option Step) :
    Departure.notification ⟨username, quest, o.s, o.after, o.s.id, next⟩
      = .stepCompleted username quest o.s.id (next.map (·.id))
        (o.s.onComplete ++ (next.map (·.onStart)).getD []) := by
  have hsatisfied : o.after.isSatisfied o.s = true := (Bool.and_eq_true_iff.mp h).2
  unfold Departure.notification Departure.actions Departure.isPaid
  simp only [hsatisfied, Bool.true_and, beq_self_eq_true, if_true]

end Offering

section Moves

variable {c : Catalog} {username : String} {now : Instant} {quest : String} {t t' : Thread}
  {news : List Notification}

omit c username now quest t t' news in
theorem sent_nowhere {target? : Option Step} {here : String}
    (h : ∀ target, target? = some target → here = target.id) :
    target?.toList.filter (·.id ≠ here) = [] := by
  refine List.filter_eq_nil_iff.mpr fun target htarget hne => ?_
  exact of_decide_eq_true hne (h target (Option.mem_toList.mp htarget)).symm

omit c username now quest t t' news in
theorem sent_on {target : Step} {here : String} (h : here ≠ target.id) :
    [target].filter (·.id ≠ here) = [target] :=
  List.filter_eq_self.mpr (List.forall_mem_singleton.mpr (decide_eq_true h.symm))

/-- The departures of `Rules.progress` without a branch after it. -/
theorem notifications_of_stride {stimulus : Stimulus} {target? : Option Step}
    (h : QuestStride c username now quest stimulus.amount? t news t')
    (hthere : ∀ target b, target? = some target → t'.current = some b → b.step = target.id) :
    news.filter (·.left?.isSome)
      = (t.departures c username now quest (some stimulus) target?).map
        Departure.notification := by
  cases h with
  | idle hposition =>
      unfold Thread.departures
      rw [hposition]
      rfl
  | @update a count o hcompletesStep =>
      have hnone : target?.toList.filter (·.id ≠ o.s.id) = [] := by
        refine sent_nowhere fun target htarget => o.step_id.trans ?_
        exact hthere target (a.setCurrentProgress o.after) htarget rfl
      rw [Thread.departures_gain o hcompletesStep, hnone, o.left_counterNews]
      rfl
  | @advance a count o hcompletesStep next hnext =>
      have hnone : target?.toList.filter (·.id ≠ next.id) = [] :=
        sent_nowhere fun target htarget => hthere target _ htarget rfl
      rw [Thread.departures_pass o hcompletesStep, hnext, List.filter_append, o.left_counterNews,
        List.map_cons, o.notification_settled hcompletesStep]
      simp only [Option.toList_some, List.flatMap_cons, List.flatMap_nil, hnone]
      rfl
  | @complete a count o hcompletesStep hnext =>
      rw [Thread.departures_pass o hcompletesStep, hnext, List.filter_append, o.left_counterNews,
        List.map_cons, o.notification_settled hcompletesStep]
      simp only [Option.map_none, Option.getD_none, List.append_nil]
      rfl

/-- The departures of `Rules.choose` with a branch: from the step that the talk has left the quest
on, and before that from its origin if the talk has completed it. -/
theorem notifications_of_talk (hc : c.Valid) {stimulus : Stimulus} {q : Quest} {target : Step}
    {a b : Activation} {count count' : Option UInt32} (hq : c.get? quest = some q)
    (h : QuestStride c username now quest stimulus.amount? ⟨some a, count⟩ news ⟨some b, count'⟩)
    (helsewhere : b.step ≠ target.id) (hk : Thread.Known c quest ⟨some a, count⟩) :
    (news ++ [(Rules.branch q target a.step username now b).2]).filter (·.left?.isSome)
      = (Thread.departures c username now quest (some stimulus) (some target)
          ⟨some a, count⟩).map Departure.notification := by
  have hid : q.id = quest := Catalog.id_of_get? hq
  cases h with
  | idle hposition =>
      obtain ⟨q', s, hknown⟩ := hk a rfl
      rw [hknown] at hposition
      cases hposition
  | update o hcompletesStep =>
      cases hq.symm.trans o.known
      have hsent : [target].filter (·.id ≠ o.s.id) = [target] :=
        sent_on fun h => helsewhere (o.step_id.symm.trans h)
      have hbranch : (Rules.branch o.q target a.step username now
          (a.setCurrentProgress o.after)).2
          = Departure.notification ⟨username, o.q.id, o.s, o.after, a.step, some target⟩ :=
        notification_branch o.onStep (by simp [Activation.setCurrentProgress])
          o.after_unfinished
      rw [Thread.departures_gain o hcompletesStep, Option.toList_some, hsent, hbranch,
        List.filter_append, o.left_counterNews, o.step_id, hid]
      rfl
  | @advance _ _ o hcompletesStep next hnext =>
      cases hq.symm.trans o.known
      have hsent : [target].filter (·.id ≠ next.id) = [target] := sent_on helsewhere
      have hstep : o.q.step? next.id = some next := (hc _ _ hq).step?_of_nextStep? hnext
      have hbranch : (Rules.branch o.q target a.step username now
          ((a.setCurrentProgress (o.after.complete now)).enter next now)).2
          = Departure.notification
            ⟨username, o.q.id, next, .start next now, a.step, some target⟩ :=
        notification_branch hstep (by simp [Activation.enter]) rfl
      rw [Thread.departures_pass o hcompletesStep, hnext, Option.toList_some, Option.toList_some,
        List.flatMap_singleton, hsent, hbranch, List.map_cons,
        o.notification_settled hcompletesStep,
        List.filter_append, List.filter_append, o.left_counterNews, o.step_id, hid]
      rfl

/-- The step completions that a transition publishes are its departures, with what they pay. -/
theorem notifications_of_transition (hc : c.Valid) {stimulus? : Option Stimulus}
    {target? : Option Step} (h : QuestTransition c username now quest stimulus? target? t news t')
    (ho : t.Open) (hk : t.Known c quest) :
    news.filter (·.left?.isSome)
      = (t.departures c username now quest stimulus? target?).map Departure.notification := by
  cases h with
  | stay hwhere =>
      rcases hwhere with rfl | hinactive
      · rw [Thread.departures_unasked]
        rfl
      · rw [Thread.departures_of_inactive _ _ hinactive]
        rfl
  | start =>
      rw [Thread.departures_unasked]
      rfl
  | abandon =>
      rw [Thread.departures_unasked]
      rfl
  | complete =>
      rw [Thread.departures_unasked]
      rfl
  | fail =>
      rw [Thread.departures_unasked]
      rfl
  | setVariable =>
      rw [Thread.departures_unasked]
      rfl
  | meet hstride hthere => exact notifications_of_stride hstride hthere
  | @branch q target a count hq htarget =>
      obtain ⟨q', s, hposition⟩ := hk a rfl
      obtain ⟨hq', -, hs⟩ := Thread.position?_eq_some.mp hposition
      obtain ⟨p, hp, hopen⟩ := ho a rfl
      cases hq.symm.trans hq'
      rw [Thread.departures_sent hposition hp, Quest.id_of_step? hs,
        notification_branch hs hp hopen, Catalog.id_of_get? hq]
      rfl
  | talk hq _ hstride helsewhere => exact notifications_of_talk hc hq hstride helsewhere hk

/-- Only the first departure of an operation can be paid for: a later one leaves a step that was
entered in the same operation. -/
theorem unpaid_of_tail (hc : c.Valid) (stimulus? : Option Stimulus) (target? : Option Step) :
    ∀ d ∈ (t.departures c username now quest stimulus? target?).tail, d.isPaid = false := by
  have hsingle : ∀ (p : Step → Bool) (f : Step → Departure),
      ((target?.toList.filter p).map f).tail = [] := by
    intro p f
    cases target? with
    | none => rfl
    | some target => by_cases h : p target <;> simp [h]
  unfold Thread.departures
  cases hposition : t.position? c quest with
  | none => exact fun d hd => absurd hd List.not_mem_nil
  | some r =>
      obtain ⟨q, a, s⟩ := r
      cases stimulus? with
      | none => cases target? <;> exact fun d hd => absurd hd List.not_mem_nil
      | some stimulus =>
          dsimp only
          split
          · intro d hd
            obtain ⟨next, hnext, hd⟩ := List.mem_flatMap.mp hd
            obtain ⟨target, -, rfl⟩ := List.mem_map.mp hd
            have hne : next.id ≠ s.id :=
              (hc _ _ (Thread.position?_eq_some.mp hposition).1).nextStep?_ne
                (Option.mem_toList.mp hnext)
            show (_ && (next.id == s.id)) = false
            rw [beq_eq_false_iff_ne.mpr hne, Bool.and_false]
          · rw [hsingle]
            exact fun d hd => absurd hd List.not_mem_nil

/-- A departure is one between steps of the quest, and its origin is the step that the quest was on
before the operation. -/
theorem departure_within (hc : c.Valid) {stimulus? : Option Stimulus} {target? : Option Step}
    (htarget : ∀ q target, c.get? quest = some q → target? = some target →
      q.step? target.id = some target) :
    ∀ d ∈ t.departures c username now quest stimulus? target?, d.quest = quest
      ∧ ∃ q a, c.get? quest = some q ∧ t.current = some a ∧ d.origin = a.step
        ∧ q.step? d.step.id = some d.step
        ∧ ∀ next, d.next = some next → q.step? next.id = some next := by
  unfold Thread.departures
  cases hposition : t.position? c quest with
  | none => exact fun d hd => absurd hd List.not_mem_nil
  | some r =>
      obtain ⟨q, a, s⟩ := r
      obtain ⟨hq, ha, hs⟩ := Thread.position?_eq_some.mp hposition
      have hid : s.id = a.step := Quest.id_of_step? hs
      have hself : q.step? s.id = some s := step?_self hs
      have hnext : ∀ next, q.nextStep? s.id = some next → q.step? next.id = some next :=
        fun next h => (hc _ _ hq).step?_of_nextStep? h
      have hsent : ∀ target ∈ target?.toList, ∀ next, some target = some next →
          q.step? next.id = some next := by
        intro target hmem next h
        cases h
        exact htarget q target hq (Option.mem_toList.mp hmem)
      cases stimulus? with
      | none =>
          intro d hd
          obtain ⟨target, hmem, rfl⟩ := List.mem_map.mp hd
          exact ⟨rfl, q, a, hq, ha, hid, hself, hsent target hmem⟩
      | some stimulus =>
          dsimp only
          split
          · intro d hd
            rcases List.mem_cons.mp hd with rfl | hd
            · exact ⟨rfl, q, a, hq, ha, hid, hself, hnext⟩
            · obtain ⟨next, hmem', hd⟩ := List.mem_flatMap.mp hd
              obtain ⟨target, hmem, rfl⟩ := List.mem_map.mp hd
              exact ⟨rfl, q, a, hq, ha, hid, hnext next (Option.mem_toList.mp hmem'),
                hsent target (List.mem_filter.mp hmem).1⟩
          · intro d hd
            obtain ⟨target, hmem, rfl⟩ := List.mem_map.mp hd
            exact ⟨rfl, q, a, hq, ha, hid, hself, hsent target (List.mem_filter.mp hmem).1⟩

end Moves

/-- The target of an operation is a step of the quest. -/
theorem Operation.step?_target? {c : Catalog} {j : Journal} {quest : String} {op : Operation}
    {q : Quest} {target : Step} (hq : c.get? quest = some q)
    (h : op.target? c j quest = some target) : q.step? target.id = some target := by
  cases op with
  | advanceTo u id step =>
      simp only [target?] at h
      split at h
      · rename_i hid
        rw [hid, hq] at h
        exact step?_self h
      · cases h
  | choose p npc id option =>
      simp only [target?] at h
      split at h
      · rename_i hid
        obtain ⟨⟨q', origin, picked⟩, hchoice, hadvance⟩ := Option.bind_eq_some_iff.mp h
        obtain ⟨hq', -⟩ := choice?_eq_some hchoice
        cases (hid ▸ hq').symm.trans hq
        obtain ⟨step, -, hstep⟩ := Option.bind_eq_some_iff.mp hadvance
        exact step?_self hstep
      · cases h
  | _ => cases h

/-! ## Visits -/

/-- Every step that the notifications name as completed is the one that the quest is on by then, if
it was on the step `here` before them. -/
def CompletesCurrent (here : Option String) : List Notification → Prop
  | [] => True
  | n :: news => (∀ step, n.left? = some step → here = some step)
    ∧ CompletesCurrent (n.stepAfter here) news

theorem completesCurrent_append {here : Option String} {news later : List Notification} :
    CompletesCurrent here (news ++ later) ↔ CompletesCurrent here news
      ∧ CompletesCurrent (news.foldl Notification.stepAfter here) later := by
  induction news generalizing here with
  | nil => exact ⟨fun h => ⟨trivial, h⟩, fun h => h.2⟩
  | cons n news ih =>
      constructor
      · intro h
        obtain ⟨hnews, hlater⟩ := ih.mp h.2
        exact ⟨⟨h.1, hnews⟩, hlater⟩
      · intro h
        exact ⟨h.1.1, ih.mpr ⟨h.1.2, h.2⟩⟩

theorem completesCurrent_singleton {here : Option String} {n : Notification}
    (h : ∀ step, n.left? = some step → here = some step) : CompletesCurrent here [n] := ⟨h, trivial⟩

/-- A quest that the notifications put on a step was on it before them, or one of them names the
step as entered. -/
theorem entered_of_foldl {here : Option String} {step : String} {news : List Notification}
    (h : news.foldl Notification.stepAfter here = some step) :
    here = some step ∨ ∃ n ∈ news, n.entered? = some step := by
  induction news generalizing here with
  | nil => exact Or.inl h
  | cons n news ih =>
      rcases ih h with hn | ⟨m, hm, hstep⟩
      · cases n with
        | objectiveUpdated => exact Or.inl hn
        | _ => exact Or.inr ⟨_, List.mem_cons_self, hn⟩
      · exact Or.inr ⟨m, List.mem_cons_of_mem _ hm, hstep⟩

namespace Offering

variable {c : Catalog} {amount? : Objective → Option Amount} {quest : String} {a : Activation}

theorem completesCurrent_counterNews (o : Offering c amount? quest a) (username : String)
    (here : Option String) :
    CompletesCurrent here (o.counterNews username)
      ∧ (o.counterNews username).foldl Notification.stepAfter here = here := by
  unfold counterNews
  induction o.moved with
  | nil => exact ⟨trivial, rfl⟩
  | cons m moved ih => exact ⟨⟨fun _ h => (by cases h), ih.1⟩, ih.2⟩

end Offering

section Moves

variable {c : Catalog} {username : String} {now : Instant} {quest : String} {t t' : Thread}
  {news : List Notification}

theorem completesCurrent_of_stride {amount? : Objective → Option Amount}
    (h : QuestStride c username now quest amount? t news t') :
    CompletesCurrent (t.current.map (·.step)) news
      ∧ news.foldl Notification.stepAfter (t.current.map (·.step)) = t'.current.map (·.step) := by
  cases h with
  | idle => exact ⟨trivial, rfl⟩
  | @update a count o => exact o.completesCurrent_counterNews username (some a.step)
  | @advance a count o =>
      obtain ⟨hcurrent, hhere⟩ := o.completesCurrent_counterNews username (some a.step)
      refine ⟨completesCurrent_append.mpr ⟨hcurrent, ?_⟩, ?_⟩
      · show CompletesCurrent
          ((o.counterNews username).foldl Notification.stepAfter (some a.step)) _
        rw [hhere]
        exact completesCurrent_singleton fun step h => h ▸ congrArg some o.step_id.symm
      · rw [List.foldl_append]
        rfl
  | @complete a count o =>
      obtain ⟨hcurrent, hhere⟩ := o.completesCurrent_counterNews username (some a.step)
      refine ⟨completesCurrent_append.mpr ⟨hcurrent, ?_⟩, ?_⟩
      · show CompletesCurrent
          ((o.counterNews username).foldl Notification.stepAfter (some a.step)) _
        rw [hhere]
        exact ⟨fun step h => h ▸ congrArg some o.step_id.symm, fun _ h => (by cases h), trivial⟩
      · rw [List.foldl_append]
        rfl

/-- The news of a transition completes current steps only, and puts the quest on the step of the
thread afterwards. -/
theorem completesCurrent_of_transition {stimulus? : Option Stimulus} {target? : Option Step}
    (h : QuestTransition c username now quest stimulus? target? t news t') :
    CompletesCurrent (t.current.map (·.step)) news
      ∧ news.foldl Notification.stepAfter (t.current.map (·.step)) = t'.current.map (·.step) := by
  cases h with
  | stay => exact ⟨trivial, rfl⟩
  | start => exact ⟨completesCurrent_singleton fun _ h => (by cases h), rfl⟩
  | abandon => exact ⟨completesCurrent_singleton fun _ h => (by cases h), rfl⟩
  | complete => exact ⟨completesCurrent_singleton fun _ h => (by cases h), rfl⟩
  | fail => exact ⟨completesCurrent_singleton fun _ h => (by cases h), rfl⟩
  | setVariable => exact ⟨trivial, rfl⟩
  | meet hstride => exact completesCurrent_of_stride hstride
  | branch =>
      refine ⟨completesCurrent_singleton fun _ h => h, ?_⟩
      exact congrArg some (step_branch ..).symm
  | talk _ _ hstride =>
      obtain ⟨hcurrent, hhere⟩ := completesCurrent_of_stride hstride
      refine ⟨completesCurrent_append.mpr ⟨hcurrent, ?_⟩, ?_⟩
      · rw [hhere]
        exact completesCurrent_singleton fun _ h => h
      · rw [List.foldl_append, hhere]
        exact congrArg some (step_branch ..).symm

end Moves

/-! ## Runs -/

variable {ρ : Type} [Repository ρ] [TableRepository ρ]

/-- The next operation of an engine, whichever it is, publishes its departures from the steps of one
quest as they are paid, for the player of a lower-cased name. -/
structure Engine.PaysDepartures (e : Engine ρ) (key quest : String) : Prop where
  /-- The departures are published, with what they pay, and nothing else is paid. -/
  published : ∀ c op,
    ((e.run c op).news.filter (·.isAbout key quest)).filter (·.left?.isSome)
      = (e.departures key quest c op).map Departure.notification
  /-- A departure is from a step of the quest to another, or to none, and its origin is the
  step that the quest was on. -/
  within : ∀ c op, ∀ d ∈ e.departures key quest c op, d.quest = quest
    ∧ ∃ q j a, e.catalog.get? quest = some q ∧ e.reached? key (.perform c op) = some j
      ∧ j.activation? quest = some a ∧ d.origin = a.step ∧ q.step? d.step.id = some d.step
      ∧ ∀ next, d.next = some next → q.step? next.id = some next
  /-- A step that is entered and left in one operation is not paid for. -/
  skipped : ∀ c op, ∀ d ∈ (e.departures key quest c op).tail, d.isPaid = false
  /-- No step is completed, let alone paid for, by ending the quest. -/
  ended : ∀ c username id reason, ∀ op ∈ [Operation.complete username id,
    .fail username id reason, .abandon username id], ∀ n ∈ (e.run c op).news, n.left? = none

/-- A stream of notifications about one quest in which every notification that a step is
completed ends a visit of that step. -/
structure OncePerVisit (news : List Notification) : Prop where
  ends : ∀ before n after step, news = before ++ n :: after → n.left? = some step →
    before.foldl Notification.stepAfter none = some step
  /-- So between two of them the step is entered. -/
  apart : ∀ before n between m after step, news = before ++ n :: (between ++ m :: after) →
    n.left? = some step → m.left? = some step →
    ∃ k ∈ n :: between, k.entered? = some step

theorem oncePerVisit_of_completesCurrent {news : List Notification}
    (h : CompletesCurrent none news) :
    OncePerVisit news where
  ends before n after step hnews hn := by
    rw [hnews] at h
    exact (completesCurrent_append.mp h).2.1 step hn
  apart before n between m after step hnews hn hm := by
    rw [hnews] at h
    obtain ⟨hbetween, hlater⟩ := (completesCurrent_append.mp h).2
    obtain ⟨-, hstep, -⟩ := completesCurrent_append.mp hlater
    rcases entered_of_foldl (hstep step hm) with hentered | ⟨k, hk, hentered⟩
    · refine ⟨n, List.mem_cons_self, ?_⟩
      cases n with
      | stepCompleted => exact hentered
      | _ => cases hn
    · exact ⟨k, List.mem_cons_of_mem _ hk, hentered⟩

namespace Engine

omit [TableRepository ρ] in
theorem departures_of_unreached {e : Engine ρ} {key quest : String} {c : Circumstances}
    {op : Operation} (h : e.reached? key (.perform c op) = none) :
    e.departures key quest c op = [] := by
  unfold departures
  rw [h]
  split <;> rfl

omit [TableRepository ρ] in
theorem departures_of_unasked (e : Engine ρ) (key quest : String) (c : Circumstances)
    {op : Operation} (hstimulus : ∀ j, op.stimulus? e.catalog j = none)
    (htarget : ∀ j, op.target? e.catalog j quest = none) : e.departures key quest c op = [] := by
  unfold departures
  split
  · split
    · rw [hstimulus, htarget, Thread.departures_unasked]
    · rfl
  · rfl

theorem RunInvariant.published_departures {catalog : Catalog} (hc : catalog.Valid) {e : Engine ρ}
    (h : e.RunInvariant catalog) (key quest : String) (c : Circumstances) (op : Operation) :
    ((e.run c op).news.filter (·.isAbout key quest)).filter (·.left?.isSome)
      = (e.departures key quest c op).map Departure.notification := by
  obtain ⟨rfl, hs, ho, hk⟩ := h
  rcases take_transition hs (.perform c op) ((ho key).at quest) with ⟨-, hnews, hreached⟩
    | ⟨c', op', username, rule, j, ht, hplan, hreached, hj, htransition⟩
  · rw [departures_of_unreached hreached]
    show List.filter _ ((e.take (.perform c op)).news.filter _) = _
    rw [hnews]
    rfl
  · cases ht
    have hthread : (e.store.place key).log.thread quest = j.thread quest := by
      rw [← hj]
      rfl
    have hdepartures : e.departures key quest c op = (j.thread quest).departures e.catalog username
        c.now quest (op.stimulus? e.catalog j) (op.target? e.catalog j quest) := by
      simp only [departures, hplan, hreached]
    rw [hdepartures, ← hthread]
    exact notifications_of_transition hc htransition ((ho key).opened quest) (hk key quest)

theorem RunInvariant.paysDepartures {catalog : Catalog} (hc : catalog.Valid) {e : Engine ρ}
    (h : e.RunInvariant catalog) (key quest : String) : e.PaysDepartures key quest where
  published := h.published_departures hc key quest
  within c op d hd := by
    unfold departures at hd
    split at hd
    · split at hd
      · rename_i j hreached
        obtain ⟨hquest, q, a, hq, ha, horigin, hstep, hnext⟩ := departure_within (h.catalog ▸ hc)
          (fun q target hq htarget => Operation.step?_target? hq htarget) d hd
        exact ⟨hquest, q, j, a, hq, hreached, ha, horigin, hstep, hnext⟩
      · cases hd
    · cases hd
  skipped c op := by
    unfold departures
    split
    · split
      · exact unpaid_of_tail (h.catalog ▸ hc) _ _
      · exact fun d hd => absurd hd List.not_mem_nil
    · exact fun d hd => absurd hd List.not_mem_nil
  ended c username id reason op hop n hn := by
    have hnone : ∀ x, e.departures (playerKey n.username) x c op = [] := by
      intro x
      simp only [List.mem_cons, List.not_mem_nil, or_false] at hop
      rcases hop with rfl | rfl | rfl <;>
        exact departures_of_unasked e _ x c (fun _ => rfl) (fun _ => rfl)
    cases hleft : n.left? with
    | none => rfl
    | some step =>
        have hpublished := h.published_departures hc (playerKey n.username) n.quest c op
        rw [hnone] at hpublished
        have hmem : n ∈ ((e.run c op).news.filter
            (·.isAbout (playerKey n.username) n.quest)).filter (·.left?.isSome) := by
          refine List.mem_filter.mpr ⟨List.mem_filter.mpr ⟨hn, ?_⟩, ?_⟩
          · simp [Notification.isAbout]
          · rw [hleft]
            rfl
        rw [hpublished] at hmem
        cases hmem

/-- The news about a quest over a run completes current steps only. The induction is on the turns,
with the step that the quest is on as the invariant. -/
theorem completesCurrent_published {e : Engine ρ} (hs : e.store.Sound) (ho : e.Orderly)
    (turns : List Turn)
    (key quest : String) :
    CompletesCurrent (((e.store.place key).log.thread quest).current.map (·.step))
      ((e.published turns).filter (·.isAbout key quest)) := by
  induction turns generalizing e with
  | nil => trivial
  | cons t turns ih =>
      have hlater := ih (take_sound hs t) (take_orderly hs ho t)
      rw [published, List.filter_append, completesCurrent_append]
      rcases take_transition hs t ((ho key).at quest) with ⟨hthread, hnews, -⟩
        | ⟨_, _, _, _, _, -, -, -, -, htransition⟩
      · rw [hnews]
        exact ⟨trivial, hthread ▸ hlater⟩
      · obtain ⟨hcurrent, hhere⟩ := completesCurrent_of_transition htransition
        exact ⟨hcurrent, hhere ▸ hlater⟩

end Engine

/-- **Leaving a step pays what was earned, once per visit.** In a run over an empty
repository under a catalog of valid quests, every operation publishes its departures with
what they pay, whether or not it could be saved, and no visit of a step is paid twice.

Starting a quest again is a turn like any other, and begins a new visit. That the process is
stopped and forgets a leaving that it could not save is no turn of such a run. -/
theorem paid_once (catalog : Catalog) (hvalid : catalog.Valid) (repository : ρ)
    (hempty : TableRepository.records repository = ∅) (limit : Nat) (turns : List Turn)
    (hkeep : ∀ t ∈ turns, t.Keeps catalog) (key quest : String) :
    ((Engine.new catalog repository limit).after turns).PaysDepartures key quest
      ∧ OncePerVisit (((Engine.new catalog repository limit).published turns).filter
        (·.isAbout key quest)) := by
  have hsettled := Engine.runInvariant_new catalog hempty limit
  refine ⟨(hsettled.after hvalid hkeep).paysDepartures hvalid key quest,
    oncePerVisit_of_completesCurrent ?_⟩
  have hcurrent := Engine.completesCurrent_published hsettled.sound hsettled.orderly turns key quest
  rw [Engine.log_new hempty] at hcurrent
  exact hcurrent

/-- A hunt in which the first step is left twice, once for a reward and once for more of
the same. -/
theorem paid_once_ratHunt :
    let e := Engine.new (Catalog.ofQuests [ratHunt]) MemoryRepository.empty 5000
    (Catalog.ofQuests [ratHunt]).Valid ∧ TableRepository.records MemoryRepository.empty = ∅
      ∧ (∀ t ∈ ratHuntTurns, t.Keeps (Catalog.ofQuests [ratHunt]))
      ∧ (e.after ratHuntTurns).PaysDepartures (playerKey "Ann") "rats"
      ∧ OncePerVisit ((e.published ratHuntTurns).filter (·.isAbout (playerKey "Ann") "rats")) := by
  have hkeep : ∀ t ∈ ratHuntTurns, t.Keeps (Catalog.ofQuests [ratHunt]) := by
    simp [ratHuntTurns, Turn.Keeps]
  exact ⟨valid_ratHunt, rfl, hkeep, paid_once _ valid_ratHunt _ rfl _ _ hkeep _ _⟩

/-- Of the departures in that run only the first pays, as the second is no earned one. -/
example :
    ((((Engine.new (Catalog.ofQuests [ratHunt]) MemoryRepository.empty 5000).published
        ratHuntTurns).filter (·.isAbout "ann" "rats")).filter (·.left?.isSome))
      = [.stepCompleted "ann" "rats" "cull" (some "tell") [.giveExperience 5],
        .stepCompleted "ann" "rats" "tell" (some "cull") [.message "Two rats."]] := by
  decide +kernel

end Questline
