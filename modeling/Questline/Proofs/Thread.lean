import Mathlib.Data.List.Nodup
import Questline.Proofs.Run

/-!
# One quest of one player

The projection of a journal to one quest is its *thread*: the first activation of the quest and
the number of its completions. What an operation does to a thread depends on the thread, on the
amounts that it offers the objectives (`Operation.stimulus?`) and on the step that it sends the
quest to (`Operation.target?`), and on nothing else of the journal.

`Rules.progress` folds `Rules.advanceQuest` over the active quests. On threads that is one
`Rules.stride` for each quest (`Rules.thread_progress`), which publishes all the notifications
about it (`Rules.offerNews_progress`). This needs that the quest is not active twice, whatever there
is of others (`QuestLog.Single`); and where no quest is, every rule preserves that
(`Operation.faithful`).
-/

namespace Questline

/-- What a quest log holds of one quest. -/
structure Thread where
  /-- The first activation of the quest. -/
  current : Option Activation
  /-- The count of its entry in the history of completions. -/
  count : Option UInt32

namespace QuestLog

/-- No quest is active twice. -/
def Distinct (l : QuestLog) : Prop := (l.active.map (·.quest)).Nodup

/-- A quest is not active twice. -/
def Single (l : QuestLog) (quest : String) : Prop := l.active.countP (·.quest = quest) ≤ 1

def thread (l : QuestLog) (quest : String) : Thread :=
  ⟨l.active.find? (·.quest = quest), (l.completed.find? (·.quest = quest)).map (·.count)⟩

theorem distinct_blank : QuestLog.blank.Distinct := List.nodup_nil

theorem count_active (l : QuestLog) (quest : String) :
    (l.active.map (·.quest)).count quest = l.active.countP (·.quest = quest) := by
  rw [List.count, List.countP_map]
  rfl

theorem distinct_iff {l : QuestLog} : l.Distinct ↔ ∀ quest, l.Single quest := by
  unfold Distinct Single
  simp only [← count_active]
  exact List.nodup_iff_count_le_one

end QuestLog

/-- Where no two entries share a key, each is the first of its own. -/
theorem find?_of_nodup {α : Type} {key : α → String} {l : List α} (h : (l.map key).Nodup) {a : α}
    (ha : a ∈ l) : l.find? (fun b => key b = key a) = some a := by
  induction l with
  | nil => cases ha
  | cons b rest ih =>
      obtain ⟨hb, hrest⟩ := List.nodup_cons.mp h
      rcases List.mem_cons.mp ha with rfl | ha
      · simp
      · have hne : ¬ key b = key a := fun h => hb (List.mem_map.mpr ⟨a, ha, h.symm⟩)
        simp only [List.find?_cons, hne, decide_false]
        exact ih hrest ha

namespace Journal

def thread (j : Journal) (quest : String) : Thread := j.log.thread quest

theorem quest_of_activation? {j : Journal} {quest : String} {a : Activation}
    (h : j.activation? quest = some a) : a.quest = quest := by
  simpa using List.find?_some h

/-- Where no quest is active twice, every active entry is the first of its quest. -/
theorem activation?_of_mem {j : Journal} (hd : j.log.Distinct) {a : Activation}
    (ha : a ∈ j.active) : j.activation? a.quest = some a := find?_of_nodup hd ha

/-! ## The changes of a journal, on threads -/

theorem map_quest_replaceFirst (a : Activation) (l : List Activation) :
    (replaceFirst a l).map (·.quest) = l.map (·.quest) := by
  induction l with
  | nil => rfl
  | cons b rest ih =>
      by_cases h : b.quest = a.quest
      · simp [replaceFirst, h]
      · simp [replaceFirst, h, ih]

theorem find?_replaceFirst (a : Activation) (quest : String) (l : List Activation) :
    (replaceFirst a l).find? (·.quest = quest)
      = if a.quest = quest ∧ (l.find? (·.quest = quest)).isSome then some a
        else l.find? (·.quest = quest) := by
  induction l with
  | nil => simp [replaceFirst]
  | cons b rest ih =>
      by_cases hb : b.quest = a.quest
      · by_cases hq : a.quest = quest
        · simp [replaceFirst, hb, hq]
        · simp [replaceFirst, hb, hq]
      · by_cases hq : b.quest = quest
        · subst hq
          have hne : ¬ a.quest = b.quest := fun h => hb h.symm
          simp [replaceFirst, hb, hne]
        · simp [replaceFirst, hb, hq, ih]

theorem find?_eraseP (quest : String) {l : List Activation} {x : String}
    (h : l.countP (·.quest = x) ≤ 1) :
    (l.eraseP (·.quest = quest)).find? (·.quest = x)
      = if quest = x then none else l.find? (·.quest = x) := by
  induction l with
  | nil => simp
  | cons b rest ih =>
      by_cases hq : b.quest = quest
      · by_cases hx : quest = x
        · subst hx
          have hcons : (b :: rest).countP (·.quest = quest) = rest.countP (·.quest = quest) + 1 :=
            List.countP_cons_of_pos (decide_eq_true hq)
          have hnone : rest.find? (·.quest = quest) = none :=
            List.find?_eq_none.mpr (List.countP_eq_zero.mp (by omega))
          simp [hq, hnone]
        · simp [hq, hx]
      · by_cases hx : b.quest = x
        · subst hx
          have hne : ¬ quest = b.quest := fun hqx => hq hqx.symm
          simp [hq, hne]
        · have hcons : (b :: rest).countP (·.quest = x) = rest.countP (·.quest = x) :=
            List.countP_cons_of_neg (by simpa using hx)
          simp [hq, hx, ih (hcons ▸ h)]

theorem find?_countCompletion (quest : String) (now : Instant) (l : List Completion)
    (x : String) :
    ((countCompletion quest now l).find? (·.quest = x)).map (·.count)
      = if quest = x then
          some ((((l.find? (·.quest = x)).map (·.count)).getD 0) + 1)
        else (l.find? (·.quest = x)).map (·.count) := by
  induction l with
  | nil =>
      by_cases hx : quest = x
      · simp [countCompletion, hx]
      · simp [countCompletion, hx]
  | cons d rest ih =>
      by_cases hq : d.quest = quest
      · by_cases hx : quest = x
        · simp [countCompletion, hq, hx]
        · simp [countCompletion, hq, hx]
      · by_cases hx : d.quest = x
        · subst hx
          have hne : ¬ quest = d.quest := fun hqx => hq hqx.symm
          simp [countCompletion, hq, hne]
        · simp only [countCompletion, hq, if_false, List.find?_cons, hx, decide_false]
          exact ih

variable {j : Journal}

theorem thread_activate {a : Activation} (h : j.isActive a.quest = false) (x : String) :
    (j.activate a).thread x
      = if a.quest = x then ⟨some a, (j.thread a.quest).count⟩ else j.thread x := by
  by_cases hx : a.quest = x
  · subst hx
    have hnone : j.active.find? (·.quest = a.quest) = none := by
      simpa [isActive, activation?] using h
    rw [if_pos rfl]
    simp only [thread, log, QuestLog.thread, activate, List.find?_append, hnone]
    simp
  · rw [if_neg hx]
    simp [thread, log, QuestLog.thread, activate, List.find?_append, hx]

theorem thread_update {a b : Activation} (h : j.activation? a.quest = some b) (x : String) :
    (j.update a).thread x
      = if a.quest = x then ⟨some a, (j.thread a.quest).count⟩ else j.thread x := by
  by_cases hx : a.quest = x
  · subst hx
    have hsome : j.active.find? (·.quest = a.quest) = some b := h
    rw [if_pos rfl]
    simp only [thread, log, QuestLog.thread, update, find?_replaceFirst, hsome,
      Option.isSome_some, and_self, if_true]
  · rw [if_neg hx]
    simp only [thread, log, QuestLog.thread, update, find?_replaceFirst]
    rw [if_neg fun hand => hx hand.1]

theorem thread_deactivate {x : String} (h : j.log.Single x) (quest : String) :
    (j.deactivate quest).thread x
      = if quest = x then ⟨none, (j.thread quest).count⟩ else j.thread x := by
  have hfind := find?_eraseP quest h
  simp only [thread, log, QuestLog.thread, deactivate] at hfind ⊢
  rw [hfind]
  by_cases hx : quest = x
  · subst hx
    rw [if_pos rfl, if_pos rfl]
  · rw [if_neg hx, if_neg hx]

theorem thread_finish {x : String} (h : j.log.Single x) (quest : String) (now : Instant) :
    (Rules.finish quest now j).thread x
      = if quest = x then ⟨none, some ((j.thread quest).count.getD 0 + 1)⟩ else j.thread x := by
  have hfind := find?_eraseP quest h
  have hcount := find?_countCompletion quest now j.completed x
  simp only [thread, log, QuestLog.thread, Rules.finish, deactivate, recordCompletion]
    at hfind hcount ⊢
  rw [hfind, hcount]
  by_cases hx : quest = x
  · subst hx
    rw [if_pos rfl, if_pos rfl, if_pos rfl]
  · rw [if_neg hx, if_neg hx, if_neg hx]

theorem countP_of_inactive {quest : String} (h : j.isActive quest = false) :
    j.active.countP (·.quest = quest) = 0 := by
  have hnone : ∀ d ∈ j.active, ¬ d.quest = quest := by
    simpa [isActive, activation?] using h
  exact List.countP_eq_zero.mpr fun d hd => by simpa using hnone d hd

theorem single_of_inactive {quest : String} (h : j.isActive quest = false) :
    j.log.Single quest := Nat.le_trans (Nat.le_of_eq (countP_of_inactive h)) (Nat.zero_le 1)

theorem single_activate {x : String} {a : Activation} (hs : j.log.Single x)
    (h : j.isActive a.quest = false) : (j.activate a).log.Single x := by
  show (j.active ++ [a]).countP (·.quest = x) ≤ 1
  rw [List.countP_append]
  by_cases hx : a.quest = x
  · subst hx
    rw [countP_of_inactive h, Nat.zero_add]
    exact List.countP_le_length
  · have hother : [a].countP (·.quest = x) = 0 := by simpa using hx
    rw [hother]
    exact hs

theorem distinct_activate {a : Activation} (hd : j.log.Distinct)
    (h : j.isActive a.quest = false) : (j.activate a).log.Distinct :=
  QuestLog.distinct_iff.mpr fun x => single_activate (QuestLog.distinct_iff.mp hd x) h

theorem single_update {x : String} (h : j.log.Single x) (a : Activation) :
    (j.update a).log.Single x := by
  unfold QuestLog.Single at h ⊢
  rw [← QuestLog.count_active] at h ⊢
  show ((replaceFirst a j.active).map (·.quest)).count x ≤ 1
  rw [map_quest_replaceFirst]
  exact h

theorem single_deactivate {x : String} (h : j.log.Single x) (quest : String) :
    (j.deactivate quest).log.Single x :=
  Nat.le_trans List.eraseP_sublist.countP_le h

theorem single_finish {x : String} (h : j.log.Single x) (quest : String) (now : Instant) :
    (Rules.finish quest now j).log.Single x := single_deactivate h quest

theorem distinct_update (hd : j.log.Distinct) (a : Activation) : (j.update a).log.Distinct :=
  QuestLog.distinct_iff.mpr fun x => single_update (QuestLog.distinct_iff.mp hd x) a

theorem distinct_deactivate (hd : j.log.Distinct) (quest : String) :
    (j.deactivate quest).log.Distinct :=
  QuestLog.distinct_iff.mpr fun x => single_deactivate (QuestLog.distinct_iff.mp hd x) quest

theorem distinct_finish (hd : j.log.Distinct) (quest : String) (now : Instant) :
    (Rules.finish quest now j).log.Distinct := distinct_deactivate hd quest

end Journal

/-- The quest and the reason of a `quest:failed` notification. -/
def Notification.failure? : Notification → Option (String × Option String)
  | failed _ quest reason => some (quest, reason)
  | _ => none

/-! ## Stimuli and targets -/

/-- What an operation offers the objectives of the active quests: an event, or a look at the
player. -/
inductive Stimulus where
  | event (name : String) (payload : Payload)
  | look (player : Player)

/-- The amount that an objective is offered, if any: `amount?` of `Rules.progress`. -/
def Stimulus.amount? : Stimulus → Objective → Option Amount
  | event name payload => Objective.eventAmount? name payload
  | look player => Objective.polledAmount? player

namespace Operation

/-- The stimulus of a `report`, of a `poll`, and of a `choose` that finds its option, which reports
the talk. -/
def stimulus? (c : Catalog) (j : Journal) : Operation → Option Stimulus
  | report _ event payload => some (.event event payload)
  | poll p => some (.look p)
  | choose p npc quest option =>
    (Rules.choice? c p npc quest option j).map fun _ =>
      .event (Rules.talk npc option).name (Rules.talk npc option).payload
  | _ => none

/-- The step to which an `advanceTo` or the option of a `choose` sends the quest. -/
def target? (c : Catalog) (j : Journal) (quest : String) : Operation → Option Step
  | advanceTo _ id step =>
    if id = quest then (c.get? id).bind fun q => q.step? step else none
  | choose p npc id option =>
    if id = quest then
      (Rules.choice? c p npc id option j).bind fun r => r.2.2.advanceTo.bind r.1.step?
    else none
  | _ => none

end Operation

/-! ## Strides -/

namespace Rules

variable (q : Quest) (s : Step) (username : String) (count : UInt32)
  (amount? : Objective → Option Amount) (now : Instant) (a : Activation)

omit q s username count now a in
/-- An objective that has just completed has moved. -/
theorem offer_moved (objectives : List Objective) (p : StepProgress) :
    (offer amount? objectives p).2.2 = true → (offer amount? objectives p).2.1 ≠ [] := by
  induction objectives generalizing p with
  | nil => exact fun h => absurd h Bool.false_ne_true
  | cons o rest ih =>
      simp only [offer]
      split
      · exact ih p
      · split
        · exact fun _ => List.cons_ne_nil _ _
        · exact ih _

/-- The three outcomes of `stride` on a step that is not completed yet: only counters move, the
quest enters the next step, or it is completed. -/
theorem stride_cases (hopen : (a.currentProgress s now).completed = false) :
    ∃ p moved anyCompleted, offer amount? s.objectives (a.currentProgress s now)
        = (p, moved, anyCompleted)
      ∧ let heard := moved.map (Notification.objectiveUpdated username a.quest s.id)
        let left := Notification.stepCompleted username a.quest s.id
          ((q.nextStep? s.id).map (·.id)) (leavingActions s (q.nextStep? s.id))
        let r := stride q s username count amount? now a
        ((anyCompleted && p.isSatisfied s) = false ∧ r.activation = a.setCurrentProgress p
            ∧ r.finished = false ∧ r.news = heard)
          ∨ ((anyCompleted && p.isSatisfied s) = true ∧ ∃ t, q.nextStep? s.id = some t
            ∧ r.activation = (a.setCurrentProgress (p.complete now)).enter t now
            ∧ r.finished = false ∧ r.news = heard ++ [left])
          ∨ ((anyCompleted && p.isSatisfied s) = true ∧ q.nextStep? s.id = none
            ∧ r.finished = true
            ∧ r.news = heard ++ [left, .completed username a.quest count q.rewards]) := by
  rcases hoffer : offer amount? s.objectives (a.currentProgress s now) with
    ⟨p, moved, anyCompleted⟩
  refine ⟨p, moved, anyCompleted, rfl, ?_⟩
  have hmoved := offer_moved amount? s.objectives (a.currentProgress s now)
  simp only [hoffer] at hmoved
  simp only [stride, hopen, hoffer]
  cases hdone : anyCompleted && p.isSatisfied s with
  | false =>
      refine Or.inl ⟨rfl, ?_⟩
      cases moved with
      | nil => exact ⟨rfl, rfl, rfl⟩
      | cons m rest => exact ⟨rfl, rfl, rfl⟩
  | true =>
      have hany : anyCompleted = true := (Bool.and_eq_true_iff.mp hdone).1
      obtain ⟨m, rest, rfl⟩ := List.exists_cons_of_ne_nil (hmoved hany)
      cases hnext : q.nextStep? s.id with
      | some t => exact Or.inr (Or.inl ⟨rfl, t, rfl, rfl, rfl, rfl⟩)
      | none => exact Or.inr (Or.inr ⟨rfl, rfl, rfl, rfl⟩)

theorem stride_quest : (stride q s username count amount? now a).activation.quest = a.quest := by
  simp only [stride]
  split
  · rfl
  · split
    · rfl
    · split
      · rfl
      · split <;> rfl

/-- The news of `stride` bears the given name and the quest of the activation, and is no failure. -/
theorem stride_about : ∀ n ∈ (stride q s username count amount? now a).news,
    n.username = username ∧ n.quest = a.quest ∧ n.failure? = none := by
  cases hcompleted : (a.currentProgress s now).completed with
  | true =>
      have hnews : (stride q s username count amount? now a).news = [] := by
        simp only [stride, hcompleted, if_true]
      rw [hnews]
      exact fun _ hn => absurd hn List.not_mem_nil
  | false =>
      obtain ⟨p, moved, anyCompleted, -, hcases⟩ :=
        stride_cases q s username count amount? now a hcompleted
      have hmoved : ∀ n ∈ moved.map (Notification.objectiveUpdated username a.quest s.id),
          n.username = username ∧ n.quest = a.quest ∧ n.failure? = none := by
        intro n hn
        obtain ⟨m, -, rfl⟩ := List.mem_map.mp hn
        exact ⟨rfl, rfl, rfl⟩
      intro n hn
      rcases hcases with ⟨-, -, -, hnews⟩ | ⟨-, t, -, -, -, hnews⟩ | ⟨-, -, -, hnews⟩
      · exact hmoved n (hnews ▸ hn)
      · rw [hnews] at hn
        rcases List.mem_append.mp hn with hn | hn
        · exact hmoved n hn
        · rw [List.mem_singleton.mp hn]
          exact ⟨rfl, rfl, rfl⟩
      · rw [hnews] at hn
        rcases List.mem_append.mp hn with hn | hn
        · exact hmoved n hn
        · rcases List.mem_cons.mp hn with rfl | hn
          · exact ⟨rfl, rfl, rfl⟩
          · rw [List.mem_singleton.mp hn]
            exact ⟨rfl, rfl, rfl⟩

/-- A `stride` without an update publishes nothing. -/
theorem stride_silent (h : (stride q s username count amount? now a).update = none) :
    (stride q s username count amount? now a).news = [] := by
  simp only [stride] at h ⊢
  split
  · rfl
  · rename_i hopen
    rw [if_neg hopen] at h
    split
    · rfl
    · rename_i hmoved
      rw [if_neg hmoved] at h
      split at h
      · cases h
      · split at h <;> cases h

end Rules

namespace Thread

/-- What `Rules.advanceQuest` looks up before it calls `stride`: the quest, its activation and its
current step. -/
def position? (c : Catalog) (quest : String) (t : Thread) : Option (Quest × Activation × Step) := do
  let q ← c.get? quest
  let a ← t.current
  let s ← q.step? a.step
  return (q, a, s)

theorem position?_eq_some {c : Catalog} {quest : String} {t : Thread} {q : Quest}
    {a : Activation} {s : Step} :
    t.position? c quest = some (q, a, s)
      ↔ c.get? quest = some q ∧ t.current = some a ∧ q.step? a.step = some s := by
  cases hq : c.get? quest with
  | none => simp [position?, hq]
  | some q' =>
      cases ha : t.current with
      | none => simp [position?, hq, ha]
      | some a' =>
          cases hs : q'.step? a'.step with
          | none =>
              simp only [position?, hq, ha, hs, Option.bind_eq_bind, Option.bind_some,
                Option.bind_none, reduceCtorEq, false_iff]
              rintro ⟨hq', ha', hs'⟩
              cases hq'
              cases ha'
              rw [hs] at hs'
              cases hs'
          | some s' =>
              simp only [position?, hq, ha, hs, Option.bind_eq_bind, Option.bind_some]
              constructor
              · intro h
                cases h
                exact ⟨rfl, rfl, hs⟩
              · rintro ⟨hq', ha', hs'⟩
                cases hq'
                cases ha'
                rw [hs] at hs'
                cases hs'
                rfl

theorem position?_of_inactive (c : Catalog) (quest : String) {t : Thread} (h : t.current = none) :
    t.position? c quest = none := by
  unfold position?
  rw [h]
  cases c.get? quest <;> rfl

variable (c : Catalog) (username : String) (amount? : Objective → Option Amount)
  (now : Instant) (quest : String) (t : Thread)

/-- The call of `Rules.stride` by `Rules.advanceQuest`, if the look-up finds everything. -/
def stride? : Option Rules.Stride :=
  (t.position? c quest).map fun (q, a, s) =>
    Rules.stride q s username (t.count.getD 0 + 1) amount? now a

/-- The thread as `Rules.advanceQuest` records the result of `stride`. -/
def afterStride (r : Rules.Stride) : Thread :=
  if r.finished then ⟨none, some (t.count.getD 0 + 1)⟩ else ⟨some r.activation, t.count⟩

/-- The thread of the quest after `Rules.advanceQuest`. -/
def afterOffer : Thread :=
  match t.stride? c username amount? now quest with
  | none => t
  | some r => t.afterStride r

/-- The news of `Rules.advanceQuest`. -/
def offerNews : List Notification :=
  match t.stride? c username amount? now quest with
  | none => []
  | some r => r.news

end Thread

namespace Rules

variable (c : Catalog) (username : String) (amount? : Objective → Option Amount)
  (now : Instant)

theorem advanceQuest_eq (j : Journal) (quest : String) :
    advanceQuest c username amount? now j quest
      = match (j.thread quest).stride? c username amount? now quest with
        | none => ⟨j, [], []⟩
        | some r =>
          ⟨if r.finished then finish quest now j else j.update r.activation, r.update.toList,
            r.news⟩ := by
  have hfound : (do
      let q ← c.get? quest
      let a ← j.activation? quest
      let s ← q.step? a.step
      return (q, a, s)) = (j.thread quest).position? c quest := rfl
  simp only [advanceQuest, hfound, Thread.stride?]
  cases (j.thread quest).position? c quest <;> rfl

variable {j : Journal}

/-- `advanceQuest` changes the thread of its quest only. -/
theorem thread_advanceQuest {x : String} (h : j.log.Single x) (quest : String) :
    (advanceQuest c username amount? now j quest).journal.thread x
      = if quest = x then (j.thread x).afterOffer c username amount? now x else j.thread x := by
  rw [advanceQuest_eq]
  cases hstride : (j.thread quest).stride? c username amount? now quest with
  | none =>
      by_cases hx : quest = x
      · subst hx
        simp only [if_true, Thread.afterOffer, hstride]
      · rw [if_neg hx]
  | some r =>
      obtain ⟨⟨q, a, s⟩, hposition, rfl⟩ := Option.map_eq_some_iff.mp hstride
      obtain ⟨-, ha, -⟩ := Thread.position?_eq_some.mp hposition
      have hquest : (stride q s username ((j.thread quest).count.getD 0 + 1) amount? now
          a).activation.quest = quest :=
        (stride_quest ..).trans (Journal.quest_of_activation? ha)
      dsimp only at hstride ⊢
      generalize stride q s username ((j.thread quest).count.getD 0 + 1) amount? now a = r at *
      have hr : (if r.finished then finish quest now j else j.update r.activation).thread x
          = if quest = x then (j.thread quest).afterStride r else j.thread x := by
        cases hfinished : r.finished with
        | true =>
            rw [if_pos rfl, Journal.thread_finish h]
            simp only [Thread.afterStride, hfinished, if_true]
        | false =>
            rw [if_neg Bool.false_ne_true, Journal.thread_update (b := a) (hquest ▸ ha), hquest]
            simp only [Thread.afterStride, hfinished, Bool.false_eq_true, if_false]
      rw [hr]
      by_cases hx : quest = x
      · subst hx
        simp only [if_true, Thread.afterOffer, hstride]
      · rw [if_neg hx, if_neg hx]

theorem single_advanceQuest {x : String} (h : j.log.Single x) (quest : String) :
    (advanceQuest c username amount? now j quest).journal.log.Single x := by
  rw [advanceQuest_eq]
  split
  · exact h
  · rename_i r _
    cases hfinished : r.finished with
    | true => exact Journal.single_finish h quest now
    | false => exact Journal.single_update h r.activation

theorem news_advanceQuest (j : Journal) (quest : String) :
    (advanceQuest c username amount? now j quest).news
      = (j.thread quest).offerNews c username amount? now quest := by
  rw [advanceQuest_eq]
  unfold Thread.offerNews
  cases (j.thread quest).stride? c username amount? now quest <;> rfl

/-- `advanceQuest` publishes notifications about its quest only. -/
theorem about_offerNews (j : Journal) (quest : String) :
    ∀ n ∈ (j.thread quest).offerNews c username amount? now quest,
      n.username = username ∧ n.quest = quest ∧ n.failure? = none := by
  unfold Thread.offerNews
  cases hstride : (j.thread quest).stride? c username amount? now quest with
  | none => exact fun n hn => absurd hn List.not_mem_nil
  | some r =>
      obtain ⟨⟨q, a, s⟩, hposition, rfl⟩ := Option.map_eq_some_iff.mp hstride
      obtain ⟨-, ha, -⟩ := Thread.position?_eq_some.mp hposition
      intro n hn
      obtain ⟨hname, hquest, hfailure⟩ := stride_about _ _ _ _ _ _ _ n hn
      exact ⟨hname, hquest.trans (Journal.quest_of_activation? ha), hfailure⟩

theorem silent_advanceQuest (j : Journal) (quest : String)
    (h : (advanceQuest c username amount? now j quest).updates = []) :
    (advanceQuest c username amount? now j quest).news = [] := by
  rw [advanceQuest_eq] at h ⊢
  cases hstride : (j.thread quest).stride? c username amount? now quest with
  | none => rfl
  | some r =>
      rw [hstride] at h
      obtain ⟨⟨q, a, s⟩, -, rfl⟩ := Option.map_eq_some_iff.mp hstride
      exact stride_silent _ _ _ _ _ _ _ (by simpa using h)

/-! ## All active quests -/

theorem single_advanceAll {x : String} (quests : List String) (h : j.log.Single x) :
    (advanceAll c username amount? now quests j).journal.log.Single x := by
  induction quests generalizing j with
  | nil => exact h
  | cons quest rest ih => exact ih (single_advanceQuest c username amount? now h quest)

theorem distinct_advanceAll (quests : List String) (hd : j.log.Distinct) :
    (advanceAll c username amount? now quests j).journal.log.Distinct :=
  QuestLog.distinct_iff.mpr fun x =>
    single_advanceAll c username amount? now quests (QuestLog.distinct_iff.mp hd x)

variable {x : String}

theorem thread_advanceAll {quests : List String} (hcount : quests.count x ≤ 1)
    (h : j.log.Single x) :
    (advanceAll c username amount? now quests j).journal.thread x
      = if x ∈ quests then (j.thread x).afterOffer c username amount? now x else j.thread x := by
  induction quests generalizing j with
  | nil => rfl
  | cons quest rest ih =>
      have hthread := thread_advanceQuest c username amount? now h quest
      have hrest : rest.count x ≤ 1 := Nat.le_trans List.count_le_count_cons hcount
      refine (ih hrest (single_advanceQuest c username amount? now h quest)).trans ?_
      rw [hthread]
      by_cases hx : quest = x
      · subst hx
        have hquest : quest ∉ rest := List.count_eq_zero.mp (by
          rw [List.count_cons_self] at hcount
          omega)
        rw [if_neg hquest, if_pos rfl, if_pos List.mem_cons_self]
      · have hne : ¬ x = quest := fun h => hx h.symm
        simp only [if_neg hx, List.mem_cons, hne, false_or]

theorem offerNews_advanceAll {quests : List String} (hcount : quests.count x ≤ 1)
    (h : j.log.Single x) :
    (advanceAll c username amount? now quests j).news.filter (·.quest = x)
      = if x ∈ quests then (j.thread x).offerNews c username amount? now x else [] := by
  induction quests generalizing j with
  | nil => rfl
  | cons quest rest ih =>
      have hthread := thread_advanceQuest c username amount? now h quest
      have habout := about_offerNews c username amount? now j quest
      have hrest : rest.count x ≤ 1 := Nat.le_trans List.count_le_count_cons hcount
      show List.filter _ (_ ++ _) = _
      rw [List.filter_append, ih hrest (single_advanceQuest c username amount? now h quest),
        hthread, news_advanceQuest]
      by_cases hx : quest = x
      · subst hx
        have hquest : quest ∉ rest := List.count_eq_zero.mp (by
          rw [List.count_cons_self] at hcount
          omega)
        rw [if_neg hquest, if_pos List.mem_cons_self, List.append_nil, List.filter_eq_self]
        exact fun n hn => decide_eq_true (habout n hn).2.1
      · have hne : ¬ x = quest := fun h => hx h.symm
        have hnone : ((j.thread quest).offerNews c username amount? now quest).filter (·.quest = x)
            = [] := by
          rw [List.filter_eq_nil_iff]
          intro n hn hnx
          exact hx ((habout n hn).2.1.symm.trans (of_decide_eq_true hnx))
        simp only [hnone, if_neg hx, List.mem_cons, hne, false_or, List.nil_append]


theorem about_advanceAll (quests : List String) (j : Journal) :
    ∀ n ∈ (advanceAll c username amount? now quests j).news,
      n.username = username ∧ n.failure? = none := by
  induction quests generalizing j with
  | nil => exact fun n hn => absurd hn List.not_mem_nil
  | cons quest rest ih =>
      intro n hn
      rcases List.mem_append.mp hn with hn | hn
      · rw [news_advanceQuest] at hn
        obtain ⟨hname, -, hfailure⟩ := about_offerNews c username amount? now j quest n hn
        exact ⟨hname, hfailure⟩
      · exact ih _ n hn

theorem failed_advanceQuest (j : Journal) (quest : String) :
    (advanceQuest c username amount? now j quest).journal.failed = j.failed := by
  rw [advanceQuest_eq]
  split
  · rfl
  · dsimp only
    split <;> rfl

theorem failed_advanceAll (quests : List String) (j : Journal) :
    (advanceAll c username amount? now quests j).journal.failed = j.failed := by
  induction quests generalizing j with
  | nil => rfl
  | cons quest rest ih => exact (ih _).trans (failed_advanceQuest c username amount? now j quest)

theorem silent_advanceAll (quests : List String) (j : Journal)
    (h : (advanceAll c username amount? now quests j).updates = []) :
    (advanceAll c username amount? now quests j).news = [] := by
  induction quests generalizing j with
  | nil => rfl
  | cons quest rest ih =>
      obtain ⟨hfirst, hlater⟩ := List.append_eq_nil_iff.mp h
      exact List.append_eq_nil_iff.mpr
        ⟨silent_advanceQuest c username amount? now j quest hfirst, ih _ hlater⟩

/-- There is no stride for a quest that is not active. -/
theorem stride?_of_inactive (h : x ∉ j.active.map (·.quest)) :
    (j.thread x).stride? c username amount? now x = none := by
  have hnone : (j.thread x).current = none := by
    refine List.find?_eq_none.mpr fun a ha hax => h ?_
    exact List.mem_map.mpr ⟨a, ha, of_decide_eq_true hax⟩
  unfold Thread.stride?
  rw [Thread.position?_of_inactive c x hnone]
  rfl

/-- `progress` is `advanceQuest` on every single thread. -/
theorem thread_progress (h : j.log.Single x) :
    (progress c username amount? now j).journal.thread x
      = (j.thread x).afterOffer c username amount? now x := by
  have hcount : (j.active.map (·.quest)).count x ≤ 1 := j.log.count_active x ▸ h
  refine (thread_advanceAll c username amount? now hcount h).trans ?_
  by_cases hx : x ∈ j.active.map (·.quest)
  · rw [if_pos hx]
  · rw [if_neg hx]
    unfold Thread.afterOffer
    rw [stride?_of_inactive c username amount? now hx]

theorem offerNews_progress (h : j.log.Single x) :
    (progress c username amount? now j).news.filter (·.quest = x)
      = (j.thread x).offerNews c username amount? now x := by
  have hcount : (j.active.map (·.quest)).count x ≤ 1 := j.log.count_active x ▸ h
  refine (offerNews_advanceAll c username amount? now hcount h).trans ?_
  by_cases hx : x ∈ j.active.map (·.quest)
  · rw [if_pos hx]
  · rw [if_neg hx]
    unfold Thread.offerNews
    rw [stride?_of_inactive c username amount? now hx]

theorem Transition.journal_ruling {α : Type} (t : Transition) (answer : α) (j : Journal) :
    (t.ruling answer).journal j = t.journal := by
  unfold Transition.ruling
  split <;> rfl

theorem Transition.answer_ruling {α : Type} (t : Transition) (answer : α) :
    (t.ruling answer).answer = .ok answer := by
  unfold Transition.ruling
  split <;> rfl

/-- `Transition.ruling` drops no news: a transition of `progress` without an update has none. -/
theorem news_ruling_progress {α : Type} (j : Journal) (answer : α) :
    ((progress c username amount? now j).ruling answer).news
      = (progress c username amount? now j).news := by
  unfold Transition.ruling
  split
  · rename_i h
    exact (silent_advanceAll c username amount? now _ j (List.isEmpty_iff.mp h)).symm
  · rfl

end Rules

end Questline
