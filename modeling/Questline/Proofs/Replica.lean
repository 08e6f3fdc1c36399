import Questline.Proofs.Course

/-!
# A replica folded from the notifications

A listener of the notifications of one player can keep a replica of that player's quests by folding
them (`Replica.receive`), never looking at the engine. In every run over an empty repository the
replica is exact after every turn: it has the active quests, the step of each, the counters of that
step, the numbers of completions and the failures (`mirrors_published`). So every change is
published, once, in order, and nothing else is.

The proof looks at one quest at a time. The projection of a replica to one quest, `QuestReplica`, is
changed by the notifications about that quest only, and the news of a `QuestTransition` takes a
replica of the thread before to one of the thread after (`QuestReplica.mirrors_of_transition`).
-/

namespace Questline

/-- The replica of an active quest: its step and the counters of that step. -/
structure ActivationReplica where
  step : String
  /-- The current count and whether the objective is complete, by objective. -/
  counters : Dict (UInt32 × Bool)

namespace ActivationReplica

/-- The replica of a step that is just entered. -/
def entering (step : String) : ActivationReplica := ⟨step, ∅⟩

/-- An objective without a notification so far is at zero. -/
def counter (s : ActivationReplica) (objective : String) : UInt32 × Bool :=
  (s.counters.get? objective).getD (0, false)

def setCounter (s : ActivationReplica) (u : ObjectiveUpdate) : ActivationReplica :=
  { s with counters := s.counters.insert u.objective (u.current, u.completed) }

end ActivationReplica

/-- The replica of a player's quests. -/
structure Replica where
  active : Dict ActivationReplica
  /-- The numbers of completions. -/
  completions : Dict UInt32
  failures : List (String × Option String)

namespace Replica

/-- The replica before any notification. -/
def blank : Replica := ⟨∅, ∅, []⟩

/-- The replica after one more notification. -/
def receive (r : Replica) : Notification → Replica
  | .started _ quest step _ => { r with active := r.active.insert quest (.entering step) }
  | .abandoned _ quest => { r with active := r.active.erase quest }
  | .completed _ quest _ _ =>
    { r with
      active := r.active.erase quest
      completions := r.completions.insert quest ((r.completions.get? quest).getD 0 + 1) }
  | .failed _ quest reason =>
    { r with active := r.active.erase quest, failures := r.failures ++ [(quest, reason)] }
  | .stepCompleted _ quest _ (some next) _ =>
    { r with active := r.active.insert quest (.entering next) }
  | .stepCompleted _ _ _ none _ => r
  | .objectiveUpdated _ quest _ u =>
    match r.active.get? quest with
    | some s => { r with active := r.active.insert quest (s.setCounter u) }
    | none => r

/-- The fold of the notifications about the player of a lower-cased name. -/
def of (key : String) (news : List Notification) : Replica :=
  (news.filter (playerKey ·.username = key)).foldl receive blank

/-- The replica agrees with the journal in everything it holds. -/
structure Mirrors (r : Replica) (j : Journal) : Prop where
  active : ∀ quest, r.active.contains quest = j.isActive quest
  distinct : (j.active.map (·.quest)).Nodup
  step : ∀ a ∈ j.active, (r.active.get? a.quest).map (·.step) = some a.step
  counters : ∀ a ∈ j.active, ∀ s, r.active.get? a.quest = some s → ∀ objective,
    s.counter objective
      = ((a.counter? a.step objective).map fun c => (c.current, c.completed)).getD (0, false)
  completions : ∀ quest, r.completions.get? quest = (j.completion? quest).map (·.count)
  failures : r.failures = j.failed.map fun f => (f.quest, f.reason)

end Replica

/-! ## One quest -/

/-- The projection of a replica to one quest. -/
structure QuestReplica where
  activation : Option ActivationReplica
  count : Option UInt32

namespace QuestReplica

def receive (k : QuestReplica) : Notification → QuestReplica
  | .started _ _ step _ => { k with activation := some (.entering step) }
  | .abandoned _ _ | .failed _ _ _ => { k with activation := none }
  | .completed _ _ _ _ => ⟨none, some (k.count.getD 0 + 1)⟩
  | .stepCompleted _ _ _ (some next) _ => { k with activation := some (.entering next) }
  | .stepCompleted _ _ _ none _ => k
  | .objectiveUpdated _ _ _ u => { k with activation := k.activation.map (·.setCounter u) }

end QuestReplica

namespace Replica

def questReplica (r : Replica) (quest : String) : QuestReplica :=
  ⟨r.active.get? quest, r.completions.get? quest⟩

/-- A notification changes the projection to its own quest only. -/
theorem questReplica_receive (r : Replica) (n : Notification) (quest : String) :
    (r.receive n).questReplica quest
      = if n.quest = quest then (r.questReplica quest).receive n else r.questReplica quest := by
  cases n with
  | started u q step actions =>
      by_cases h : q = quest <;>
        simp [receive, questReplica, QuestReplica.receive, Notification.quest, h]
  | abandoned u q =>
      by_cases h : q = quest <;>
        simp [receive, questReplica, QuestReplica.receive, Notification.quest, h]
  | completed u q count rewards =>
      by_cases h : q = quest <;>
        simp [receive, questReplica, QuestReplica.receive, Notification.quest, h]
  | failed u q reason =>
      by_cases h : q = quest <;>
        simp [receive, questReplica, QuestReplica.receive, Notification.quest, h]
  | stepCompleted u q step next actions =>
      cases next <;> by_cases h : q = quest <;>
        simp [receive, questReplica, QuestReplica.receive, Notification.quest, h]
  | objectiveUpdated u q step update =>
      by_cases h : q = quest
      · subst h
        cases hs : r.active.get? q <;>
          simp [receive, questReplica, QuestReplica.receive, Notification.quest, hs]
      · cases hs : r.active.get? q <;> simp [receive, questReplica, Notification.quest, hs, h]

theorem questReplica_foldl (quest : String) (news : List Notification) (r : Replica) :
    (news.foldl receive r).questReplica quest
      = (news.filter (·.quest = quest)).foldl QuestReplica.receive (r.questReplica quest) := by
  induction news generalizing r with
  | nil => rfl
  | cons n news ih =>
      rw [List.foldl_cons, ih, questReplica_receive, List.filter_cons]
      by_cases h : n.quest = quest <;> simp [h]

theorem failures_receive (r : Replica) (n : Notification) :
    (r.receive n).failures = r.failures ++ n.failure?.toList := by
  cases n with
  | stepCompleted u q step next actions => cases next <;> simp [receive, Notification.failure?]
  | objectiveUpdated u q step update =>
      cases hs : r.active.get? q <;> simp [receive, Notification.failure?, hs]
  | _ => simp [receive, Notification.failure?]

theorem failures_foldl (news : List Notification) (r : Replica) :
    (news.foldl receive r).failures = r.failures ++ news.filterMap Notification.failure? := by
  induction news generalizing r with
  | nil => exact (List.append_nil _).symm
  | cons n news ih =>
      rw [List.foldl_cons, ih, failures_receive, List.filterMap_cons, List.append_assoc]
      cases n.failure? <;> rfl

end Replica

/-! ## Counters -/

/-- A counter that has not changed is the same counter. -/
theorem Counter.apply_unchanged (c : Counter) (amount : Amount)
    (h : (c.apply amount).2.1 = false) : (c.apply amount).1 = c := by
  cases amount with
  | increment n =>
      simp only [apply] at h ⊢
      split at h
      · rw [if_pos (by assumption)]
      · cases h
  | observed n =>
      simp only [apply, observe] at h ⊢
      split at h
      · rw [if_pos (by assumption)]
      · rename_i hopen
        rw [if_neg hopen]
        split at h
        · rw [if_pos (by assumption)]
        · cases h

/-- What a replica is to hold of a counter. -/
def StepProgress.view (p : StepProgress) (objective : String) : UInt32 × Bool :=
  ((p.counters.get? objective).map fun c => (c.current, c.completed)).getD (0, false)

namespace StepProgress

theorem view_setCounter (p : StepProgress) (id : String) (c : Counter) (objective : String) :
    (p.setCounter id c).view objective
      = if id = objective then (c.current, c.completed) else p.view objective := by
  by_cases h : id = objective <;> simp [view, setCounter, h]

/-- The counter that `Rules.offer` creates for a missing entry is at zero, as its replica is. -/
theorem view_setCounter_self (p : StepProgress) (id : String) (required : UInt32)
    (objective : String) :
    (p.setCounter id (p.counter id required)).view objective = p.view objective := by
  rw [view_setCounter]
  by_cases h : id = objective
  · subst h
    unfold counter view
    cases p.counters.get? id <;> simp [Counter.fresh]
  · rw [if_neg h]

theorem view_start (s : Step) (now : Instant) (objective : String) :
    (start s now).view objective = (0, false) := by
  unfold view start
  rw [Dict.get?_ofList]
  cases h : findValue? objective
      (s.objectives.map fun o => (o.id, Counter.fresh o.requiredCount)).reverse with
  | none => rfl
  | some c =>
      obtain ⟨o, -, ho⟩ := List.mem_map.mp (List.mem_reverse.mp (mem_of_findValue? h))
      cases ho
      rfl

end StepProgress

namespace ActivationReplica

theorem counter_setCounter (s : ActivationReplica) (u : ObjectiveUpdate) (objective : String) :
    (s.setCounter u).counter objective
      = if u.objective = objective then (u.current, u.completed) else s.counter objective := by
  by_cases h : u.objective = objective <;> simp [counter, setCounter, h]

theorem step_foldl (moved : List ObjectiveUpdate) (s : ActivationReplica) :
    (moved.foldl setCounter s).step = s.step := by
  induction moved generalizing s with
  | nil => rfl
  | cons m moved ih => exact ih _

/-- Folding the notifications of `Rules.offer` takes a replica of the counters before to one of the
counters after. -/
theorem counter_offer (amount? : Objective → Option Amount) (objectives : List Objective)
    (p : StepProgress) (s : ActivationReplica)
    (h : ∀ objective, s.counter objective = p.view objective)
    (objective : String) :
    ((Rules.offer amount? objectives p).2.1.foldl setCounter s).counter objective
      = (Rules.offer amount? objectives p).1.view objective := by
  induction objectives generalizing p s with
  | nil => exact h objective
  | cons o rest ih =>
      simp only [Rules.offer]
      cases amount? o with
      | none => exact ih p s h
      | some amount =>
          dsimp only
          cases hchanged : ((p.counter o.id o.requiredCount).apply amount).2.1 with
          | true =>
              rw [if_pos rfl]
              refine ih _ _ fun objective => ?_
              rw [counter_setCounter, StepProgress.view_setCounter]
              by_cases ho : o.id = objective <;> simp [ho, h]
          | false =>
              rw [if_neg Bool.false_ne_true]
              refine ih _ _ fun objective => ?_
              rw [Counter.apply_unchanged _ _ hchanged, StepProgress.view_setCounter_self, h]

end ActivationReplica

/-! ## One transition -/

/-- The replica of an active quest agrees with the activation. -/
structure ActivationReplica.Shows (s : ActivationReplica) (a : Activation) : Prop where
  step : s.step = a.step
  counters : ∀ objective, s.counter objective
    = ((a.counter? a.step objective).map fun c => (c.current, c.completed)).getD (0, false)

namespace ActivationReplica.Shows

variable {s : ActivationReplica} {a : Activation}

theorem of_view {p : StepProgress} (hstep : s.step = a.step)
    (hp : a.progress.get? a.step = some p)
    (h : ∀ objective, s.counter objective = p.view objective) : s.Shows a where
  step := hstep
  counters objective := by
    rw [h objective]
    unfold StepProgress.view Activation.counter?
    rw [hp]
    rfl

theorem view (h : s.Shows a) {p : StepProgress} (hp : a.progress.get? a.step = some p)
    (objective : String) : s.counter objective = p.view objective := by
  rw [h.counters]
  unfold StepProgress.view Activation.counter?
  rw [hp]
  rfl

theorem entering_start (q : Quest) (t : Step) (now : Instant) :
    (ActivationReplica.entering t.id).Shows (.start q t now) :=
  of_view rfl (by simp [Activation.start]) fun objective =>
    (StepProgress.view_start t now objective).symm

theorem entering_enter (a : Activation) (t : Step) (now : Instant) :
    (ActivationReplica.entering t.id).Shows (a.enter t now) :=
  of_view rfl (by simp [Activation.enter]) fun objective =>
    (StepProgress.view_start t now objective).symm

end ActivationReplica.Shows

namespace QuestReplica

/-- The projection of a replica to a quest agrees with the thread of the quest. -/
structure Mirrors (k : QuestReplica) (t : Thread) : Prop where
  inactive : t.current = none → k.activation = none
  active : ∀ a, t.current = some a → ∃ s, k.activation = some s ∧ s.Shows a
  count : k.count = t.count

theorem Mirrors.of_inactive (count : Option UInt32) : Mirrors ⟨none, count⟩ ⟨none, count⟩ where
  inactive _ := rfl
  active _ h := by cases h
  count := rfl

theorem Mirrors.of_shows {s : ActivationReplica} {a : Activation} (h : s.Shows a)
    (count : Option UInt32) :
    Mirrors ⟨some s, count⟩ ⟨some a, count⟩ where
  inactive h := by cases h
  active b hb := by
    cases hb
    exact ⟨s, rfl, h⟩
  count := rfl

/-- Inversion of `Mirrors` for an active quest. -/
theorem Mirrors.eq_some {k : QuestReplica} {a : Activation} {count : Option UInt32}
    (h : k.Mirrors ⟨some a, count⟩) : ∃ s, k = ⟨some s, count⟩ ∧ s.Shows a := by
  obtain ⟨s, hs, hshows⟩ := h.active a rfl
  refine ⟨s, ?_, hshows⟩
  rw [← hs, ← show k.count = count from h.count]

theorem Mirrors.eq_none {k : QuestReplica} {count : Option UInt32} (h : k.Mirrors ⟨none, count⟩) :
    k = ⟨none, count⟩ := by
  rw [← h.inactive rfl, ← show k.count = count from h.count]

theorem foldl_objectiveUpdated (username quest step : String) (moved : List ObjectiveUpdate)
    (s : ActivationReplica) (count : Option UInt32) :
    (moved.map (Notification.objectiveUpdated username quest step)).foldl receive ⟨some s, count⟩
      = ⟨some (moved.foldl ActivationReplica.setCounter s), count⟩ := by
  induction moved generalizing s with
  | nil => rfl
  | cons m moved ih => exact ih _

variable {c : Catalog} {username : String} {now : Instant} {quest : String} {k : QuestReplica}
  {t t' : Thread} {news : List Notification}

theorem mirrors_of_stride {amount? : Objective → Option Amount}
    (h : QuestStride c username now quest amount? t news t') (hk : k.Mirrors t) :
    (news.foldl receive k).Mirrors t' := by
  cases h with
  | idle => exact hk
  | @update a count o =>
      obtain ⟨s, rfl, hs⟩ := hk.eq_some
      have hoffer := ActivationReplica.counter_offer amount? o.s.objectives o.before s
        (hs.view o.recorded)
      rw [o.offered] at hoffer
      have hshows : (o.moved.foldl ActivationReplica.setCounter s).Shows
        (a.setCurrentProgress o.after) :=
        .of_view ((ActivationReplica.step_foldl o.moved s).trans hs.step)
          (by simp [Activation.setCurrentProgress]) hoffer
      rw [Offering.counterNews, foldl_objectiveUpdated]
      exact .of_shows hshows _
  | advance o =>
      obtain ⟨s, rfl, -⟩ := hk.eq_some
      rw [Offering.counterNews, List.foldl_append, foldl_objectiveUpdated]
      exact .of_shows (.entering_enter ..) _
  | complete o =>
      obtain ⟨s, rfl, -⟩ := hk.eq_some
      rw [Offering.counterNews, List.foldl_append, foldl_objectiveUpdated]
      exact .of_inactive _

/-- The notification of `Rules.branch` takes a replica to the target, with its counters at zero. -/
theorem mirrors_of_branch {q : Quest} {target : Step} {origin : String} {a : Activation}
    {count : Option UInt32} (hcount : k.count = count) :
    (k.receive (Rules.branch q target origin username now a).2).Mirrors
      ⟨some (Rules.branch q target origin username now a).1, count⟩ := by
  have henter : ∃ left : Activation,
      (Rules.branch q target origin username now a).1 = left.enter target now := by
    simp only [Rules.branch]
    split
    · exact ⟨_, rfl⟩
    · split <;> exact ⟨_, rfl⟩
  obtain ⟨left, hleft⟩ := henter
  rw [hleft, ← hcount]
  exact .of_shows (.entering_enter ..) _

/-- Step lemma: the news of a transition takes a replica of the thread before to one of the thread
after. -/
theorem mirrors_of_transition {stimulus? : Option Stimulus} {target? : Option Step}
    (h : QuestTransition c username now quest stimulus? target? t news t') (hk : k.Mirrors t) :
    (news.foldl receive k).Mirrors t' := by
  cases h with
  | stay => exact hk
  | start =>
      rw [hk.eq_none]
      exact .of_shows (.entering_start ..) _
  | abandon =>
      obtain ⟨s, rfl, -⟩ := hk.eq_some
      exact .of_inactive _
  | complete rewards =>
      obtain ⟨s, rfl, -⟩ := hk.eq_some
      exact .of_inactive _
  | fail reason =>
      obtain ⟨s, rfl, -⟩ := hk.eq_some
      exact .of_inactive _
  | @setVariable a count key value =>
      obtain ⟨s, rfl, hs⟩ := hk.eq_some
      have hshows : s.Shows (a.setVariable key value) := ⟨hs.step, hs.counters⟩
      exact .of_shows hshows _
  | meet hstride => exact mirrors_of_stride hstride hk
  | branch => exact mirrors_of_branch hk.count
  | talk _ _ hstride =>
      rw [List.foldl_append]
      exact mirrors_of_branch (mirrors_of_stride hstride hk).count

end QuestReplica

/-! ## Runs -/

variable {ρ : Type} [Repository ρ] [TableRepository ρ]

/-- The replica agrees with the quest log of its player, thread by thread. -/
structure Replica.MirrorsLog (r : Replica) (l : QuestLog) : Prop where
  questReplica : ∀ quest, (r.questReplica quest).Mirrors (l.thread quest)
  failures : r.failures = l.failures

theorem Replica.mirrorsLog_blank : Replica.blank.MirrorsLog .blank where
  questReplica _ := .of_inactive none
  failures := rfl

namespace Engine

theorem take_replica {e : Engine ρ} (hs : e.store.Sound) (ho : e.Orderly) {key : String}
    {r : Replica} (h : r.MirrorsLog (e.store.place key).log) (t : Turn) :
    (((e.take t).news.filter (playerKey ·.username = key)).foldl Replica.receive r).MirrorsLog
      ((e.take t).engine.store.place key).log where
  questReplica quest := by
    have habout : ((e.take t).news.filter (playerKey ·.username = key)).filter (·.quest = quest)
        = (e.take t).news.filter (·.isAbout key quest) := by
      rw [List.filter_filter]
      refine List.filter_congr fun n _ => ?_
      exact Bool.and_comm ..
    rw [Replica.questReplica_foldl, habout]
    rcases take_transition hs t ((ho key).at quest) with ⟨hthread, hnews, -⟩
      | ⟨_, _, _, _, _, -, -, -, -, htransition⟩
    · rw [hthread, hnews]
      exact h.questReplica quest
    · exact QuestReplica.mirrors_of_transition htransition (h.questReplica quest)
  failures := by
    rw [Replica.failures_foldl, h.failures]
    rcases take_cases hs t key with ⟨hlog, hnews, -⟩
      | ⟨c, op, username, rule, j, -, hplan, hkey, -, hj, hlog, hnews⟩
    · rw [hlog, List.filter_eq_nil_iff.mpr fun n hn hkey => hnews n hn (of_decide_eq_true hkey)]
      exact List.append_nil _
    · have hfaithful := Operation.faithful hplan j
      rw [hlog, hfaithful.failures, hj, hnews, List.filter_eq_self.mpr fun n hn => ?_]
      rw [hfaithful.named n hn]
      exact decide_eq_true hkey

theorem after_replica {e : Engine ρ} (hs : e.store.Sound) (ho : e.Orderly) {key : String}
    {r : Replica} (h : r.MirrorsLog (e.store.place key).log) (turns : List Turn) :
    (((e.published turns).filter (playerKey ·.username = key)).foldl Replica.receive r).MirrorsLog
      ((e.after turns).store.place key).log := by
  induction turns generalizing e r with
  | nil => exact h
  | cons t turns ih =>
      rw [published, List.filter_append, List.foldl_append]
      exact ih (take_sound hs t) (take_orderly hs ho t) (take_replica hs ho h t)

end Engine

theorem Replica.MirrorsLog.mirrors {r : Replica} {j : Journal} (h : r.MirrorsLog j.log)
    (hd : j.log.Distinct) : r.Mirrors j where
  active quest := by
    have hreplica := h.questReplica quest
    show (r.active.get? quest).isSome = (j.activation? quest).isSome
    cases ha : j.activation? quest with
    | none =>
        rw [show r.active.get? quest = none from hreplica.inactive ha]
        rfl
    | some a =>
        obtain ⟨s, hs, -⟩ := hreplica.active a ha
        rw [show r.active.get? quest = some s from hs]
        rfl
  distinct := hd
  step a ha := by
    obtain ⟨s, hs, hshows⟩ := (h.questReplica a.quest).active a (Journal.activation?_of_mem hd ha)
    rw [show r.active.get? a.quest = some s from hs, ← hshows.step]
    rfl
  counters a ha s hs := by
    obtain ⟨s', hs', hshows⟩ := (h.questReplica a.quest).active a (Journal.activation?_of_mem hd ha)
    have hsame : s = s' := Option.some.inj (hs.symm.trans hs')
    exact hsame ▸ hshows.counters
  completions quest := (h.questReplica quest).count
  failures := h.failures

/-- **The notifications are a faithful log.** In a run over an empty repository, whatever
is asked and whatever fails, the replica of every player agrees after every turn with the
journal that is found for that player. -/
theorem mirrors_published (catalog : Catalog) (repository : ρ)
    (hempty : TableRepository.records repository = ∅) (limit : Nat) (turns : List Turn)
    (c : Circumstances) (username : String) (j : Journal)
    (hfound : (((Engine.new catalog repository limit).after turns).store.fetch c username).result
      = .ok j) :
    (Replica.of (playerKey username)
      ((Engine.new catalog repository limit).published turns)).Mirrors j := by
  have hs := Engine.sound_new catalog hempty limit
  have ho := Engine.orderly_new catalog hempty limit
  have hblank : Replica.blank.MirrorsLog
      ((Engine.new catalog repository limit).store.place (playerKey username)).log := by
    rw [Engine.log_new hempty]
    exact Replica.mirrorsLog_blank
  have hmirrors := Engine.after_replica hs ho hblank turns
  have horderly := Engine.after_orderly hs ho turns (playerKey username)
  have hlog : (((Engine.new catalog repository limit).after turns).store.place
      (playerKey username)).log = j.log := by
    rw [Engine.fetch_result_eq_opened hfound, Store.log_opened]
  rw [hlog] at hmirrors horderly
  exact hmirrors.mirrors horderly.distinct

/-- The replica of a player in a run with every kind of fault. -/
theorem mirrors_published_ratHunt :
    let e := Engine.new (Catalog.ofQuests [ratHunt]) MemoryRepository.empty 5000
    let j := (e.after ratHuntTurns).store.opened (.calm .epoch) "Ann"
    TableRepository.records MemoryRepository.empty = ∅
      ∧ ((e.after ratHuntTurns).store.fetch (.calm .epoch) "Ann").result = .ok j
      ∧ j.isActive "rats" = true
      ∧ (Replica.of (playerKey "Ann") (e.published ratHuntTurns)).Mirrors j := by
  exact ⟨rfl, by rfl, by decide, mirrors_published _ _ rfl _ _ (.calm .epoch) _ _ (by rfl)⟩

end Questline
