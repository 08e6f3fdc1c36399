import Mathlib.Data.List.Induction
import Questline.Proofs.Course

/-!
# Counters as a function of the stimuli

The counters of the current step of an active quest are a function of the stimuli (events, polls and
talks, `Operation.stimulus?`) that reached the player since the step was entered, and of nothing
else (`counters_tally`). An objective for events counts those that fit, up to what it requires; one
for the state of the player keeps the largest amount that a poll has observed.

The function is `Objective.reachedBy`, a number without a bound, and the counter is that number up
to the target (`Counter.at`). `Objective.account_step` says that `Counter.apply` commutes with one
more stimulus.
-/

namespace Questline

/-! ## Accounts -/

namespace Stimulus

/-- The level that an event reports or a poll observes, if any. -/
def level? : Stimulus → Option Nat
  | event name payload =>
    if name = EventName.playerLevelUp then payload.number? "level" else none
  | look player => some player.level.toNat

/-- The number of an item that a poll observes. -/
def itemCount (item : String) : Stimulus → Nat
  | event _ _ => 0
  | look player => (player.itemCount item).toNat

/-- Whether a poll observes a flag. -/
def showsFlag (flag : String) : Stimulus → Bool
  | event _ _ => false
  | look player => player.hasAnyFlag flag

/-- Whether it is an event that fits an objective. -/
def fits (o : Objective) : Stimulus → Bool
  | event name payload => o.isMovedBy name payload
  | look _ => false

end Stimulus

/-- The amount of an objective that a history of stimuli reaches. -/
def Objective.reachedBy (o : Objective) (history : List Stimulus) : Nat :=
  match o.goal with
  | .reachLevel level =>
    if history.any fun met => met.level?.any ((max level 1).toNat ≤ ·) then
      o.requiredCount.toNat
    else 0
  | .haveItem item => (history.map (·.itemCount item)).foldl max 0
  | .haveFlag flag => if history.any (·.showsFlag flag) then o.requiredCount.toNat else 0
  | _ => history.countP (·.fits o)

/-- The counter of a target of which so much is reached. -/
def Counter.at (target : UInt32) (reached : Nat) : Counter :=
  ⟨UInt32.ofNat (min target.toNat reached), target, target.toNat ≤ reached⟩

namespace Counter

theorem current_at (target : UInt32) (reached : Nat) :
    (Counter.at target reached).current.toNat = min target.toNat reached := by
  have hlt : min target.toNat reached < UInt32.size :=
    Nat.lt_of_le_of_lt (Nat.min_le_left ..) target.toNat_lt
  exact UInt32.toNat_ofNat_of_lt hlt

theorem completed_at_iff (target : UInt32) (reached : Nat) :
    (Counter.at target reached).completed = true
      ↔ (Counter.at target reached).current = target := by
  rw [← UInt32.toNat_inj, current_at]
  show decide (target.toNat ≤ reached) = true ↔ _
  rw [decide_eq_true_iff]
  omega

/-- A counter beyond its target is at its target. -/
theorem at_eq_of_min_eq {target : UInt32} {m n : Nat}
    (h : min target.toNat m = min target.toNat n) : Counter.at target m = Counter.at target n := by
  have hcompleted : decide (target.toNat ≤ m) = decide (target.toNat ≤ n) := by
    rw [decide_eq_decide]
    omega
  unfold Counter.at
  rw [h, hcompleted]

theorem toNat_min (m n : UInt32) : (min m n).toNat = min m.toNat n.toNat := by
  rw [show min m n = if m ≤ n then m else n from rfl]
  split
  · rename_i h
    rw [UInt32.le_iff_toNat_le] at h
    omega
  · rename_i h
    rw [UInt32.le_iff_toNat_le] at h
    omega

theorem toNat_max_one (n : UInt32) : (max n 1).toNat = max n.toNat 1 := by
  rw [show max n 1 = if n ≤ 1 then 1 else n from rfl]
  have hone : (1 : UInt32).toNat = 1 := rfl
  split
  · rename_i h
    rw [UInt32.le_iff_toNat_le] at h
    omega
  · rename_i h
    rw [UInt32.le_iff_toNat_le] at h
    omega

theorem max_one_eq {required : UInt32} (h : 1 ≤ required) : max required 1 = required := by
  have hone : 1 ≤ required.toNat := UInt32.le_iff_toNat_le.mp h
  rw [← UInt32.toNat_inj, toNat_max_one]
  omega

/-- A fresh counter is at zero of its target. -/
theorem fresh_eq {required : UInt32} (h : 1 ≤ required) :
    Counter.fresh required = ⟨0, required, false⟩ := by
  rw [Counter.fresh, max_one_eq h]

/-- A fresh counter is at zero of a target of at least one. -/
theorem fresh_eq_at_max (required : UInt32) :
    Counter.fresh required = Counter.at (max required 1) 0 := by
  have hopen : decide ((max required 1).toNat ≤ 0) = false := by
    rw [decide_eq_false_iff_not, toNat_max_one]
    omega
  rw [Counter.fresh, Counter.at, hopen, Nat.min_zero]
  rfl

theorem fresh_eq_at {required : UInt32} (h : 1 ≤ required) :
    Counter.fresh required = Counter.at required 0 := by
  rw [fresh_eq_at_max, max_one_eq h]

/-- Below the target, the current count is what is reached. -/
theorem current_of_lt {target : UInt32} {n : Nat} (h : n < target.toNat) :
    (Counter.at target n).current.toNat = n := by
  rw [current_at]
  omega

/-- `Counter.settle` on the current count of `Counter.at` is `Counter.at`. -/
theorem settle_eq_at {target current : UInt32} {n : Nat}
    (h : current.toNat = min target.toNat n) :
    (settle ⟨current, target, false⟩).1 = Counter.at target n := by
  have hcurrent : current = (Counter.at target n).current := by
    rw [← UInt32.toNat_inj, current_at, h]
  simp only [settle, UInt32.le_iff_toNat_le, h]
  split
  · have hdone : decide (target.toNat ≤ n) = true := decide_eq_true (by omega)
    rw [Counter.at, hdone, hcurrent]
    rfl
  · have hopen : decide (target.toNat ≤ n) = false := decide_eq_false (by omega)
    rw [Counter.at, hopen, hcurrent]
    rfl

/-- `Counter.add` does not wrap around: the sum is that of the numbers. -/
theorem at_add (target : UInt32) (reached : Nat) (n : UInt32) :
    ((Counter.at target reached).add n).1 = Counter.at target (reached + n.toNat) := by
  by_cases hdone : target.toNat ≤ reached
  · have hcompleted : (Counter.at target reached).completed = true := decide_eq_true hdone
    simp only [add, hcompleted, if_true]
    exact at_eq_of_min_eq (by omega)
  · have hcompleted : (Counter.at target reached).completed = false := decide_eq_false hdone
    have hcurrent : (Counter.at target reached).current.toNat = reached :=
      current_of_lt (by omega)
    have htarget : (Counter.at target reached).target = target := rfl
    have hlt := target.toNat_lt
    have hraised : ((Counter.at target reached).raised n).toNat
        = min target.toNat (reached + n.toNat) := by
      simp only [raised, hcurrent, htarget]
      split
      · omega
      · rw [UInt32.toNat_add, hcurrent]
        omega
    simp only [add, hcompleted, Bool.false_eq_true, if_false]
    exact settle_eq_at hraised

/-- `Counter.apply` on an increment by one. -/
theorem at_increment (target : UInt32) (n : Nat) :
    ((Counter.at target n).apply (.increment 1)).1 = Counter.at target (n + 1) := by
  have happly : ((Counter.at target n).apply (.increment 1)).1
      = ((Counter.at target n).add 1).1 := by
    simp only [apply, add]
    split <;> rfl
  rw [happly]
  exact at_add target n 1

/-- `Counter.apply` on an observed amount. -/
theorem at_observed (target : UInt32) (n : Nat) (amount : UInt32) :
    ((Counter.at target n).apply (.observed amount)).1
      = Counter.at target (max n amount.toNat) := by
  by_cases hdone : target.toNat ≤ n
  · have hcompleted : (Counter.at target n).completed = true := decide_eq_true hdone
    simp only [apply, observe, hcompleted, if_true]
    exact at_eq_of_min_eq (by omega)
  · have hcompleted : (Counter.at target n).completed = false := decide_eq_false hdone
    have hcurrent : (Counter.at target n).current.toNat = n := current_of_lt (by omega)
    have htarget : (Counter.at target n).target = target := rfl
    simp only [apply, observe, hcompleted, Bool.false_eq_true, if_false, htarget,
      UInt32.le_iff_toNat_le, toNat_min, hcurrent]
    split
    · exact at_eq_of_min_eq (by omega)
    · have hreached : (min amount target).toNat = min target.toNat (max n amount.toNat) := by
        rw [toNat_min]
        omega
      exact settle_eq_at hreached

/-- An observation of zero moves no counter. -/
theorem apply_observed_zero (c : Counter) : c.apply (.observed 0) = (c, false, false) := by
  have hnone : min 0 c.target ≤ c.current := by
    rw [UInt32.le_iff_toNat_le, toNat_min]
    exact Nat.zero_le _
  simp only [apply, observe, hnone, if_true, ite_self]

end Counter

/-! ## One more stimulus -/

namespace Objective

/-- The counter of an objective after a history of stimuli. -/
def account (o : Objective) (history : List Stimulus) : Counter :=
  Counter.at o.requiredCount (o.reachedBy history)

theorem account_nil (o : Objective) : o.account [] = Counter.fresh o.requiredCount := by
  have hnone : o.reachedBy [] = 0 := by
    unfold reachedBy
    split <;> rfl
  unfold account
  rw [hnone, Counter.fresh_eq_at o.one_le_requiredCount]

/-- The effect of an offered amount, or of none, on what is reached of an objective. -/
def ReachedEffect (o : Objective) (before after : Nat) : Option Amount → Prop
  | none => after = before
  | some (.increment n) => n = 1 ∧ after = before + 1
  | some (.observed n) =>
    min o.requiredCount.toNat after = min o.requiredCount.toNat (max before n.toNat)

theorem toNat_cappedLevel (n : Nat) : (cappedLevel n).toNat = min n (UInt32.size - 1) := by
  have hsize : UInt32.size = 4294967296 := rfl
  exact UInt32.toNat_ofNat_of_lt (by omega)

theorem cappedLevel_toNat (n : UInt32) : cappedLevel n.toNat = n := by
  have hsize : UInt32.size = 4294967296 := rfl
  have hlt := n.toNat_lt
  rw [← UInt32.toNat_inj, toNat_cappedLevel]
  omega

/-- An event and a poll offer a level goal the same: an observation of the level. -/
theorem amount?_of_level {o : Objective} {level : UInt32} (hgoal : o.goal = .reachLevel level)
    (met : Stimulus) :
    met.amount? o = match met.level? with
      | none => none
      | some k => if level.toNat ≤ k then some (.observed (cappedLevel k)) else none := by
  cases met with
  | event name payload =>
      simp only [Stimulus.amount?, eventAmount?, Stimulus.level?, isMovedBy, eventStep, hgoal,
        Goal.eventName?, Goal.fits]
      by_cases hname : name = EventName.playerLevelUp
      · subst hname
        simp only [beq_self_eq_true, Bool.true_and, if_true]
        cases payload.number? "level" with
        | none => rfl
        | some k => simp only [Option.any_some, Option.getD_some, decide_eq_true_iff]
      · have hne : (some EventName.playerLevelUp == some name) = false :=
          beq_eq_false_iff_ne.mpr fun h => hname (Option.some.inj h).symm
        simp only [hne, Bool.false_and, Bool.false_eq_true, if_false, if_neg hname]
  | look player =>
      simp only [Stimulus.amount?, polledAmount?, hgoal, Stimulus.level?, cappedLevel_toNat,
        UInt32.le_iff_toNat_le]

theorem requiredCount_level {o : Objective} {level : UInt32} (hgoal : o.goal = .reachLevel level) :
    o.requiredCount.toNat = max level.toNat 1 := by
  simp only [requiredCount, hgoal, Counter.toNat_max_one]

theorem reachedBy_level {o : Objective} {level : UInt32} (hgoal : o.goal = .reachLevel level)
    (history : List Stimulus) (met : Stimulus) :
    o.ReachedEffect (o.reachedBy history) (o.reachedBy (history ++ [met])) (met.amount? o) := by
  have hrequired := requiredCount_level hgoal
  have hsize : UInt32.size = 4294967296 := rfl
  have hlt := o.requiredCount.toNat_lt
  rw [amount?_of_level hgoal]
  simp only [reachedBy, hgoal, List.any_append, List.any_cons, List.any_nil, Bool.or_false,
    Counter.toNat_max_one]
  generalize history.any _ = seen
  cases met.level? with
  | none =>
      rw [Option.any_none, Bool.or_false]
      rfl
  | some k =>
      rw [Option.any_some]
      by_cases hle : level.toNat ≤ k
      · -- a level above the one asked for is capped at the target
        simp only [if_pos hle, ReachedEffect, toNat_cappedLevel]
        cases seen with
        | true =>
            simp only [Bool.true_or, if_true]
            omega
        | false =>
            simp only [Bool.false_or, Bool.false_eq_true, if_false, decide_eq_true_iff]
            split <;> omega
      · have hlow : decide (max level.toNat 1 ≤ k) = false := decide_eq_false (by omega)
        simp only [if_neg hle, hlow, Bool.or_false]
        rfl

theorem foldl_max_snoc (counts : List Nat) (n : Nat) :
    (counts ++ [n]).foldl max 0 = max (counts.foldl max 0) n := by
  rw [List.foldl_append]
  rfl

theorem reachedBy_item {o : Objective} {item : String} (hgoal : o.goal = .haveItem item)
    (history : List Stimulus) (met : Stimulus) :
    o.ReachedEffect (o.reachedBy history) (o.reachedBy (history ++ [met])) (met.amount? o) := by
  simp only [reachedBy, hgoal, List.map_append, List.map_cons, List.map_nil, foldl_max_snoc]
  cases met with
  | event name payload =>
      have hmoved : o.isMovedBy name payload = false := by
        simp [isMovedBy, hgoal, Goal.eventName?]
      simp only [Stimulus.amount?, eventAmount?, hmoved, Stimulus.itemCount, Nat.max_zero]
      rfl
  | look player =>
      simp only [Stimulus.amount?, polledAmount?, hgoal, Stimulus.itemCount]
      rfl

theorem reachedBy_flag {o : Objective} {flag : String} (hgoal : o.goal = .haveFlag flag)
    (history : List Stimulus) (met : Stimulus) :
    o.ReachedEffect (o.reachedBy history) (o.reachedBy (history ++ [met])) (met.amount? o) := by
  simp only [reachedBy, hgoal, List.any_append, List.any_cons, List.any_nil, Bool.or_false]
  generalize history.any _ = seen
  cases met with
  | event name payload =>
      have hmoved : o.isMovedBy name payload = false := by
        simp [isMovedBy, hgoal, Goal.eventName?]
      simp only [Stimulus.amount?, eventAmount?, hmoved, Stimulus.showsFlag, Bool.or_false]
      rfl
  | look player =>
      rcases hflag : player.hasAnyFlag flag with _ | _
      · simp only [Stimulus.amount?, polledAmount?, hgoal, Stimulus.showsFlag, hflag, Bool.or_false]
        rfl
      · simp only [Stimulus.amount?, polledAmount?, hgoal, Stimulus.showsFlag, hflag, Bool.or_true]
        show min _ _ = min _ (max _ _)
        cases seen <;> simp

/-- Whether an objective counts the events that fit it. -/
def isCounting (o : Objective) : Bool :=
  match o.goal with
  | .reachLevel _ | .haveItem _ | .haveFlag _ => false
  | _ => true

theorem reachedBy_counting {o : Objective} (h : o.isCounting = true) (history : List Stimulus)
    (met : Stimulus) :
    o.ReachedEffect (o.reachedBy history) (o.reachedBy (history ++ [met])) (met.amount? o) := by
  have hreached : ∀ history, o.reachedBy history = history.countP (·.fits o) := by
    intro history
    unfold isCounting at h
    unfold reachedBy
    cases hgoal : o.goal <;> simp_all
  rw [hreached, hreached, List.countP_append]
  cases met with
  | event name payload =>
      have hstep : o.eventStep payload = .increment 1 := by
        unfold isCounting at h
        unfold eventStep
        cases hgoal : o.goal <;> simp_all
      simp only [Stimulus.amount?, eventAmount?, hstep]
      cases hmoved : o.isMovedBy name payload with
      | false => simp [ReachedEffect, Stimulus.fits, hmoved]
      | true => simp [ReachedEffect, Stimulus.fits, hmoved]
  | look player =>
      have hnone : polledAmount? player o = none := by
        unfold isCounting at h
        unfold polledAmount?
        cases hgoal : o.goal <;> simp_all
      simp only [Stimulus.amount?, hnone]
      rfl

theorem reachedBy_step (o : Objective) (history : List Stimulus) (met : Stimulus) :
    o.ReachedEffect (o.reachedBy history) (o.reachedBy (history ++ [met])) (met.amount? o) := by
  cases hgoal : o.goal with
  | reachLevel level => exact reachedBy_level hgoal history met
  | haveItem item => exact reachedBy_item hgoal history met
  | haveFlag flag => exact reachedBy_flag hgoal history met
  | _ => exact reachedBy_counting (by unfold isCounting; rw [hgoal]) history met

/-- `Counter.apply` commutes with one more stimulus. -/
theorem account_step (o : Objective) (history : List Stimulus) (met : Stimulus) :
    o.account (history ++ [met])
      = match met.amount? o with
        | none => o.account history
        | some amount => ((o.account history).apply amount).1 := by
  have heffect := o.reachedBy_step history met
  unfold account
  cases hamount : met.amount? o with
  | none =>
      rw [hamount] at heffect
      rw [show o.reachedBy (history ++ [met]) = o.reachedBy history from heffect]
  | some amount =>
      rw [hamount] at heffect
      cases amount with
      | increment n =>
          obtain ⟨rfl, hafter⟩ := heffect
          rw [hafter]
          exact (Counter.at_increment ..).symm
      | observed n =>
          dsimp only
          rw [Counter.at_observed]
          exact Counter.at_eq_of_min_eq heffect

end Objective

/-! ## The counters of a step -/

/-- The effect of `Rules.offer` for one objective on the counter under its id, if there is one yet.
-/
def Objective.moves (amount? : Objective → Option Amount) (o : Objective)
    (counter? : Option Counter) : Option Counter :=
  match amount? o with
  | none => counter?
  | some amount => some ((counter?.getD (Counter.fresh o.requiredCount)).apply amount).1

/-- Where no two entries share a key, each is alone under its own. -/
theorem filter_of_nodup {α : Type} {key : α → String} {l : List α} (h : (l.map key).Nodup) {a : α}
    (ha : a ∈ l) : l.filter (fun b => key b = key a) = [a] := by
  induction l with
  | nil => cases ha
  | cons b rest ih =>
      obtain ⟨hb, hrest⟩ := List.nodup_cons.mp h
      rcases List.mem_cons.mp ha with rfl | ha
      · have hnone : rest.filter (fun b => key b = key a) = [] :=
          List.filter_eq_nil_iff.mpr fun x hx hkey =>
            hb (List.mem_map.mpr ⟨x, hx, of_decide_eq_true hkey⟩)
        rw [List.filter_cons_of_pos (by simp), hnone]
      · have hne : ¬ key b = key a := fun hkey => hb (List.mem_map.mpr ⟨a, ha, hkey.symm⟩)
        rw [List.filter_cons_of_neg (by simpa using hne)]
        exact ih hrest ha

namespace Step

/-- The objectives of a step that share the counter under an id. -/
def under (s : Step) (id : String) : List Objective := s.objectives.filter (·.id = id)

/-- The counter under an id of a step that is just entered. -/
def freshCounter? (s : Step) (id : String) : Option Counter :=
  (s.under id).getLast?.map fun o => Counter.fresh o.requiredCount

/-- The counter under an id of a step after `Rules.offer` on all its objectives. -/
def movedCounter? (s : Step) (amount? : Objective → Option Amount) (id : String)
    (counter? : Option Counter) : Option Counter :=
  (s.under id).foldl (fun counter? o => o.moves amount? counter?) counter?

variable {s : Step} {o : Objective}

/-- Where no two objectives of a step share an id, each has a counter of its own. -/
theorem freshCounter?_of_nodup (h : (s.objectives.map (·.id)).Nodup) (ho : o ∈ s.objectives) :
    s.freshCounter? o.id = some (Counter.fresh o.requiredCount) := by
  unfold freshCounter? under
  rw [filter_of_nodup h ho]
  rfl

/-- Where no two objectives of a step share an id, each moves its own counter, once. -/
theorem movedCounter?_of_nodup (h : (s.objectives.map (·.id)).Nodup) (ho : o ∈ s.objectives)
    (amount? : Objective → Option Amount) (counter? : Option Counter) :
    s.movedCounter? amount? o.id counter? = o.moves amount? counter? := by
  unfold movedCounter? under
  rw [filter_of_nodup h ho]
  rfl

end Step

/-- `StepProgress.start` puts the counter of the last objective of an id under the id. -/
theorem StepProgress.counters_start (s : Step) (now : Instant) (id : String) :
    (StepProgress.start s now).counters.get? id = s.freshCounter? id := by
  unfold StepProgress.start Step.freshCounter? Step.under
  rw [Dict.get?_ofList]
  induction s.objectives using List.reverseRecOn with
  | nil => rfl
  | append_singleton rest o ih =>
      rw [List.map_append, List.reverse_append, List.filter_append]
      by_cases hid : o.id = id
      · simp [hid]
      · simp only [List.map_cons, List.map_nil, List.reverse_singleton, List.singleton_append,
          findValue?_cons, if_neg hid, List.filter_cons, decide_eq_true_eq, List.filter_nil,
          List.append_nil]
        exact ih

namespace Rules

theorem offer_cons (amount? : Objective → Option Amount) (o : Objective) (rest : List Objective)
    (p : StepProgress) :
    (offer amount? (o :: rest) p).1
      = (offer amount? rest
          (match amount? o with
            | none => p
            | some amount =>
              p.setCounter o.id ((p.counter o.id o.requiredCount).apply amount).1)).1 := by
  simp only [offer]
  cases amount? o with
  | none => rfl
  | some amount =>
      dsimp only
      split <;> rfl

/-- `Rules.offer` moves the counter under an id by every objective of the id, in order. -/
theorem counters_offer (amount? : Objective → Option Amount) (id : String)
    (objectives : List Objective) (p : StepProgress) :
    (offer amount? objectives p).1.counters.get? id
      = (objectives.filter (·.id = id)).foldl (fun counter? o => o.moves amount? counter?)
        (p.counters.get? id) := by
  induction objectives generalizing p with
  | nil => rfl
  | cons o rest ih =>
      rw [offer_cons, ih]
      by_cases hid : o.id = id
      · subst hid
        rw [List.filter_cons_of_pos (by simp), List.foldl_cons]
        congr 1
        unfold Objective.moves
        cases amount? o with
        | none => rfl
        | some amount =>
            simp only [StepProgress.setCounter, Dict.get?_insert, if_true]
            rfl
      · rw [List.filter_cons_of_neg (by simpa using hid)]
        congr 1
        cases amount? o with
        | none => rfl
        | some amount => simp only [StepProgress.setCounter, Dict.get?_insert, if_neg hid]

end Rules

/-- Where no two objectives of a step share an id, each counter is that of the history. -/
def StepProgress.Tallies (p : StepProgress) (s : Step) (history : List Stimulus) : Prop :=
  (s.objectives.map (·.id)).Nodup →
    ∀ o ∈ s.objectives, p.counters.get? o.id = some (o.account history)

namespace StepProgress.Tallies

theorem start (s : Step) (now : Instant) : (StepProgress.start s now).Tallies s [] := by
  intro hnodup o ho
  rw [StepProgress.counters_start, Step.freshCounter?_of_nodup hnodup ho, o.account_nil]

theorem step {p : StepProgress} {s : Step} {history : List Stimulus} (h : p.Tallies s history)
    (met : Stimulus) :
    (Rules.offer met.amount? s.objectives p).1.Tallies s (history ++ [met]) := by
  intro hnodup o ho
  have hmoved : (Rules.offer met.amount? s.objectives p).1.counters.get? o.id
      = s.movedCounter? met.amount? o.id (p.counters.get? o.id) :=
    Rules.counters_offer met.amount? o.id s.objectives p
  rw [hmoved, Step.movedCounter?_of_nodup hnodup ho, h hnodup o ho, o.account_step,
    Objective.moves]
  cases met.amount? o with
  | none => rfl
  | some amount => rfl

end StepProgress.Tallies

/-! ## One transition -/

/-- The counters of the current step are those of the history. -/
def Thread.Tallied (c : Catalog) (quest : String) (history : List Stimulus) (t : Thread) : Prop :=
  ∀ q a s p, t.position? c quest = some (q, a, s) → a.progress.get? a.step = some p →
    p.Tallies s history

/-- The history since the current step was entered, after one more stimulus and the news of it:
empty if the news enters a step. -/
def sinceEntry (history : List Stimulus) (met? : Option Stimulus) (news : List Notification) :
    List Stimulus :=
  if news.any (·.entered?.isSome) then [] else history ++ met?.toList

namespace Thread

variable {c : Catalog} {username : String} {now : Instant} {quest : String}
  {history : List Stimulus} {t t' : Thread} {news : List Notification}

theorem tallied_of_inactive (count : Option UInt32) : Tallied c quest history ⟨none, count⟩ := by
  intro q a s p hposition
  rw [position?_of_inactive c quest rfl] at hposition
  cases hposition

/-- A step that is just entered has the counters of the empty history. -/
theorem tallied_entered {q : Quest} {s : Step} (hq : c.get? quest = some q)
    (hs : q.step? s.id = some s) {a : Activation} (hstep : a.step = s.id)
    (hp : a.progress.get? s.id = some (StepProgress.start s now)) (count : Option UInt32) :
    Tallied c quest [] ⟨some a, count⟩ := by
  intro q' a' s' p' hposition hp'
  rw [← hstep] at hs hp
  obtain ⟨rfl, rfl⟩ := recorded_unique hq hs hp hposition hp'
  exact .start s now

theorem progress_branch (q : Quest) (target : Step) (origin : String) (a : Activation) :
    (Rules.branch q target origin username now a).1.progress.get? target.id
      = some (StepProgress.start target now) := by
  simp only [Rules.branch]
  split
  · simp [Activation.enter]
  · split <;> simp [Activation.enter]

theorem entered_counterNews {amount? : Objective → Option Amount} {a : Activation}
    (o : Offering c amount? quest a) :
    (o.counterNews username).any (·.entered?.isSome) = false := by
  refine List.any_eq_false.mpr fun n hn => ?_
  obtain ⟨m, -, rfl⟩ := List.mem_map.mp hn
  exact Bool.false_ne_true

theorem tallied_of_stride (hc : c.Valid) {met : Stimulus}
    (h : QuestStride c username now quest met.amount? t news t') (ht : t.Tallied c quest history) :
    t'.Tallied c quest (sinceEntry history (some met) news) := by
  cases h with
  | idle hposition =>
      intro q a s p hposition'
      rw [hposition] at hposition'
      cases hposition'
  | @update a count o =>
      unfold sinceEntry
      rw [entered_counterNews]
      intro q' a' s' p' hposition hp'
      have hafter : (a.setCurrentProgress o.after).progress.get? a.step = some o.after := by
        simp [Activation.setCurrentProgress]
      obtain ⟨rfl, rfl⟩ := recorded_unique (a := a.setCurrentProgress o.after) o.known o.onStep
        hafter hposition hp'
      have hbefore := ht o.q a o.s o.before (position?_of_known o.known rfl o.onStep) o.recorded
      have hstep := hbefore.step met
      rw [o.offered] at hstep
      exact hstep
  | @advance a count o _ next hnext =>
      have hentered : sinceEntry history (some met) (o.counterNews username
          ++ [.stepCompleted username quest o.s.id (some next.id)
            (o.s.onComplete ++ next.onStart)]) = [] := by
        unfold sinceEntry
        rw [List.any_append, entered_counterNews]
        rfl
      have hprogress : ((a.setCurrentProgress (o.after.complete now)).enter next now).progress.get?
          next.id = some (StepProgress.start next now) := by simp [Activation.enter]
      rw [hentered]
      exact tallied_entered o.known ((hc _ _ o.known).step?_of_nextStep? hnext) rfl hprogress _
  | complete => exact tallied_of_inactive _

/-- Step lemma: a transition takes the counters of a history to those of the history after it. -/
theorem tallied_of_transition (hc : c.Valid) {met? : Option Stimulus} {target? : Option Step}
    (h : QuestTransition c username now quest met? target? t news t')
    (ht : t.Tallied c quest history) :
    t'.Tallied c quest (sinceEntry history met? news) := by
  cases h with
  | stay =>
      show Tallied c quest (history ++ []) t
      rw [List.append_nil]
      exact ht
  | @start q s count hq hs =>
      have hprogress : (Activation.start q s now).progress.get? s.id
          = some (StepProgress.start s now) := by simp [Activation.start]
      have hentered : Tallied c quest [] ⟨some (.start q s now), count⟩ :=
        tallied_entered hq hs rfl hprogress count
      exact hentered
  | abandon => exact tallied_of_inactive _
  | complete => exact tallied_of_inactive _
  | fail => exact tallied_of_inactive _
  | @setVariable a count key value =>
      show Tallied c quest (history ++ []) _
      rw [List.append_nil]
      intro q' a' s' p' hposition hp'
      obtain ⟨hq', ha', hs'⟩ := position?_eq_some.mp hposition
      cases ha'
      exact ht q' a s' p' (position?_of_known hq' rfl hs') hp'
  | meet hstride => exact tallied_of_stride hc hstride ht
  | @branch q target a count hq htarget =>
      have hentered : Tallied c quest []
          ⟨some (Rules.branch q target a.step username now a).1, count⟩ :=
        tallied_entered hq htarget (step_branch ..) (progress_branch ..) count
      exact hentered
  | @talk stimulus q target a b count count' news hq htarget =>
      have hentered : sinceEntry history (some stimulus)
          (news ++ [(Rules.branch q target a.step username now b).2]) = [] := by
        unfold sinceEntry
        rw [List.any_append]
        simp [Rules.branch, Notification.entered?, Notification.stepAfter]
      rw [hentered]
      exact tallied_entered hq htarget (step_branch ..) (progress_branch ..) _

end Thread

/-! ## Runs -/

variable {ρ : Type} [Repository ρ] [TableRepository ρ]

namespace Engine

omit [TableRepository ρ] in
/-- The stimulus of a turn, if it reaches the player of a lower-cased name. -/
def met? (e : Engine ρ) (key : String) : Turn → Option Stimulus
  | t@(.perform _ op) => (e.reached? key t).bind fun j => op.stimulus? e.catalog j
  | .reload _ => none

/-- The stimuli that reached a player since the current step of a quest was entered, after a run
that began with `history`. -/
def history (key quest : String) : Engine ρ → List Turn → List Stimulus → List Stimulus
  | _, [], history => history
  | e, t :: turns, history =>
    (e.take t).engine.history key quest turns
      (sinceEntry history (e.met? key t) ((e.take t).news.filter (·.isAbout key quest)))

theorem take_tallied {catalog : Catalog} (hc : catalog.Valid) {e : Engine ρ}
    (h : e.RunInvariant catalog) {key quest : String} {history : List Stimulus}
    (ht : ((e.store.place key).log.thread quest).Tallied catalog quest history) (t : Turn) :
    (((e.take t).engine.store.place key).log.thread quest).Tallied catalog quest
      (sinceEntry history (e.met? key t) ((e.take t).news.filter (·.isAbout key quest))) := by
  obtain ⟨rfl, hs, ho, -⟩ := h
  rcases take_transition hs t ((ho key).at quest) with ⟨hthread, hnews, hreached⟩
    | ⟨c, op, username, rule, j, rfl, -, hreached, -, htransition⟩
  · have hmet : e.met? key t = none := by
      cases t with
      | perform c op =>
          simp only [met?, hreached]
          rfl
      | reload catalog => rfl
    rw [hthread, hnews, hmet]
    show Thread.Tallied e.catalog quest (history ++ []) _
    rw [List.append_nil]
    exact ht
  · have hmet : e.met? key (.perform c op) = op.stimulus? e.catalog j := by
      simp only [met?, hreached]
      rfl
    rw [hmet]
    exact Thread.tallied_of_transition hc htransition ht

theorem after_tallied {catalog : Catalog} (hc : catalog.Valid) {e : Engine ρ}
    (h : e.RunInvariant catalog) {key quest : String} {history : List Stimulus}
    (ht : ((e.store.place key).log.thread quest).Tallied catalog quest history)
    {turns : List Turn} (hkeep : ∀ t ∈ turns, t.Keeps catalog) :
    (((e.after turns).store.place key).log.thread quest).Tallied catalog quest
      (e.history key quest turns history) := by
  induction turns generalizing e history with
  | nil => exact ht
  | cons t turns ih =>
      exact ih (h.take hc (hkeep t List.mem_cons_self)) (take_tallied hc h ht t)
        fun t' ht' => hkeep t' (List.mem_cons_of_mem _ ht')

end Engine

/-- **The counters are a function of the stimuli.** In a run over an empty repository under a
catalog of valid quests, every active quest is on a step of its definition, and if no two objectives
of that step share an id, each has a counter at what the stimuli since the step was entered have
reached (`Objective.reachedBy`), complete exactly when that is what is required. -/
theorem counters_tally (catalog : Catalog) (hvalid : catalog.Valid) (repository : ρ)
    (hempty : TableRepository.records repository = ∅) (limit : Nat) (turns : List Turn)
    (hkeep : ∀ t ∈ turns, t.Keeps catalog) (c : Circumstances) (username : String) (j : Journal)
    (hfound : (((Engine.new catalog repository limit).after turns).store.fetch c username).result
      = .ok j) (a : Activation) (ha : a ∈ j.active) :
    ∃ q s, catalog.get? a.quest = some q ∧ q.step? a.step = some s
      ∧ ((s.objectives.map (·.id)).Nodup → ∀ o ∈ s.objectives,
        ∃ counter, a.counter? a.step o.id = some counter
          ∧ counter.current.toNat = min o.requiredCount.toNat
            (o.reachedBy ((Engine.new catalog repository limit).history (playerKey username)
              a.quest turns []))
          ∧ counter.target = o.requiredCount
          ∧ (counter.completed = true ↔ counter.current = o.requiredCount)) := by
  have hnew := Engine.runInvariant_new catalog hempty limit
  have hsettled := hnew.after hvalid hkeep
  have hlog : (((Engine.new catalog repository limit).after turns).store.place
      (playerKey username)).log = j.log := by
    rw [Engine.fetch_result_eq_opened hfound, Store.log_opened]
  have horderly := hsettled.orderly (playerKey username)
  have hknown := hsettled.known (playerKey username) a.quest
  have hblank : (((Engine.new catalog repository limit).store.place (playerKey username)).log.thread
      a.quest).Tallied catalog a.quest [] := by
    rw [Engine.log_new hempty]
    exact Thread.tallied_of_inactive none
  have htallied := Engine.after_tallied hvalid hnew hblank hkeep
  rw [hlog] at horderly hknown htallied
  have hcurrent : (j.log.thread a.quest).current = some a :=
    Journal.activation?_of_mem horderly.distinct ha
  obtain ⟨q, s, hposition⟩ := hknown a hcurrent
  rw [hsettled.catalog] at hposition
  obtain ⟨hq, -, hs⟩ := Thread.position?_eq_some.mp hposition
  obtain ⟨p, hp, -⟩ := horderly.opened a.quest a hcurrent
  refine ⟨q, s, hq, hs, fun hnodup o ho => ⟨_, ?_, Counter.current_at .., rfl,
    Counter.completed_at_iff ..⟩⟩
  unfold Activation.counter?
  rw [hp]
  exact htallied q a s p hposition hp hnodup o ho

/-- The counters of a hunt after one of two rats. -/
theorem counters_tally_ratHunt :
    let e := Engine.new (Catalog.ofQuests [ratHunt]) MemoryRepository.empty 5000
    let j := (e.after (ratHuntTurns.take 5)).store.opened (.calm .epoch) "Ann"
    let a := j.active.head (by decide)
    (Catalog.ofQuests [ratHunt]).Valid ∧ TableRepository.records MemoryRepository.empty = ∅
      ∧ (∀ t ∈ ratHuntTurns.take 5, t.Keeps (Catalog.ofQuests [ratHunt]))
      ∧ ((e.after (ratHuntTurns.take 5)).store.fetch (.calm .epoch) "Ann").result = .ok j
      ∧ a ∈ j.active
      ∧ ∃ q s, (Catalog.ofQuests [ratHunt]).get? a.quest = some q ∧ q.step? a.step = some s
        ∧ ((s.objectives.map (·.id)).Nodup → ∀ o ∈ s.objectives,
          ∃ counter, a.counter? a.step o.id = some counter
            ∧ counter.current.toNat = min o.requiredCount.toNat
              (o.reachedBy (e.history (playerKey "Ann") a.quest (ratHuntTurns.take 5) []))
            ∧ counter.target = o.requiredCount
            ∧ (counter.completed = true ↔ counter.current = o.requiredCount)) := by
  have hkeep : ∀ t ∈ ratHuntTurns.take 5, t.Keeps (Catalog.ofQuests [ratHunt]) := by
    simp [ratHuntTurns, Turn.Keeps]
  exact ⟨valid_ratHunt, rfl, hkeep, by rfl, List.head_mem _,
    counters_tally _ valid_ratHunt _ rfl _ _ hkeep (.calm .epoch) "Ann" _ (by rfl) _
      (List.head_mem _)⟩

end Questline
