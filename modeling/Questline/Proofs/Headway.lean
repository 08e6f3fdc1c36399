import Questline.Proofs.Matching
import Questline.Proofs.Replica
import Questline.Proofs.Tally
import Questline.Proofs.Telling

/-!
# What a matching event does to a counter

Whether an event fits an objective is decided by `Objective.isMovedBy`, the amount that it offers by
`Objective.eventStep`, and the effect of that by `Counter.apply`. They agree (`match_advances`): an
event that fits raises the counter of an objective that is not complete, a level goal at once to its
target, and one that does not fit leaves it alone.

There is one exception. A level goal of 0 still requires one (`Objective.requiredCount`), so a
report of level 0 fits it and offers an observation of zero (`Objective.ShowsNothing`): the counter
stays where it is although the event matches (`matched_without_headway`).
-/

namespace Questline

/-- The flags of `Counter.apply` on a counter that moves: changed, and completed if it is complete
afterwards. -/
theorem Counter.flags_of_moved {c : Counter} {a : Amount} (h : (c.apply a).1 ≠ c) :
    c.apply a = ((c.apply a).1, true, (c.apply a).1.completed) := by
  have hchanged : (c.apply a).2.1 = true := by
    rw [← Bool.not_eq_false]
    exact fun hsame => h (c.apply_unchanged a hsame)
  rw [c.apply_completed a hchanged, ← hchanged]

namespace Objective

/-! ## Counters short of their target -/

/-- The counter of an objective is not complete and short of the required count. -/
structure Unmet (o : Objective) (c : Counter) : Prop where
  target : c.target = o.requiredCount
  incomplete : c.completed = false
  short : c.current < c.target

/-- The counter of an objective is raised, and not past its target; that of a level goal is complete
at once. -/
structure Advances (o : Objective) (before after : Counter) : Prop where
  target : after.target = before.target
  raised : before.current < after.current
  bounded : after.current ≤ after.target
  completed_iff : after.completed = true ↔ after.current = after.target
  at_once : ∀ level, o.goal = .reachLevel level → after.completed = true

/-- The goal asks for level 0 and the payload reports level 0. -/
def ShowsNothing (o : Objective) (p : Payload) : Prop :=
  o.goal = .reachLevel 0 ∧ p.number? "level" = some 0

variable {o : Objective} {c : Counter} {event : String} {p : Payload}

theorem Unmet.lt (h : o.Unmet c) : c.current.toNat < o.requiredCount.toNat := by
  rw [← h.target]
  exact UInt32.lt_iff_toNat_lt.mp h.short

/-- A waiting counter is `Counter.at` its current count. -/
theorem Unmet.eq_at (h : o.Unmet c) : c = Counter.at o.requiredCount c.current.toNat := by
  have hcurrent : c.current = (Counter.at o.requiredCount c.current.toNat).current := by
    rw [← UInt32.toNat_inj, Counter.current_of_lt h.lt]
  have hcompleted : c.completed = decide (o.requiredCount.toNat ≤ c.current.toNat) := by
    rw [h.incomplete, decide_eq_false (Nat.not_le_of_lt h.lt)]
  calc c = ⟨c.current, c.target, c.completed⟩ := rfl
    _ = Counter.at o.requiredCount c.current.toNat := by
      rw [hcompleted, h.target]
      exact congrArg (Counter.mk · _ _) hcurrent

theorem advances_at {n m : Nat} (hshort : n < o.requiredCount.toNat) (hmore : n < m)
    (hlevel : ∀ level, o.goal = .reachLevel level → o.requiredCount.toNat ≤ m) :
    o.Advances (Counter.at o.requiredCount n) (Counter.at o.requiredCount m) where
  target := rfl
  raised := by
    rw [UInt32.lt_iff_toNat_lt, Counter.current_of_lt hshort, Counter.current_at]
    exact Nat.lt_min.mpr ⟨hshort, hmore⟩
  bounded := by
    rw [UInt32.le_iff_toNat_le, Counter.current_at]
    exact Nat.min_le_left ..
  completed_iff := Counter.completed_at_iff o.requiredCount m
  at_once := fun level hgoal => decide_eq_true (hlevel level hgoal)

theorem Advances.ne {before after : Counter} (h : o.Advances before after) : after ≠ before :=
  fun heq => UInt32.lt_irrefl before.current (heq ▸ h.raised)

/-! ## One event -/

theorem eventStep_level {level : UInt32} (hgoal : o.goal = .reachLevel level) (p : Payload) :
    o.eventStep p = .observed (cappedLevel ((p.number? "level").getD 0)) := by
  rw [eventStep, hgoal]

theorem eventStep_counting (h : ∀ level, o.goal ≠ .reachLevel level) (p : Payload) :
    o.eventStep p = .increment 1 := by
  unfold eventStep
  split
  · rename_i level hgoal
    exact absurd hgoal (h level)
  · rfl

/-- An event that moves a level goal reports at least the level that the goal asks for. -/
theorem level_of_isMovedBy {level : UInt32} (hgoal : o.goal = .reachLevel level)
    (h : o.isMovedBy event p = true) : ∃ k, p.number? "level" = some k ∧ level.toNat ≤ k := by
  obtain ⟨-, hfits⟩ := isMovedBy_eq_true.mp h
  rw [hgoal, Goal.fits, Option.any_eq_true] at hfits
  obtain ⟨k, hk, hle⟩ := hfits
  exact ⟨k, hk, of_decide_eq_true hle⟩

/-- A level goal is offered at least what it requires, unless the event `ShowsNothing`. -/
theorem observed_of_isMovedBy {level : UInt32} (hgoal : o.goal = .reachLevel level)
    (hmoved : o.isMovedBy event p = true) (hshows : ¬ o.ShowsNothing p) :
    ∃ n, o.eventStep p = .observed n ∧ o.requiredCount.toNat ≤ n.toNat := by
  obtain ⟨k, hk, hle⟩ := level_of_isMovedBy hgoal hmoved
  have hone : 1 ≤ k := by
    rw [Nat.one_le_iff_ne_zero]
    rintro rfl
    have hzero : level = 0 := UInt32.toNat_inj.mp (Nat.le_zero.mp hle)
    exact hshows ⟨hzero ▸ hgoal, hk⟩
  have hlt := level.toNat_lt
  have hsize : UInt32.size = 4294967296 := rfl
  refine ⟨cappedLevel k, ?_, ?_⟩
  · rw [eventStep_level hgoal, hk, Option.getD_some]
  · rw [toNat_cappedLevel, requiredCount_level hgoal]
    omega

theorem Unmet.advances (h : o.Unmet c) (hmoved : o.isMovedBy event p = true)
    (hshows : ¬ o.ShowsNothing p) : o.Advances c (c.apply (o.eventStep p)).1 := by
  have hshort := h.lt
  rw [h.eq_at]
  generalize c.current.toNat = n at hshort
  by_cases hgoal : ∃ level, o.goal = .reachLevel level
  · obtain ⟨level, hgoal⟩ := hgoal
    obtain ⟨shown, hstep, hreached⟩ := observed_of_isMovedBy hgoal hmoved hshows
    rw [hstep, Counter.at_observed]
    exact advances_at hshort (by omega) fun _ _ => by omega
  · have hcounting : ∀ level, o.goal ≠ .reachLevel level := fun level h => hgoal ⟨level, h⟩
    rw [eventStep_counting hcounting, Counter.at_increment]
    exact advances_at hshort (Nat.lt_succ_self n) fun level h => absurd h (hcounting level)

theorem apply_of_showsNothing (h : o.ShowsNothing p) (c : Counter) :
    c.apply (o.eventStep p) = (c, false, false) := by
  rw [eventStep_level h.1, h.2, Option.getD_some]
  exact c.apply_observed_zero

end Objective

namespace Rules

variable {amount? : Objective → Option Amount} {o : Objective} {s : StepProgress}

/-- `Rules.offer` for a single objective. -/
theorem offer_one {amount : Amount} (hamount : amount? o = some amount) {c : Counter}
    {changed completed : Bool}
    (h : (s.counter o.id o.requiredCount).apply amount = (c, changed, completed)) :
    offer amount? [o] s = (s.setCounter o.id c,
      if changed then [⟨o.id, c.current, c.target, c.completed⟩] else [],
      changed && completed) := by
  simp only [offer, hamount, h]
  cases changed <;> simp

/-- `Rules.offer` keeps the counters of ids without an offered amount. -/
theorem counters_offer_of_none {objectives : List Objective} {id : String}
    (h : ∀ x ∈ objectives, x.id = id → amount? x = none) (s : StepProgress) :
    (offer amount? objectives s).1.counters.get? id = s.counters.get? id := by
  rw [counters_offer]
  have hnone : ∀ x ∈ objectives.filter (·.id = id), amount? x = none := fun x hx =>
    h x (List.mem_filter.mp hx).1 (of_decide_eq_true (List.mem_filter.mp hx).2)
  generalize objectives.filter (·.id = id) = own at hnone
  induction own with
  | nil => rfl
  | cons x rest ih =>
      rw [List.foldl_cons, Objective.moves, hnone x List.mem_cons_self]
      exact ih fun y hy => hnone y (List.mem_cons_of_mem x hy)

/-- `Rules.offer` moves the counter of an objective with an id of its own as it does for that
objective alone. -/
theorem counters_offer_of_nodup {objectives : List Objective}
    (h : (objectives.map (·.id)).Nodup) (ho : o ∈ objectives) (s : StepProgress) :
    (offer amount? objectives s).1.counters.get? o.id
      = (offer amount? [o] s).1.counters.get? o.id := by
  have hself : [o].filter (fun x => x.id = o.id) = [o] := List.filter_cons_of_pos (by simp)
  rw [counters_offer, counters_offer, filter_of_nodup h ho, hself]

end Rules

/-- **A match advances.** Of every objective whose counter waits: an event that matches raises the
counter, never past its target and for a level goal at once to it, and the update says so; only a
report of level 0 to an objective that asks for level 0 matches and changes nothing. An event that
does not match leaves everything as it is. In a step with other objectives the counters of which
no objective matches stay, and the objective does to its counter what it does alone, if it is the
only one of its id. -/
theorem match_advances (o : Objective) (event : String) (p : Payload) (s : StepProgress)
    (hunmet : o.Unmet (s.counter o.id o.requiredCount)) :
    let amount? := Objective.eventAmount? event p
    let before := s.counter o.id o.requiredCount
    let after := (before.apply (o.eventStep p)).1
    (o.isMovedBy event p = true → ¬ o.ShowsNothing p → o.Advances before after
      ∧ Rules.offer amount? [o] s = (s.setCounter o.id after,
        [⟨o.id, after.current, after.target, after.completed⟩], after.completed))
    ∧ (o.isMovedBy event p = true → o.ShowsNothing p → after = before
      ∧ Rules.offer amount? [o] s = (s.setCounter o.id before, [], false))
    ∧ (o.isMovedBy event p = false → Rules.offer amount? [o] s = (s, [], false))
    ∧ ∀ objectives : List Objective,
      (∀ id, (∀ x ∈ objectives, x.id = id → x.isMovedBy event p = false) →
        (Rules.offer amount? objectives s).1.counters.get? id = s.counters.get? id)
      ∧ ((objectives.map (·.id)).Nodup → o ∈ objectives →
        (Rules.offer amount? objectives s).1.counters.get? o.id
          = (Rules.offer amount? [o] s).1.counters.get? o.id) := by
  intro amount? before after
  have hnone : ∀ x : Objective, x.isMovedBy event p = false → amount? x = none := fun x hx =>
    if_neg (Bool.eq_false_iff.mp hx)
  refine ⟨fun hmoved hshows => ?_, fun hmoved hshows => ?_, fun hmoved => ?_,
    fun objectives => ⟨fun id hid => ?_, fun hnodup ho => ?_⟩⟩
  · have hadvances : o.Advances before after := hunmet.advances hmoved hshows
    exact ⟨hadvances, Rules.offer_one (if_pos hmoved) (Counter.flags_of_moved hadvances.ne)⟩
  · have hstays : before.apply (o.eventStep p) = (before, false, false) :=
      Objective.apply_of_showsNothing hshows before
    exact ⟨congrArg Prod.fst hstays, Rules.offer_one (if_pos hmoved) hstays⟩
  · show Rules.offer amount? [o] s = (s, [], false)
    simp only [Rules.offer, hnone o hmoved]
  · exact Rules.counters_offer_of_none (fun x hx hsame => hnone x (hid x hx hsame)) s
  · exact Rules.counters_offer_of_nodup hnodup ho s

/-- A kill is counted, and a level above the one asked for is the one asked for. -/
theorem match_advances_siege :
    let wolves : Objective := ⟨"wolves", "", some 3, .killMob "wolf"⟩
    let height : Objective := ⟨"height", "", none, .reachLevel 5⟩
    let s : StepProgress :=
      ⟨false, .epoch, none, Dict.ofList [("height", ⟨0, 5, false⟩), ("wolves", ⟨1, 3, false⟩)]⟩
    let kill := GameEvent.npcDeath "wolf"
    let gain := GameEvent.playerLevelUp 9 4
    wolves.Unmet (s.counter "wolves" 3) ∧ height.Unmet (s.counter "height" 5)
      ∧ (Rules.offer (Objective.eventAmount? kill.name kill.payload) [wolves] s).2
        = ([⟨"wolves", 2, 3, false⟩], false)
      ∧ (Rules.offer (Objective.eventAmount? gain.name gain.payload) [height] s).2
        = ([⟨"height", 5, 5, true⟩], true) := by
  intro wolves height s kill gain
  have hwolves : wolves.Unmet (s.counter "wolves" 3) := ⟨by decide, by decide, by decide⟩
  have hheight : height.Unmet (s.counter "height" 5) := ⟨by decide, by decide, by decide⟩
  obtain ⟨hkill, -⟩ := match_advances wolves kill.name kill.payload s hwolves
  obtain ⟨hgain, -⟩ := match_advances height gain.name gain.payload s hheight
  have hcounts : ¬ wolves.ShowsNothing kill.payload := fun h => by cases h.1
  have hshows : ¬ height.ShowsNothing gain.payload := fun h => absurd h.1 (by decide)
  have hkilled : wolves.isMovedBy kill.name kill.payload = true :=
    (wolves.isMovedBy_iff_answeredBy kill).mpr rfl
  have hgained : height.isMovedBy gain.name gain.payload = true :=
    (height.isMovedBy_iff_answeredBy gain).mpr (show (5 : UInt32) ≤ 9 by decide)
  refine ⟨hwolves, hheight, ?_, ?_⟩
  · rw [(hkill hkilled hcounts).2]
    decide +kernel
  · rw [(hgain hgained hshows).2]
    decide +kernel

/-- A report of level 0 matches an objective that asks for level 0, whose counter waits, and does
not raise it. -/
theorem matched_without_headway :
    ∃ (o : Objective) (e : GameEvent) (c : Counter),
      o.isMovedBy e.name e.payload = true ∧ o.Unmet c
        ∧ ¬ c.current < (c.apply (o.eventStep e.payload)).1.current := by
  have hzero := GameEvent.number?_playerLevelUp 0 0
  refine ⟨⟨"height", "", none, .reachLevel 0⟩, .playerLevelUp 0 0, Counter.fresh 1,
    (Objective.isMovedBy_iff_answeredBy _ _).mpr (UInt32.le_refl 0), ?_, ?_⟩
  · exact ⟨by decide, by decide, by decide⟩
  · rw [Objective.apply_of_showsNothing ⟨rfl, hzero⟩]
    exact UInt32.lt_irrefl _

end Questline
