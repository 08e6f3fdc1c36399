import Questline.Proofs.Gating

/-!
# What is left of a cooldown

Who asks for a quest too early is told how many seconds are left. They are counted from whole
seconds elapsed, and these are rounded toward zero. So they are right for a completion of the past,
with every fraction of a second (`cooldown_counted`): one second earlier the quest is still refused,
and from then on it is not.

They are one too few if the completion is ahead of the clock by a fraction of a second, because
what is still to come is rounded down (`Instant.AheadByFraction`, `cooldown_outlasts_count`). A leap
second is left out here: time goes back by a second at the next midnight for what was completed in
it (`cooldown_resumes`).
-/

namespace Questline

namespace Instant

/-- Not within a leap second. -/
def IsPlain (i : Instant) : Prop := i.nano < 1000000000

/-- Nanoseconds since 1970, without leap seconds. -/
def nanos (i : Instant) : Int := (i.day * 86400 + i.second) * 1000000000 + i.nano

/-- An instant is before another, and not by whole seconds. -/
def AheadByFraction (later earlier : Instant) : Prop :=
  earlier.nanos < later.nanos ∧ (later.nanos - earlier.nanos) % 1000000000 ≠ 0

variable {later earlier : Instant}

theorem nanosSince_of_plain (hlater : later.IsPlain) (hearlier : earlier.IsPlain) :
    later.nanosSince earlier = later.nanos - earlier.nanos := by
  have hpassed : ¬ 1000000000 ≤ earlier.nano := Nat.not_le_of_lt hearlier
  have hcoming : ¬ 1000000000 ≤ later.nano := Nat.not_le_of_lt hlater
  simp only [nanosSince, nanos, hpassed, hcoming, if_false, ite_self]
  omega

/-- What has elapsed is rounded down, and so is what is still to come. -/
theorem secondsSince_cases (hlater : later.IsPlain) (hearlier : earlier.IsPlain) :
    0 ≤ later.secondsSince earlier
        ∧ earlier.nanos + later.secondsSince earlier * 1000000000 ≤ later.nanos
        ∧ later.nanos < earlier.nanos + (later.secondsSince earlier + 1) * 1000000000
      ∨ later.nanos < earlier.nanos ∧ later.secondsSince earlier ≤ 0
        ∧ earlier.nanos + (later.secondsSince earlier - 1) * 1000000000 < later.nanos
        ∧ later.nanos ≤ earlier.nanos + later.secondsSince earlier * 1000000000 := by
  rcases Int.lt_or_le later.nanos earlier.nanos with hahead | hpast
  · have hwhole : later.secondsSince earlier = -((earlier.nanos - later.nanos) / 1000000000) := by
      rw [secondsSince, nanosSince_of_plain hlater hearlier, ← Int.neg_sub, Int.neg_tdiv,
        Int.tdiv_eq_ediv_of_nonneg (Int.sub_nonneg_of_le (Int.le_of_lt hahead))]
    rw [hwhole]
    omega
  · have hwhole : later.secondsSince earlier = (later.nanos - earlier.nanos) / 1000000000 := by
      rw [secondsSince, nanosSince_of_plain hlater hearlier,
        Int.tdiv_eq_ediv_of_nonneg (Int.sub_nonneg_of_le hpast)]
    rw [hwhole]
    omega

end Instant

namespace Rules

variable {q : Quest} {p : Player} {j : Journal}

/-- The seconds that are left are those of the cooldown that have not elapsed. -/
theorem refusal?_eq_onCooldown_iff {now : Instant} {left : Int} :
    refusal? q p now j = some (.onCooldown left) ↔
      j.isActive q.id = false ∧ ∃ d c, j.completion? q.id = some d ∧ q.repeatable = true
        ∧ q.cooldown = some c ∧ now.secondsSince d.completedAt < c.toInt
        ∧ left = c.toInt - now.secondsSince d.completedAt := by
  unfold refusal?
  cases hactive : j.isActive q.id with
  | true => simp
  | false =>
      cases hdone : j.completion? q.id with
      | none => simp
      | some d =>
          cases hrepeatable : q.repeatable with
          | false => simp [repeatRefusal?, hrepeatable]
          | true =>
              cases hcooldown : q.cooldown with
              | none => simp [repeatRefusal?, cooldownLeft?, hrepeatable, hcooldown]
              | some c =>
                  simp only [repeatRefusal?, cooldownLeft?, hrepeatable, hcooldown]
                  by_cases hearly : now.secondsSince d.completedAt < c.toInt
                  · simp [hearly, eq_comm]
                  · simp [hearly]

/-- A player is refused a quest because of its cooldown. -/
def IsCooling (q : Quest) (p : Player) (j : Journal) (now : Instant) : Prop :=
  ∃ left, refusal? q p now j = some (.onCooldown left)

/-- Who is refused a quest because of its cooldown is refused it until that has elapsed. -/
theorem IsCooling.at_iff {now : Instant} {left : Int}
    (h : refusal? q p now j = some (.onCooldown left)) :
    ∃ d c, j.completion? q.id = some d ∧ q.cooldown = some c
      ∧ now.secondsSince d.completedAt < c.toInt
      ∧ left = c.toInt - now.secondsSince d.completedAt
      ∧ ∀ later : Instant, IsCooling q p j later ↔ later.secondsSince d.completedAt < c.toInt := by
  obtain ⟨hactive, d, c, hd, hrepeatable, hc, hearly, hleft⟩ := refusal?_eq_onCooldown_iff.mp h
  refine ⟨d, c, hd, hc, hearly, hleft, fun later => ⟨?_, fun hlater => ?_⟩⟩
  · rintro ⟨left', h'⟩
    obtain ⟨-, d', c', hd', -, hc', hearly', -⟩ := refusal?_eq_onCooldown_iff.mp h'
    rwa [Option.some.inj (hd.symm.trans hd'), Option.some.inj (hc.symm.trans hc')]
  · exact ⟨_, refusal?_eq_onCooldown_iff.mpr ⟨hactive, d, c, hd, hrepeatable, hc, hlater, rfl⟩⟩

end Rules

/-- **What is left of a cooldown is counted down.** A player who is told that so many seconds are
left of the cooldown of a quest is refused it for that reason up to a second before they have
passed, and not any more once they have passed. It takes up to a second longer if the completion
is ahead of the clock by a fraction of a second. -/
theorem cooldown_counted {q : Quest} {p : Player} {j : Journal} {now : Instant} {left : Int}
    (h : Rules.refusal? q p now j = some (.onCooldown left)) (hnow : now.IsPlain) :
    0 < left ∧ ∃ d c, j.completion? q.id = some d ∧ q.cooldown = some c
      ∧ (d.completedAt.IsPlain → ∀ later : Instant, later.IsPlain →
        let late := 0 < c.toInt ∧ d.completedAt.AheadByFraction now
        (later.nanos ≤ now.nanos + (left - 1) * 1000000000 → Rules.IsCooling q p j later)
        ∧ (late → later.nanos ≤ now.nanos + left * 1000000000 → Rules.IsCooling q p j later)
        ∧ (¬ late → now.nanos + left * 1000000000 ≤ later.nanos → ¬ Rules.IsCooling q p j later)
        ∧ (now.nanos + (left + 1) * 1000000000 ≤ later.nanos → ¬ Rules.IsCooling q p j later)) := by
  obtain ⟨d, c, hd, hc, hearly, rfl, hcooling⟩ := Rules.IsCooling.at_iff h
  refine ⟨by omega, d, c, hd, hc, fun hdone later hlater => ?_⟩
  have hleft := Instant.secondsSince_cases hnow hdone
  have hthen := Instant.secondsSince_cases hlater hdone
  rw [hcooling later, Instant.AheadByFraction]
  refine ⟨?_, ?_, ?_, ?_⟩ <;> omega

/-- The rat hunt as a quest that can be repeated so many seconds after it was completed. -/
def ratRound (cooldown : Int64) : Quest :=
  { ratHunt with repeatable := true, cooldown := some cooldown }

/-- Half a second is still to come to the completion, and none of it is counted: ten seconds are
said to be left of a cooldown of ten, and one of them is left when they have passed. -/
theorem cooldown_outlasts_count :
    let done : Instant := ⟨0, 0, 500000000, by decide, by decide, by decide, by decide⟩
    let later : Instant := ⟨0, 10, 0, by decide, by decide, by decide, by decide⟩
    let j := (Journal.empty "ann" .epoch).recordCompletion "rats" done
    later.nanos = Instant.epoch.nanos + 10 * 1000000000
      ∧ Rules.refusal? (ratRound 10) (.named "ann" 1) .epoch j = some (.onCooldown 10)
      ∧ Rules.refusal? (ratRound 10) (.named "ann" 1) later j = some (.onCooldown 1) := by
  decide +kernel

/-- What was completed in a leap second can be repeated at the end of the day, but not at the
beginning of the next one. -/
theorem cooldown_resumes :
    let done : Instant := ⟨0, 59, 1500000000, by decide, by decide, by decide, by decide⟩
    let before : Instant := ⟨0, 86399, 900000000, by decide, by decide, by decide, by decide⟩
    let after : Instant := ⟨1, 0, 0, by decide, by decide, by decide, by decide⟩
    let j := (Journal.empty "ann" .epoch).recordCompletion "rats" done
    Rules.refusal? (ratRound 86340) (.named "ann" 1) before j = none
      ∧ Rules.refusal? (ratRound 86340) (.named "ann" 1) after j = some (.onCooldown 1) := by
  decide +kernel

end Questline
