import Questline.Proofs.Tally
import Questline.Proofs.Telling

/-!
# Sequences of calls on a counter

After any sequence of `Counter.add` and `Counter.observe` a fresh counter is where natural numbers
would put it, up to its target (`Counter.after_fresh`): no sum wraps around. So it never decreases,
and it completes once, by the call that reaches the target; after that it stays (`completes_once`).

That it completes once is true of every counter, not only of fresh ones: a call returns so exactly
if it finds the counter open and leaves it complete (`Counter.completes_call`), and no call opens
a counter again.
-/

namespace Questline

namespace Amount

/-- The effect of an amount on what is reached, without a bound. -/
def onto : Amount → Nat → Nat
  | .increment n, reached => reached + n.toNat
  | .observed n, reached => max reached n.toNat

/-- What a sequence of amounts reaches from zero. -/
def total (amounts : List Amount) : Nat := amounts.foldl (fun reached a => a.onto reached) 0

theorem le_onto (a : Amount) (reached : Nat) : reached ≤ a.onto reached := by
  cases a with
  | increment n => exact Nat.le_add_right ..
  | observed n => exact Nat.le_max_left ..

theorem le_foldl_onto (amounts : List Amount) (reached : Nat) :
    reached ≤ amounts.foldl (fun reached a => a.onto reached) reached := by
  induction amounts generalizing reached with
  | nil => exact Nat.le_refl reached
  | cons a rest ih => exact Nat.le_trans (a.le_onto reached) (ih (a.onto reached))

theorem total_append (amounts later : List Amount) :
    total (amounts ++ later) = later.foldl (fun reached a => a.onto reached) (total amounts) :=
  List.foldl_append

theorem total_le_of_start {earlier amounts : List Amount} (h : earlier <+: amounts) :
    total earlier ≤ total amounts := by
  obtain ⟨later, rfl⟩ := h
  rw [total_append]
  exact le_foldl_onto later (total earlier)

end Amount

namespace Counter

/-! ## Calls -/

/-- The result of one call on a counter. -/
structure Reply where
  /-- The counter after the call. -/
  counter : Counter
  /-- Whether the counter has changed; `Counter.add` does not return that. -/
  changed? : Option Bool
  /-- Whether the counter has just completed. -/
  completes : Bool
  deriving DecidableEq, Repr

/-- `Counter.add` or `Counter.observe`. -/
def call (c : Counter) : Amount → Reply
  | .increment n => ⟨(c.add n).1, none, (c.add n).2⟩
  | .observed n => ⟨(c.observe n).1, some (c.observe n).2.1, (c.observe n).2.2⟩

/-- The counter after calls, in order. -/
def after (c : Counter) (amounts : List Amount) : Counter :=
  amounts.foldl (fun c a => (c.call a).counter) c

/-- The results of calls, in order. -/
def replies (c : Counter) : List Amount → List Reply
  | [] => []
  | a :: rest => c.call a :: replies (c.call a).counter rest

/-- A call on a complete counter leaves it as it is, and returns neither flag. -/
theorem call_of_completed {c : Counter} (h : c.completed = true) (a : Amount) :
    (c.call a).counter = c ∧ (c.call a).changed? ≠ some true ∧ (c.call a).completes = false := by
  cases a with
  | increment n =>
      have hadd : c.add n = (c, false) := if_pos h
      simp only [call, hadd]
      exact ⟨trivial, nofun, trivial⟩
  | observed n =>
      have hobserve : c.observe n = (c, false, false) := if_pos h
      simp only [call, hobserve]
      exact ⟨trivial, nofun, trivial⟩

/-- A call returns that it completes the counter if it finds it open and leaves it complete. -/
theorem completes_call (c : Counter) (a : Amount) :
    (c.call a).completes = (!c.completed && (c.call a).counter.completed) := by
  cases hcompleted : c.completed with
  | true =>
      obtain ⟨-, -, hsilent⟩ := call_of_completed hcompleted a
      rw [hsilent]
      rfl
  | false =>
      rw [Bool.not_false, Bool.true_and]
      cases a with
      | increment n =>
          have hadd : c.add n = settle { c with current := c.raised n } :=
            if_neg (Bool.eq_false_iff.mp hcompleted)
          have hopen : ({ c with current := c.raised n } : Counter).completed = false := hcompleted
          simp only [call, hadd]
          exact (settle_completed hopen).symm
      | observed n =>
          have hopen : ({ c with current := min n c.target } : Counter).completed = false :=
            hcompleted
          simp only [call, observe, if_neg (Bool.eq_false_iff.mp hcompleted)]
          split
          · exact hcompleted.symm
          · exact (settle_completed hopen).symm

/-- `Counter.observe` returns that the counter has changed exactly if it raises it. -/
theorem changed_observed (c : Counter) (n : UInt32) :
    (c.call (.observed n)).changed?
      = some (decide (c.current < (c.call (.observed n)).counter.current)) := by
  have hstays : decide (c.current < c.current) = false := decide_eq_false (UInt32.lt_irrefl _)
  simp only [call, observe]
  split
  · rw [hstays]
  · split
    · rw [hstays]
    · rename_i hmore
      have hraised : (settle { c with current := min n c.target }).1.current = min n c.target := by
        unfold settle
        split <;> rfl
      rw [hraised, decide_eq_true (UInt32.not_le.mp hmore)]

/-- A call commutes with `Counter.at`. -/
theorem call_at (target : UInt32) (reached : Nat) (a : Amount) :
    ((Counter.at target reached).call a).counter = Counter.at target (a.onto reached) := by
  cases a with
  | increment n => exact at_add target reached n
  | observed n => exact at_observed target reached n

/-! ## Sequences of calls -/

theorem after_concat (c : Counter) (amounts : List Amount) (a : Amount) :
    c.after (amounts ++ [a]) = ((c.after amounts).call a).counter := List.foldl_append

theorem after_at (target : UInt32) (reached : Nat) (amounts : List Amount) :
    (Counter.at target reached).after amounts
      = Counter.at target (amounts.foldl (fun reached a => a.onto reached) reached) := by
  induction amounts generalizing reached with
  | nil => rfl
  | cons a rest ih =>
      show ((Counter.at target reached).call a).counter.after rest = _
      rw [call_at, ih, List.foldl_cons]

/-- A fresh counter after calls is `Counter.at` their total. -/
theorem after_fresh (required : UInt32) (amounts : List Amount) :
    (fresh required).after amounts = Counter.at (max required 1) (Amount.total amounts) := by
  rw [fresh_eq_at_max, after_at]
  rfl

theorem current_after (required : UInt32) (amounts : List Amount) :
    ((fresh required).after amounts).current.toNat
      = min (max required 1).toNat (Amount.total amounts) := by
  rw [after_fresh, current_at]

theorem completed_after_iff (required : UInt32) (amounts : List Amount) :
    ((fresh required).after amounts).completed = true
      ↔ ((fresh required).after amounts).current = max required 1 := by
  rw [after_fresh]
  exact completed_at_iff (max required 1) (Amount.total amounts)

/-- The current count of a fresh counter never decreases. -/
theorem current_after_le (required : UInt32) {earlier amounts : List Amount}
    (h : earlier <+: amounts) :
    ((fresh required).after earlier).current ≤ ((fresh required).after amounts).current := by
  have htotal := Amount.total_le_of_start h
  rw [UInt32.le_iff_toNat_le, current_after, current_after]
  omega

theorem current_after_le_target (required : UInt32) (amounts : List Amount) :
    ((fresh required).after amounts).current ≤ max required 1 := by
  rw [UInt32.le_iff_toNat_le, current_after]
  exact Nat.min_le_left ..

/-- A fresh counter that is short of its target has always been so. -/
theorem short_iff (required : UInt32) (amounts : List Amount) :
    ((fresh required).after amounts).current ≠ max required 1
      ↔ ∀ earlier, earlier <+: amounts →
        ((fresh required).after earlier).current ≠ max required 1 := by
  refine ⟨fun hshort earlier hstart hreached => hshort ?_, fun h => h amounts List.prefix_rfl⟩
  have hle := current_after_le required hstart
  rw [hreached] at hle
  exact UInt32.le_antisymm (current_after_le_target required amounts) hle

theorem after_of_completed {c : Counter} (h : c.completed = true) (amounts : List Amount) :
    c.after amounts = c := by
  induction amounts with
  | nil => rfl
  | cons a rest ih =>
      obtain ⟨hsame, -⟩ := call_of_completed h a
      show (c.call a).counter.after rest = c
      rw [hsame, ih]

/-- One call of a sequence completes the counter if the sequence finds it open and leaves it
complete, and otherwise none does. -/
theorem countP_completes (c : Counter) (amounts : List Amount) :
    (c.replies amounts).countP (·.completes)
      = if !c.completed && (c.after amounts).completed then 1 else 0 := by
  induction amounts generalizing c with
  | nil =>
      show 0 = if !c.completed && c.completed then 1 else 0
      rw [Bool.not_and_self]
      rfl
  | cons a rest ih =>
      have hafter : c.after (a :: rest) = (c.call a).counter.after rest := rfl
      rw [replies, List.countP_cons, ih, completes_call, hafter]
      cases hbefore : c.completed with
      | true =>
          obtain ⟨hsame, -⟩ := call_of_completed hbefore a
          rw [hsame, hbefore]
          rfl
      | false =>
          cases hnow : (c.call a).counter.completed with
          | true =>
              rw [after_of_completed hnow, hnow]
              rfl
          | false => exact Nat.add_zero _

end Counter

/-- **A counter completes once.** After any calls a fresh counter is at
the total of their amounts, up to its target. If that is the target, one call has returned that it
completes the counter, and else none has. The next call takes the counter neither back nor past
its target and leaves it complete exactly at the target; it returns that it completes the counter if
it is the first to leave it there. A counter that is there is left as it is, and the call returns
neither flag. `Counter.observe` returns that the counter has changed exactly if it raises it. -/
theorem completes_once (required : UInt32) (amounts : List Amount) :
    let target := max required 1
    let start := Counter.fresh required
    let c := start.after amounts
    c.current.toNat = min target.toNat (Amount.total amounts)
    ∧ (start.replies amounts).countP (·.completes) = (if c.current = target then 1 else 0)
    ∧ (∀ next, let r := c.call next
        c.current ≤ r.counter.current ∧ r.counter.current ≤ target
        ∧ (r.counter.completed = true ↔ r.counter.current = target)
        ∧ (r.completes = true ↔ r.counter.current = target
          ∧ ∀ earlier, earlier <+: amounts → (start.after earlier).current ≠ target)
        ∧ (c.current = target →
          r.counter = c ∧ r.changed? ≠ some true ∧ r.completes = false))
    ∧ ∀ n, let r := c.call (.observed n)
      r.changed? = some (decide (c.current < r.counter.current)) := by
  intro target start c
  refine ⟨Counter.current_after required amounts, ?_, fun next => ?_,
    fun n => c.changed_observed n⟩
  · rw [Counter.countP_completes, show start.completed = false from rfl, Bool.not_false,
      Bool.true_and]
    exact if_congr (Counter.completed_after_iff required amounts) rfl rfl
  · intro r
    -- the counter after the call is that after one amount more
    have hr : r.counter = start.after (amounts ++ [next]) := (start.after_concat amounts next).symm
    have hcompletes : r.completes = true ↔ r.counter.current = target ∧ c.current ≠ target := by
      rw [Counter.completes_call, Bool.and_eq_true, Bool.not_eq_true', ← Bool.not_eq_true,
        Counter.completed_after_iff, hr, Counter.completed_after_iff]
      exact And.comm
    rw [hcompletes, Counter.short_iff, hr]
    refine ⟨Counter.current_after_le required (List.prefix_append ..),
      Counter.current_after_le_target .., Counter.completed_after_iff .., Iff.rfl,
      fun hreached => ?_⟩
    have hcompleted : c.completed = true :=
      (Counter.completed_after_iff required amounts).mpr hreached
    obtain ⟨hsame, hquiet⟩ := Counter.call_of_completed hcompleted next
    exact ⟨hr.symm.trans hsame, hquiet⟩

/-- At the end of the range, an amount that would wrap the sum around takes the counter to its
target. -/
example :
    (Counter.fresh 4294967295).replies
        [.increment 4294967294, .increment 4294967295, .observed 4294967295]
      = [⟨⟨4294967294, 4294967295, false⟩, none, false⟩,
        ⟨⟨4294967295, 4294967295, true⟩, none, true⟩,
        ⟨⟨4294967295, 4294967295, true⟩, some false, false⟩] := by decide

end Questline
