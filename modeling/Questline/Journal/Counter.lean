import Questline.Datum.Reading

/-!
# Objective counters

Progress on one objective: how much has been reached of a target, and whether that
completed it. A counter moves by counting (`add`) or by being shown an amount reached
elsewhere (`observe`). It never moves past its target, and once it has completed it
never moves again.
-/

namespace Questline

/-- Progress on one objective. -/
structure Counter where
  current : UInt32
  /-- The amount that completes the counter. -/
  target : UInt32
  completed : Bool
  deriving DecidableEq, Repr

/-- How an event moves a counter. -/
inductive Amount where
  /-- Count so many more. -/
  | increment (n : UInt32)
  /-- Raise the counter to an amount that was reached. -/
  | observed (n : UInt32)
  deriving DecidableEq, Repr

namespace Counter

/-- Nothing reached yet of what is required, at least one. -/
def fresh (required : UInt32) : Counter := ⟨0, max required 1, false⟩

/-- Complete a counter that has reached its target, and say whether it has. -/
def settle (c : Counter) : Counter × Bool :=
  if c.target ≤ c.current then ({ c with completed := true }, true) else (c, false)

/-- What is reached after counting `n` more, at most the target. -/
def raised (c : Counter) (n : UInt32) : UInt32 :=
  if c.target.toNat ≤ c.current.toNat + n.toNat then c.target else c.current + n

/-- Count `n` more. The flag says whether the counter has just completed. -/
def add (c : Counter) (n : UInt32) : Counter × Bool :=
  if c.completed then (c, false) else settle { c with current := c.raised n }

/-- Raise a counter to an amount reached, never lowering it. The flags say whether the
counter changed and whether it has just completed. -/
def observe (c : Counter) (n : UInt32) : Counter × Bool × Bool :=
  if c.completed then (c, false, false)
  else
    let reached := min n c.target
    if reached ≤ c.current then (c, false, false)
    else
      let (c, done) := settle { c with current := reached }
      (c, true, done)

/-- Move a counter. Counting changes every counter that is not complete, even when
there is nothing to add. -/
def apply (c : Counter) : Amount → Counter × Bool × Bool
  | .increment n =>
    if c.completed then (c, false, false)
    else
      let (c, done) := c.add n
      (c, true, done)
  | .observed n => c.observe n

end Counter

end Questline
