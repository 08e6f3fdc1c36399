import Questline.Store.Repository

/-!
# The store

The store keeps the journals of the players who are in the game, so that a journal is
loaded once. Each player has a slot, under the lower-cased name; a slot is *dirty* while
its journal may differ from the one in the repository. A journal that could not be
written stays in its slot, and the next write carries it.

Every operation on the store tells, beside its result, how it tried to reach the
repository.
-/

namespace Questline

/-- The place of one player in the store. -/
inductive Slot where
  /-- The player was asked for, but the journal could not be loaded. -/
  | unloaded
  | loaded (journal : Journal) (dirty : Bool)
  deriving DecidableEq, Repr

/-- The journals in use, over the repository that keeps them. -/
structure Store (ρ : Type) where
  repository : ρ
  slots : Dict Slot
  /-- How long an access to the repository may take, in milliseconds. -/
  limit : Nat

/-- One attempt to reach the repository, and whether it succeeded. -/
inductive Access where
  | load (username : String) (succeeded : Bool)
  | save (journal : Journal) (succeeded : Bool)
  deriving DecidableEq, Repr

/-- What an operation on the store leaves behind. -/
structure Visit (ρ α : Type) where
  store : Store ρ
  /-- The attempts to reach the repository, in order. -/
  accesses : List Access
  result : Except StoreError α

namespace Store

variable {ρ : Type}

/-- A store with no journal in use. -/
def new (repository : ρ) (limit : Nat) : Store ρ := ⟨repository, ∅, limit⟩

/-- The slot of a player. -/
def slot? (s : Store ρ) (username : String) : Option Slot := s.slots.get? (playerKey username)

def setSlot (s : Store ρ) (username : String) (slot : Slot) : Store ρ :=
  { s with slots := s.slots.insert (playerKey username) slot }

/-- The journal in use for a player. -/
def journal? (s : Store ρ) (username : String) : Option Journal :=
  match s.slot? username with
  | some (.loaded j _) => some j
  | _ => none

/-- Whether a player has a slot. -/
def isCached (s : Store ρ) (username : String) : Bool := (s.slot? username).isSome

/-- Put a journal that was opened for a change back into its slot. -/
def revise (s : Store ρ) (username : String) (j : Journal) : Store ρ :=
  s.setSlot username (.loaded j true)

/-- Give up the slot of a player. -/
def release (s : Store ρ) (username : String) : Store ρ :=
  { s with slots := s.slots.erase (playerKey username) }

variable [Repository ρ]

/-! ## Operations -/

/-- The journal of a player, loaded if it is not in use yet. -/
def fetch (s : Store ρ) (c : Circumstances) (username : String) : Visit ρ Journal :=
  match s.journal? username with
  | some j => ⟨s, [], .ok j⟩
  | none =>
    match Repository.load s.repository s.limit c username with
    | .ok j => ⟨s.setSlot username (.loaded j false), [.load username true], .ok j⟩
    | .error e => ⟨s.setSlot username .unloaded, [.load username false], .error e⟩

/-- Write the journal in use for a player. It is stamped with the time before the outcome
is known. -/
def persist (s : Store ρ) (c : Circumstances) (username : String) : Visit ρ Unit :=
  match s.slot? username with
  | some (.loaded j dirty) =>
    let stamped := j.touch c.savedAt
    match Repository.write s.repository s.limit c stamped with
    | .ok r =>
      ⟨{ s with repository := r }.setSlot username (.loaded stamped false), [.save stamped true],
        .ok ()⟩
    | .error e => ⟨s.setSlot username (.loaded stamped dirty), [.save stamped false], .error e⟩
  | _ => ⟨s, [], .ok ()⟩

/-- Let a player go. A dirty journal is written first, and if that fails, the player
stays. The flag says whether there was a slot. -/
def evict (s : Store ρ) (c : Circumstances) (username : String) : Visit ρ Bool :=
  match s.slot? username with
  | none => ⟨s, [], .ok false⟩
  | some (.loaded _ true) =>
    match s.persist c username with
    | ⟨s, accesses, .ok _⟩ => ⟨s.release username, accesses, .ok true⟩
    | ⟨s, accesses, .error e⟩ => ⟨s, accesses, .error e⟩
  | some _ => ⟨s.release username, [], .ok true⟩

end Store

end Questline
