import Questline.Operation
import Questline.Store.Basic

/-!
# The engine

A catalog over a store. `Engine.run` carries out one operation: it fetches the journal
that the operation needs, applies the rule, and if the rule commits, writes the journal
once and publishes the news. The news is published even if the write failed, since the
change stands in the store and is written later; the one who asked hears of the failure.
-/

namespace Questline

/-- Why an operation has no answer. -/
inductive EngineError where
  /-- The rules refuse it. -/
  | refused (refusal : Refusal)
  /-- A journal could not be loaded or saved. -/
  | storage (error : StoreError)
  deriving DecidableEq, Repr

namespace EngineError

def message : EngineError → String
  | refused refusal => refusal.message
  | storage error => "Failed to save quest progress: " ++ error.message

end EngineError

structure Engine (ρ : Type) where
  catalog : Catalog
  store : Store ρ

/-- What one operation leaves behind. -/
structure Outcome (ρ : Type) where
  engine : Engine ρ
  /-- The attempts to reach the repository, in order. -/
  accesses : List Access
  /-- The notifications published, in order. -/
  news : List Notification
  answer : Except EngineError Answer

namespace Engine

variable {ρ : Type}

/-- An engine with no journal in use; `limit` bounds an access to the repository, in
milliseconds. -/
def new (catalog : Catalog) (repository : ρ) (limit : Nat) : Engine ρ :=
  ⟨catalog, Store.new repository limit⟩

/-- Put another catalog in place. Active quests that it does not know are left alone and
make no progress. -/
def reload (e : Engine ρ) (catalog : Catalog) : Engine ρ := { e with catalog := catalog }

variable [Repository ρ]

/-- Apply a rule to the journal of a player. -/
def consult (e : Engine ρ) (c : Circumstances) (username : String)
    (rule : Journal → Ruling Answer) : Outcome ρ :=
  match e.store.fetch c username with
  | ⟨s, accesses, .error err⟩ => ⟨{ e with store := s }, accesses, [], .error (.storage err)⟩
  | ⟨s, accesses, .ok j⟩ =>
    match rule j with
    | .look answer => ⟨{ e with store := s }, accesses, [], answer.mapError .refused⟩
    | .handle j answer =>
      ⟨{ e with store := s.revise username j }, accesses, [], answer.mapError .refused⟩
    | .commit j news answer =>
      let written := (s.revise username j).persist c username
      ⟨{ e with store := written.store }, accesses ++ written.accesses, news,
        (written.result.mapError .storage).map fun _ => answer⟩

/-- Carry out an operation. -/
def run (e : Engine ρ) (c : Circumstances) (op : Operation) : Outcome ρ :=
  match op.plan e.catalog c.now with
  | .settled answer => ⟨e, [], [], answer.mapError .refused⟩
  | .consult username rule => e.consult c username rule
  | .evict username =>
    let released := e.store.evict c username
    ⟨{ e with store := released.store }, released.accesses, [],
      (released.result.mapError .storage).map .changed⟩

end Engine

end Questline
