import Questline.Engine

/-!
# The engine in shared use

Many clients use one engine side by side. A client that carries out a plan goes through
stages, and between two of its steps the others may take any number of theirs; a
schedule says who moves when, and what each move meets.

Each slot has a lock, and only the client that has the lock looks into the slot. The
lock is kept while the repository is waited for, so clients that come for the same
player share one load. A player who is let go loses the slot in two steps: the table
forgets the slot, then the slot is marked as given up. Who was waiting for its lock finds
the mark and looks the player up again.

The news is published after the lock has been given back, one notification at a time.

A run keeps a record of what happened in it, in order. With one client at a time the
runs are those of `Engine.run`.
-/

namespace Questline

/-! ## Slots under locks -/

/-- A slot with its lock. -/
structure LockedSlot where
  /-- What the slot holds; nothing once it was given up. -/
  content : Option Slot
  /-- The client that has the lock. -/
  holder : Option Nat
  deriving DecidableEq, Repr

namespace LockedSlot

/-- A slot that was just made. -/
def fresh : LockedSlot := ⟨some .unloaded, none⟩

def lock (client : Nat) (l : LockedSlot) : LockedSlot := { l with holder := some client }

def unlock (l : LockedSlot) : LockedSlot := { l with holder := none }

def hold (slot : Slot) (l : LockedSlot) : LockedSlot := { l with content := some slot }

def giveUp (l : LockedSlot) : LockedSlot := { l with content := none }

end LockedSlot

/-! ## Clients -/

/-- What a client wants of a player's slot. -/
inductive Errand where
  /-- To apply a rule to the journal. -/
  | consult (rule : Journal → Ruling Answer)
  /-- To let the player go. -/
  | evict

/-- What remains to be said once the lock is given back. -/
structure Parting where
  news : List Notification
  answer : Except EngineError Answer

/-- How far a client has come with a plan. -/
inductive Stage where
  | idle
  /-- About to look the player up. -/
  | seeking (username : String) (errand : Errand)
  /-- Waiting for the lock of a slot. -/
  | waiting (username : String) (errand : Errand) (slot : Nat)
  /-- Has the lock and is about to look into the slot. -/
  | arriving (username : String) (errand : Errand) (slot : Nat)
  /-- Waiting for the repository to find the journal. -/
  | loading (username : String) (rule : Journal → Ruling Answer) (slot : Nat)
  /-- About to open a journal that should be there. -/
  | opening (username : String) (rule : Journal → Ruling Answer) (slot : Nat)
  /-- Has the journal in hand. -/
  | holding (username : String) (rule : Journal → Ruling Answer) (slot : Nat) (journal : Journal)
  /-- Waiting for the repository to keep the journal in hand. -/
  | saving (username : String) (slot : Nat) (news : List Notification) (answer : Answer)
  /-- About to give back the journal and the lock. -/
  | closing (username : String) (slot : Nat) (parting : Parting)
  /-- Waiting for the repository to keep the journal of a player who leaves. -/
  | flushing (username : String) (slot : Nat)
  /-- About to make the table forget the slot. -/
  | removing (username : String) (slot : Nat)
  /-- About to mark the slot as given up. -/
  | marking (slot : Nat)
  /-- About to give back a lock without a journal. -/
  | leaving (slot : Nat) (parting : Parting)
  /-- Has no lock any more. -/
  | publishing (parting : Parting)

/-- Something that happened in a run. Players are named as the storage knows them. -/
inductive Happening where
  /-- A client set out for the slot of a player. -/
  | cameFor (client : Nat) (key : String)
  /-- A client looked a player up in the table. -/
  | lookedUp (client : Nat) (key : String)
  /-- A client had a journal loaded. -/
  | loaded (client : Nat) (key : String) (succeeded : Bool)
  /-- A client took a journal in hand. -/
  | opened (client : Nat) (key : String) (journal : Journal)
  /-- A client gave a journal back. -/
  | closed (client : Nat) (key : String) (journal : Journal)
  /-- A client had a journal written. -/
  | saved (client : Nat) (journal : Journal) (succeeded : Bool)
  /-- A client made the table forget the slot of a player. -/
  | removed (client : Nat) (key : String)
  | published (client : Nat) (notification : Notification)
  | answered (client : Nat) (answer : Except EngineError Answer)

/-- The engine with all who use it. -/
structure SharedEngine (ρ : Type) where
  repository : ρ
  /-- How long an access to the repository may take, in milliseconds. -/
  limit : Nat
  /-- The number of the slot of each player. -/
  table : Dict Nat
  /-- Every slot that was ever made, by number. -/
  slots : List LockedSlot
  /-- How far each client has come. -/
  stage : Nat → Stage
  /-- What has happened so far. -/
  record : List Happening

/-- One move of a run. -/
inductive Move where
  /-- An idle client begins with a plan. -/
  | start (client : Nat) (plan : Plan)
  /-- A client takes its next step. -/
  | proceed (client : Nat) (circumstances : Circumstances)

namespace SharedEngine

variable {ρ : Type}

/-- An engine that nobody uses yet. -/
def new (repository : ρ) (limit : Nat) : SharedEngine ρ :=
  ⟨repository, limit, ∅, [], fun _ => .idle, []⟩

/-! ## Parts of a step -/

/-- What a slot holds. -/
def content? (s : SharedEngine ρ) (slot : Nat) : Option Slot := s.slots[slot]?.bind (·.content)

/-- The client that has the lock of a slot. -/
def holder? (s : SharedEngine ρ) (slot : Nat) : Option Nat := s.slots[slot]?.bind (·.holder)

def enter (s : SharedEngine ρ) (client : Nat) (stage : Stage) : SharedEngine ρ :=
  { s with stage := fun i => if i = client then stage else s.stage i }

def note (s : SharedEngine ρ) (h : Happening) : SharedEngine ρ :=
  { s with record := s.record ++ [h] }

def atSlot (s : SharedEngine ρ) (slot : Nat) (f : LockedSlot → LockedSlot) : SharedEngine ρ :=
  { s with slots := s.slots.modify slot f }

/-! ## Steps -/

variable [Repository ρ]

/-- Look the player up. One who is only to be let go gets no new slot. -/
def seek (s : SharedEngine ρ) (client : Nat) (username : String) (errand : Errand) :
    SharedEngine ρ :=
  let s := s.note (.lookedUp client (playerKey username))
  match s.table.get? (playerKey username), errand with
  | some slot, _ => s.enter client (.waiting username errand slot)
  | none, .consult _ =>
    let slot := s.slots.length
    { s with
      table := s.table.insert (playerKey username) slot
      slots := s.slots ++ [LockedSlot.fresh] }.enter client (.waiting username errand slot)
  | none, .evict => s.enter client (.publishing ⟨[], .ok (.changed false)⟩)

/-- Look into the slot whose lock was taken. -/
def arrive (s : SharedEngine ρ) (client : Nat) (username : String) (errand : Errand)
    (slot : Nat) : SharedEngine ρ :=
  match s.content? slot, errand with
  | none, .consult _ => (s.atSlot slot .unlock).enter client (.seeking username errand)
  | none, .evict => s.enter client (.leaving slot ⟨[], .ok (.changed false)⟩)
  | some .unloaded, .consult rule => s.enter client (.loading username rule slot)
  | some (.loaded _ _), .consult rule => s.enter client (.opening username rule slot)
  | some (.loaded _ true), .evict => s.enter client (.flushing username slot)
  | some _, .evict => s.enter client (.removing username slot)

/-- The repository answers. -/
def load (s : SharedEngine ρ) (c : Circumstances) (client : Nat) (username : String)
    (rule : Journal → Ruling Answer) (slot : Nat) : SharedEngine ρ :=
  match Repository.load s.repository s.limit c username with
  | .ok j =>
    ((s.atSlot slot (.hold (.loaded j false))).note
      (.loaded client (playerKey username) true)).enter client (.opening username rule slot)
  | .error e =>
    (s.note (.loaded client (playerKey username) false)).enter client
      (.leaving slot ⟨[], .error (.storage e)⟩)

/-- Take the journal in hand. -/
def openJournal (s : SharedEngine ρ) (client : Nat) (username : String)
    (rule : Journal → Ruling Answer) (slot : Nat) : SharedEngine ρ :=
  match s.content? slot with
  | some (.loaded j _) =>
    (s.note (.opened client (playerKey username) j)).enter client
      (.holding username rule slot j)
  | _ =>
    s.enter client (.leaving slot ⟨[], .error (.storage
      (.unavailable ("progress for " ++ username ++ " was not loaded")))⟩)

/-- Apply the rule to the journal in hand. -/
def apply (s : SharedEngine ρ) (client : Nat) (username : String)
    (rule : Journal → Ruling Answer) (slot : Nat) (j : Journal) : SharedEngine ρ :=
  match rule j with
  | .look answer =>
    s.enter client (.closing username slot ⟨[], answer.mapError .refused⟩)
  | .handle j answer =>
    (s.atSlot slot (.hold (.loaded j true))).enter client
      (.closing username slot ⟨[], answer.mapError .refused⟩)
  | .commit j news answer =>
    (s.atSlot slot (.hold (.loaded j true))).enter client (.saving username slot news answer)

/-- Write the journal in a slot, as `Store.persist` does. -/
def write (s : SharedEngine ρ) (c : Circumstances) (client : Nat) (slot : Nat) :
    SharedEngine ρ × Except EngineError Unit :=
  match s.content? slot with
  | some (.loaded j dirty) =>
    let stamped := j.touch c.savedAt
    match Repository.write s.repository s.limit c stamped with
    | .ok r =>
      (({ s with repository := r }.atSlot slot (.hold (.loaded stamped false))).note
        (.saved client stamped true), .ok ())
    | .error e =>
      ((s.atSlot slot (.hold (.loaded stamped dirty))).note (.saved client stamped false),
        .error (.storage e))
  | _ => (s, .ok ())

/-- Give the journal and the lock back. -/
def close (s : SharedEngine ρ) (client : Nat) (username : String) (slot : Nat)
    (parting : Parting) : SharedEngine ρ :=
  let s := match s.content? slot with
    | some (.loaded j _) => s.note (.closed client (playerKey username) j)
    | _ => s
  (s.atSlot slot .unlock).enter client (.publishing parting)

/-- Make the table forget a slot, if it still leads to it. -/
def remove (s : SharedEngine ρ) (client : Nat) (username : String) (slot : Nat) :
    SharedEngine ρ :=
  let s := if s.table.get? (playerKey username) = some slot then
      { s with table := s.table.erase (playerKey username) }.note
        (.removed client (playerKey username))
    else s
  s.enter client (.marking slot)

/-- Say the next of what remains to be said. -/
def publish (s : SharedEngine ρ) (client : Nat) : Parting → SharedEngine ρ
  | ⟨n :: news, answer⟩ =>
    (s.note (.published client n)).enter client (.publishing ⟨news, answer⟩)
  | ⟨[], answer⟩ => (s.note (.answered client answer)).enter client .idle

/-- The next step of a client. There is none if it is idle, or if it waits for a lock that
another client has. -/
def step? (s : SharedEngine ρ) (c : Circumstances) (client : Nat) : Option (SharedEngine ρ) :=
  match s.stage client with
  | .idle => none
  | .seeking username errand => some (s.seek client username errand)
  | .waiting username errand slot =>
    match s.holder? slot with
    | some _ => none
    | none => some ((s.atSlot slot (.lock client)).enter client (.arriving username errand slot))
  | .arriving username errand slot => some (s.arrive client username errand slot)
  | .loading username rule slot => some (s.load c client username rule slot)
  | .opening username rule slot => some (s.openJournal client username rule slot)
  | .holding username rule slot j => some (s.apply client username rule slot j)
  | .saving username slot news answer =>
    let (s, written) := s.write c client slot
    some (s.enter client (.closing username slot ⟨news, written.map fun _ => answer⟩))
  | .closing username slot parting => some (s.close client username slot parting)
  | .flushing username slot =>
    match s.write c client slot with
    | (s, .ok _) => some (s.enter client (.removing username slot))
    | (s, .error e) => some (s.enter client (.leaving slot ⟨[], .error e⟩))
  | .removing username slot => some (s.remove client username slot)
  | .marking slot =>
    some ((s.atSlot slot .giveUp).enter client (.leaving slot ⟨[], .ok (.changed true)⟩))
  | .leaving slot parting => some ((s.atSlot slot .unlock).enter client (.publishing parting))
  | .publishing parting => some (s.publish client parting)

/-- Begin with a plan. -/
def begin? (s : SharedEngine ρ) (client : Nat) (plan : Plan) : Option (SharedEngine ρ) :=
  match s.stage client with
  | .idle =>
    some (match plan with
    | .settled answer => s.enter client (.publishing ⟨[], answer.mapError .refused⟩)
    | .consult username rule =>
      (s.note (.cameFor client (playerKey username))).enter client
        (.seeking username (.consult rule))
    | .evict username =>
      (s.note (.cameFor client (playerKey username))).enter client (.seeking username .evict))
  | _ => none

/-! ## Runs -/

def move? (s : SharedEngine ρ) : Move → Option (SharedEngine ρ)
  | .start client plan => s.begin? client plan
  | .proceed client c => s.step? c client

/-- Make moves one after another, if each of them can be made. -/
def run? (s : SharedEngine ρ) (moves : List Move) : Option (SharedEngine ρ) :=
  moves.foldlM move? s

end SharedEngine

end Questline
