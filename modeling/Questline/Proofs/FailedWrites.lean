import Questline.Proofs.Steadiness
import Questline.Proofs.Writing

/-!
# Writes that fail

A journal is stamped with the time before it is written, in its slot. So a write that fails
leaves the store and the repository as they were but for one thing: the journal in use bears the
stamp of the attempt (`Store.attempt_failed`). That is more than nothing, for the stamp is shown to
whoever asks for the journal, and says that it was written when it was not (`failed_write_shown`).

It is no more than that, however many writes fail and whoever they are about (`Store.Restamped`),
and the next write of a player does not tell the difference: it finds the same journal and puts
its own stamp on it (`Store.Restamped.attempt`).
-/

namespace Questline

/-! ## Stamps -/

theorem Journal.touch_touch (j : Journal) (first second : Instant) :
    (j.touch first).touch second = j.touch second := rfl

namespace Slot

/-- The same slot, its journal under another stamp if there is one. -/
def stamped : Option Instant → Slot → Slot
  | some time, loaded j dirty => loaded (j.touch time) dirty
  | _, slot => slot

@[simp] theorem stamped_none (slot : Slot) : slot.stamped none = slot := rfl

@[simp] theorem stamped_unloaded (time? : Option Instant) :
    stamped time? .unloaded = .unloaded := by
  cases time? <;> rfl

theorem stamped_loaded (time? : Option Instant) (j : Journal) (dirty : Bool) :
    ∃ i, stamped time? (.loaded j dirty) = .loaded i dirty ∧ ∀ now, i.touch now = j.touch now := by
  cases time? with
  | none => exact ⟨j, rfl, fun _ => rfl⟩
  | some time => exact ⟨j.touch time, rfl, j.touch_touch time⟩

theorem stamped_stamped (slot : Slot) (first second : Option Instant) :
    (slot.stamped first).stamped second = slot.stamped (second.or first) := by
  cases slot <;> cases first <;> cases second <;> rfl

end Slot

/-! ## Attempts to write -/

/-- A call that is to write the journal of a player. -/
inductive Write where
  /-- `Store.persist`. -/
  | persist (c : Circumstances) (username : String)
  /-- `Store.evict`, which writes if the slot is dirty. -/
  | evict (c : Circumstances) (username : String)
  deriving DecidableEq, Repr

namespace Write

def username : Write → String
  | persist _ u => u
  | evict _ u => u

/-- The stamp of the journal that is to be written. -/
def time : Write → Instant
  | persist c _ => c.savedAt
  | evict c _ => c.savedAt

/-- The stamp of a write, if it is about the player of a lower-cased name. -/
def stampOn? (w : Write) (key : String) : Option Instant :=
  if playerKey w.username = key then some w.time else none

/-- The last stamp of writes that are about the player of a lower-cased name, if any is. -/
def lastStamp? (key : String) : List Write → Option Instant
  | [] => none
  | w :: rest => (lastStamp? key rest).or (w.stampOn? key)

end Write

namespace Store

variable {ρ : Type} [Repository ρ]

/-- Carry out a write. The flag is that of an eviction. -/
def attempt (s : Store ρ) : Write → Visit ρ Bool
  | .persist c username =>
    let v := s.persist c username
    ⟨v.store, v.accesses, v.result.map fun _ => true⟩
  | .evict c username => s.evict c username

/-- The store after writes, in order. -/
def attempts (s : Store ρ) (writes : List Write) : Store ρ :=
  writes.foldl (fun s w => (s.attempt w).store) s

/-- Every one of some writes, in order, fails. -/
def AllFail : Store ρ → List Write → Prop
  | _, [] => True
  | s, w :: rest => (∃ err, (s.attempt w).result = .error err) ∧ AllFail (s.attempt w).store rest

variable {s s' : Store ρ}

/-! ## What one failed write leaves -/

theorem persist_error {c : Circumstances} {username : String} {err : StoreError}
    (h : (s.persist c username).result = .error err) :
    ∃ j dirty, s.slot? username = some (.loaded j dirty)
      ∧ s.persist c username = ⟨s.setSlot username (.loaded (j.touch c.savedAt) dirty),
        [.save (j.touch c.savedAt) false], .error err⟩ := by
  cases hslot : s.slot? username with
  | none =>
      simp only [persist, hslot] at h
      cases h
  | some slot =>
      cases slot with
      | unloaded =>
          simp only [persist, hslot] at h
          cases h
      | loaded j dirty =>
          cases hfault : c.saveFault with
          | none =>
              rw [persist_stored hslot hfault] at h
              cases h
          | some fault =>
              rw [persist_refused hslot hfault] at h ⊢
              cases h
              exact ⟨j, dirty, rfl, rfl⟩

theorem evict_error {c : Circumstances} {username : String} {err : StoreError}
    (h : (s.evict c username).result = .error err) :
    ∃ j dirty, s.slot? username = some (.loaded j dirty)
      ∧ s.evict c username = ⟨s.setSlot username (.loaded (j.touch c.savedAt) dirty),
        [.save (j.touch c.savedAt) false], .error err⟩ := by
  have hevicted := s.evicted c username
  generalize s.evict c username = v at hevicted h ⊢
  cases hevicted with
  | absent | unloaded | clean | stored => cases h
  | refused j fault hslot =>
      cases h
      exact ⟨j, true, hslot, rfl⟩

/-- A write that fails finds a journal in use and leaves it in its slot, under its stamp. -/
theorem attempt_failed {w : Write} {err : StoreError} (h : (s.attempt w).result = .error err) :
    ∃ j dirty, s.slot? w.username = some (.loaded j dirty)
      ∧ s.attempt w = ⟨s.setSlot w.username (.loaded (j.touch w.time) dirty),
        [.save (j.touch w.time) false], .error err⟩ := by
  cases w with
  | persist c username =>
      have hfailed : (s.persist c username).result = .error err := by
        cases hresult : (s.persist c username).result with
        | ok _ =>
            simp only [attempt, hresult] at h
            cases h
        | error err' =>
            simp only [attempt, hresult] at h
            cases h
            rfl
      obtain ⟨j, dirty, hslot, hpersist⟩ := persist_error hfailed
      refine ⟨j, dirty, hslot, ?_⟩
      simp only [attempt, hpersist]
      rfl
  | evict c username => exact evict_error h

omit [Repository ρ] in
/-- Stamping a journal in its slot changes the store, if the stamp is another one. -/
theorem setSlot_touch_eq_iff {username : String} {j : Journal} {dirty : Bool}
    (h : s.slot? username = some (.loaded j dirty)) (now : Instant) :
    s.setSlot username (.loaded (j.touch now) dirty) = s ↔ j.lastUpdated = now := by
  refine ⟨fun hsame => ?_, fun hstamp => ?_⟩
  · have hslot := s.slot?_setSlot username (.loaded (j.touch now) dirty)
    rw [hsame, h] at hslot
    injection hslot with hslot
    injection hslot with hj
    exact congrArg Journal.lastUpdated hj
  · subst hstamp
    show { s with slots := s.slots.insert (playerKey username) (.loaded j dirty) } = s
    rw [Dict.insert_self h]

/-! ## Stores that differ in stamps -/

/-- The same slots over the same repository, with the journals of some players, by their
lower-cased names, under other stamps. -/
structure Restamped (stamp? : String → Option Instant) (s s' : Store ρ) : Prop where
  repository : s'.repository = s.repository
  limit : s'.limit = s.limit
  slots : ∀ key, s'.slots.get? key = (s.slots.get? key).map (Slot.stamped (stamp? key))

namespace Restamped

variable {stamp? : String → Option Instant}

omit [Repository ρ] in
theorem slot (h : Restamped stamp? s s') (username : String) :
    s'.slot? username = (s.slot? username).map (Slot.stamped (stamp? (playerKey username))) :=
  h.slots (playerKey username)

omit [Repository ρ] in
theorem refl (s : Store ρ) : Restamped (fun _ => none) s s where
  repository := rfl
  limit := rfl
  slots key := by
    rw [show Slot.stamped none = id from funext Slot.stamped_none, Option.map_id]
    rfl

omit [Repository ρ] in
theorem trans {s'' : Store ρ} {first second : String → Option Instant}
    (h : Restamped first s s') (h' : Restamped second s' s'') :
    Restamped (fun key => (second key).or (first key)) s s'' where
  repository := h'.repository.trans h.repository
  limit := h'.limit.trans h.limit
  slots key := by
    rw [h'.slots, h.slots, Option.map_map]
    exact congrArg (fun f => Option.map f (s.slots.get? key))
      (funext fun slot => slot.stamped_stamped (first key) (second key))

theorem of_failed {w : Write} (h : ∃ err, (s.attempt w).result = .error err) :
    Restamped w.stampOn? s (s.attempt w).store := by
  obtain ⟨err, h⟩ := h
  obtain ⟨j, dirty, hslot, hattempt⟩ := attempt_failed h
  rw [hattempt]
  refine ⟨rfl, rfl, fun key => ?_⟩
  simp only [setSlot, Dict.get?_insert, Write.stampOn?]
  by_cases hkey : playerKey w.username = key
  · subst hkey
    rw [if_pos rfl, if_pos rfl, show s.slots.get? (playerKey w.username) = _ from hslot]
    rfl
  · rw [if_neg hkey, if_neg hkey]
    exact (refl s).slots key

/-- Writes that all fail leave everything but stamps. -/
theorem of_allFail {failed : List Write} (h : s.AllFail failed) :
    Restamped (Write.lastStamp? · failed) s (s.attempts failed) := by
  induction failed generalizing s with
  | nil => exact refl s
  | cons w rest ih => exact (of_failed h.1).trans (ih h.2)

end Restamped

end Store

/-- Two calls with the same accesses and the same result, which leave the same repository and the
same slot of the player. -/
structure Visit.Agrees {ρ α : Type} (username : String) (v v' : Visit ρ α) : Prop where
  accesses : v'.accesses = v.accesses
  result : v'.result = v.result
  repository : v'.store.repository = v.store.repository
  slot : v'.store.slot? username = v.store.slot? username

namespace Store

variable {ρ : Type} [Repository ρ] {s s' : Store ρ} {stamp? : String → Option Instant}

namespace Restamped

theorem persist (h : Restamped stamp? s s') (c : Circumstances) (username : String) :
    (s.persist c username).Agrees username (s'.persist c username) := by
  have hslot' := h.slot username
  cases hslot : s.slot? username with
  | none =>
      rw [hslot] at hslot'
      simp only [Store.persist, hslot, hslot', Option.map_none]
      exact ⟨rfl, rfl, h.repository, hslot'.trans hslot.symm⟩
  | some slot =>
      rw [hslot, Option.map_some] at hslot'
      cases slot with
      | unloaded =>
          rw [Slot.stamped_unloaded] at hslot'
          simp only [Store.persist, hslot, hslot']
          exact ⟨rfl, rfl, h.repository, hslot'.trans hslot.symm⟩
      | loaded j dirty =>
          obtain ⟨i, hstamped, htouch⟩ := Slot.stamped_loaded (stamp? (playerKey username)) j dirty
          rw [hstamped] at hslot'
          cases hfault : c.saveFault with
          | none =>
              rw [persist_stored hslot hfault, persist_stored hslot' hfault, htouch, h.repository]
              refine ⟨rfl, rfl, rfl, ?_⟩
              rw [slot?_setSlot, slot?_setSlot]
          | some fault =>
              rw [persist_refused hslot hfault, persist_refused hslot' hfault, htouch, h.limit]
              refine ⟨rfl, rfl, h.repository, ?_⟩
              rw [slot?_setSlot, slot?_setSlot]

theorem evict (h : Restamped stamp? s s') (c : Circumstances) (username : String) :
    (s.evict c username).Agrees username (s'.evict c username) := by
  have hslot' := h.slot username
  have hreleased : (s'.release username).slot? username = (s.release username).slot? username := by
    rw [slot?_release, slot?_release]
  cases hslot : s.slot? username with
  | none =>
      rw [hslot] at hslot'
      simp only [Store.evict, hslot, hslot', Option.map_none]
      exact ⟨rfl, rfl, h.repository, hslot'.trans hslot.symm⟩
  | some slot =>
      rw [hslot, Option.map_some] at hslot'
      cases slot with
      | unloaded =>
          rw [Slot.stamped_unloaded] at hslot'
          simp only [Store.evict, hslot, hslot']
          exact ⟨rfl, rfl, h.repository, hreleased⟩
      | loaded j dirty =>
          obtain ⟨i, hstamped, -⟩ := Slot.stamped_loaded (stamp? (playerKey username)) j dirty
          rw [hstamped] at hslot'
          cases dirty with
          | false =>
              simp only [Store.evict, hslot, hslot']
              exact ⟨rfl, rfl, h.repository, hreleased⟩
          | true =>
              have hwritten := h.persist c username
              rcases hpersist : s.persist c username with ⟨t, accesses, result⟩
              rcases hpersist' : s'.persist c username with ⟨t', accesses', result'⟩
              rw [hpersist, hpersist'] at hwritten
              obtain ⟨rfl, rfl, hrepository, hkept⟩ := hwritten
              simp only [Store.evict, hslot, hslot', hpersist, hpersist']
              cases result' with
              | ok _ =>
                  refine ⟨rfl, rfl, hrepository, ?_⟩
                  rw [slot?_release, slot?_release]
              | error err => exact ⟨rfl, rfl, hrepository, hkept⟩

/-- A write of a player puts its own stamp on the journal, whatever stamp it finds. -/
theorem attempt (h : Restamped stamp? s s') (w : Write) :
    (s.attempt w).Agrees w.username (s'.attempt w) := by
  cases w with
  | persist c username =>
      have hwritten := h.persist c username
      exact ⟨hwritten.accesses, congrArg (Except.map fun _ => true) hwritten.result,
        hwritten.repository, hwritten.slot⟩
  | evict c username => exact h.evict c username

end Restamped

end Store

/-- **A write that fails leaves a stamp.** After any writes that all fail, of whichever players,
the repository is as before and so are all slots, whether they count as written or not, except
that a journal in use bears the stamp of the last of the writes about its player. One that fails
finds a journal in use and leaves the store as it was exactly if the journal bears its stamp
already. The next write has the same accesses, result and effect as without the others. -/
theorem failed_writes_restamp {ρ : Type} [Repository ρ] (s : Store ρ) (failed : List Write)
    (hfailed : s.AllFail failed) (w : Write) :
    let s' := s.attempts failed
    s.Restamped (Write.lastStamp? · failed) s'
    ∧ (∀ err, (s.attempt w).result = .error err → ∃ j dirty,
        s.slot? w.username = some (.loaded j dirty)
        ∧ (s.attempt w).store = s.setSlot w.username (.loaded (j.touch w.time) dirty)
        ∧ ((s.attempt w).store = s ↔ j.lastUpdated = w.time))
    ∧ (s.attempt w).Agrees w.username (s'.attempt w) := by
  intro s'
  have hstamps : s.Restamped (Write.lastStamp? · failed) s' := Store.Restamped.of_allFail hfailed
  refine ⟨hstamps, fun err herr => ?_, hstamps.attempt w⟩
  obtain ⟨j, dirty, hslot, hattempt⟩ := Store.attempt_failed herr
  rw [hattempt]
  exact ⟨j, dirty, hslot, rfl, Store.setSlot_touch_eq_iff hslot w.time⟩

/-- A player is kept back twice while nothing can be saved, under whatever name, with a new stamp
each time, and leaves on the third day with the journal of that day. -/
theorem failed_writes_restamp_ann :
    let j := { Journal.empty "Ann" .epoch with completed := [⟨"rats", .epoch, 1⟩] }
    let first : Instant := ⟨1, 0, 0, by decide, by decide, by decide, by decide⟩
    let second : Instant := ⟨2, 0, 0, by decide, by decide, by decide, by decide⟩
    let third : Instant := ⟨3, 0, 0, by decide, by decide, by decide, by decide⟩
    let s := (Store.new MemoryRepository.empty 5000).revise "ann" j
    let kept := Write.persist { Circumstances.calm first with saveFault := some .hang } "ann"
    let stays := Write.evict { Circumstances.calm second with saveFault := some .hang } "ANN"
    let leaves := Write.evict (.calm third) "Ann"
    s.AllFail [kept, stays]
      ∧ (s.attempt kept).result = .error (.timeout 5000) ∧ (s.attempt kept).store ≠ s
      ∧ (s.attempts [kept, stays]).slot? "ann" = some (.loaded (j.touch second) true)
      ∧ (s.attempts [kept, stays]).repository = .empty
      ∧ ((s.attempts [kept, stays]).attempt leaves).result = .ok true
      ∧ ((s.attempts [kept, stays]).attempt leaves).accesses = [.save (j.touch third) true] := by
  intro j first second third s kept stays leaves
  have hkept : (s.attempt kept).result = .error (.timeout 5000) := by decide +kernel
  have hfailed : s.AllFail [kept, stays] :=
    ⟨⟨_, hkept⟩, ⟨.timeout 5000, by decide +kernel⟩, trivial⟩
  have hslot : s.slot? "ann" = some (.loaded j true) := by decide +kernel
  have hstamp : Write.lastStamp? (playerKey "ann") [kept, stays] = some second := by
    decide +kernel
  have hresult : (s.attempt leaves).result = .ok true := by decide +kernel
  have haccesses : (s.attempt leaves).accesses = [.save (j.touch third) true] := by decide +kernel
  obtain ⟨hstamps, -, hagrees⟩ := failed_writes_restamp s [kept, stays] hfailed leaves
  obtain ⟨-, hone, -⟩ := failed_writes_restamp s [] trivial kept
  refine ⟨hfailed, hkept, ?_, ?_, hstamps.repository, hagrees.result.trans hresult,
    hagrees.accesses.trans haccesses⟩
  · obtain ⟨i, dirty, hi, -, hsame⟩ := hone _ hkept
    cases hslot.symm.trans hi
    rw [ne_eq, hsame]
    decide +kernel
  · rw [hstamps.slot, hslot, hstamp]
    rfl

/-- After a `persist` and an `evict` that fail, an answer shows the journal as if it had been
written then; after the `persist` it is clean and is not the stored one. -/
theorem failed_write_shown :
    let j := Journal.empty "ann" .epoch
    let i := { j with completed := [⟨"rats", .epoch, 1⟩] }
    let later : Instant := ⟨1, 0, 0, by decide, by decide, by decide, by decide⟩
    let c := { Circumstances.calm later with saveFault := some (.unavailable "saves disabled") }
    let s := ((Store.new (MemoryRepository.ofJournals [j]) 5000).fetch c "ann").store
    let t := s.revise "ann" i
    s.slot? "ann" = some (.loaded j false)
      ∧ (s.persist c "ann").result = .error (.unavailable "saves disabled")
      ∧ (s.persist c "ann").store.slot? "ann" = some (.loaded (j.touch later) false)
      ∧ (s.persist c "ann").store.repository.stored? "ann" = some j
      ∧ j.touch later ≠ j
      ∧ t.slot? "ann" = some (.loaded i true)
      ∧ (t.evict c "ann").result = .error (.unavailable "saves disabled")
      ∧ (t.evict c "ann").store.slot? "ann" = some (.loaded (i.touch later) true)
      ∧ i.touch later ≠ i := by
  decide +kernel

end Questline
