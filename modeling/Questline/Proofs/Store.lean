import Questline.Engine
import Questline.Proofs.QuestLog

/-!
# The store, player by player

Everything the store and its repository hold of one player is a `Place`: a slot in use, if any, and
a stored record, if any. `Store.fetch`, `Store.persist` and `Store.evict` change one place each and
leave the others as they are, so that their specifications are stated place by place.

A place is *sound* (`Place.Sound`) when the names on its journals are names of the player
it belongs to, and when a journal in use that counts as written is the stored one. The
quest log of a place is the one that the next access finds. It survives every fault: a
failed load leaves the place without a journal in use, where there was none before; a
failed write leaves the journal in use; and only a clean slot is released.
-/

namespace Questline

/-! ## Tables of journals -/

/-- A repository that is a table of journals, each under the lower-cased name it bears. -/
class TableRepository (ρ : Type) [Repository ρ] where
  records : ρ → Dict Journal
  find_eq (r : ρ) (username : String) :
    Repository.find r username = .ok ((records r).get? (playerKey username))
  records_save (r : ρ) (j : Journal) :
    records (Repository.save r j) = (records r).insert (playerKey j.username) j

instance : TableRepository MemoryRepository where
  records := MemoryRepository.records
  find_eq _ _ := rfl
  records_save _ _ := rfl

/-- Every journal of a table stands under the lower-cased name it bears. -/
def Keyed (records : Dict Journal) : Prop :=
  ∀ key j, records.get? key = some j → playerKey j.username = key

theorem keyed_empty : Keyed ∅ := fun _ _ h => by cases h

theorem Keyed.insert {records : Dict Journal} (h : Keyed records) (j : Journal) :
    Keyed (records.insert (playerKey j.username) j) := by
  intro key i hi
  rw [Dict.get?_insert] at hi
  by_cases hkey : playerKey j.username = key
  · rw [if_pos hkey] at hi
    cases hi
    exact hkey
  · rw [if_neg hkey] at hi
    exact h key i hi

/-- A repository that was only ever written to is keyed. -/
theorem keyed_ofJournals (js : List Journal) :
    Keyed (TableRepository.records (MemoryRepository.ofJournals js)) := by
  have hkeep : ∀ (js : List Journal) (r : MemoryRepository), Keyed r.records →
      Keyed (js.foldl MemoryRepository.keep r).records := by
    intro js
    induction js with
    | nil => exact fun _ h => h
    | cons j js ih => exact fun r h => ih _ (h.insert j)
  exact hkeep js _ keyed_empty

/-! ## Places -/

/-- What the store and its repository hold of one player. -/
structure Place where
  slot : Option Slot
  record : Option Journal

namespace Place

/-- The journal that the next access finds, if there is one. -/
def kept? (p : Place) : Option Journal :=
  match p.slot with
  | some (.loaded j _) => some j
  | _ => p.record

/-- The quest log that the next access finds. -/
def log (p : Place) : QuestLog := (p.kept?.map Journal.log).getD .blank

@[simp] theorem kept?_loaded (j : Journal) (dirty : Bool) (record : Option Journal) :
    (Place.mk (some (.loaded j dirty)) record).kept? = some j := rfl

@[simp] theorem kept?_unloaded (record : Option Journal) :
    (Place.mk (some .unloaded) record).kept? = record := rfl

@[simp] theorem kept?_none (record : Option Journal) : (Place.mk none record).kept? = record :=
  rfl

@[simp] theorem log_loaded (j : Journal) (dirty : Bool) (record : Option Journal) :
    (Place.mk (some (.loaded j dirty)) record).log = j.log := rfl

theorem kept?_of_not_loaded {p : Place} (h : ∀ j dirty, p.slot ≠ some (.loaded j dirty)) :
    p.kept? = p.record := by
  obtain ⟨slot, record⟩ := p
  rcases slot with _ | _ | ⟨j, dirty⟩
  · rfl
  · rfl
  · exact absurd rfl (h j dirty)

theorem kept?_of_loaded {p : Place} {j : Journal} {dirty : Bool}
    (h : p.slot = some (.loaded j dirty)) : p.kept? = some j := by
  simp only [kept?, h]

theorem log_of_loaded {p : Place} {j : Journal} {dirty : Bool}
    (h : p.slot = some (.loaded j dirty)) : p.log = j.log := by
  rw [log, kept?_of_loaded h]
  rfl

theorem record_eq_none_of_kept? {p : Place} (h : p.kept? = none) : p.record = none := by
  obtain ⟨slot, record⟩ := p
  rcases slot with _ | _ | ⟨j, dirty⟩
  · exact h
  · exact h
  · cases h

/-- The journals of a place belong to its player, the one in use bears the name of the
stored one, and it is the stored one if it counts as written. Before a player is first
stored, only an empty journal counts as written. -/
structure Sound (key : String) (p : Place) : Prop where
  record_keyed : ∀ r, p.record = some r → playerKey r.username = key
  slot_keyed : ∀ j dirty, p.slot = some (.loaded j dirty) → playerKey j.username = key
  named : ∀ j dirty r, p.slot = some (.loaded j dirty) → p.record = some r →
    j.username = r.username
  clean : ∀ j, p.slot = some (.loaded j false) →
    p.record = some j ∨ p.record = none ∧ j.log = .blank

/-- Without a journal in use, soundness is about the record only. -/
theorem sound_of_not_loaded {key : String} {p : Place}
    (hslot : ∀ j dirty, p.slot ≠ some (.loaded j dirty))
    (hrecord : ∀ r, p.record = some r → playerKey r.username = key) : p.Sound key where
  record_keyed := hrecord
  slot_keyed j dirty h := absurd h (hslot j dirty)
  named j dirty _ h := absurd h (hslot j dirty)
  clean j h := absurd h (hslot j false)

namespace Sound

variable {key : String} {p : Place}

theorem kept_keyed (h : p.Sound key) {j : Journal} (hj : p.kept? = some j) :
    playerKey j.username = key := by
  obtain ⟨slot, record⟩ := p
  rcases slot with _ | _ | ⟨i, dirty⟩
  · exact h.record_keyed j hj
  · exact h.record_keyed j hj
  · cases hj
    exact h.slot_keyed j dirty rfl

theorem kept_named (h : p.Sound key) {j r : Journal} (hj : p.kept? = some j)
    (hr : p.record = some r) : j.username = r.username := by
  obtain ⟨slot, record⟩ := p
  rcases slot with _ | _ | ⟨i, dirty⟩
  · exact congrArg Journal.username (Option.some.inj (hj.symm.trans hr))
  · exact congrArg Journal.username (Option.some.inj (hj.symm.trans hr))
  · cases hj
    exact h.named j dirty r rfl hr

/-- A changed journal under its name makes a sound place if it is dirty. -/
theorem revised (h : p.Sound key) {j : Journal} (hkey : playerKey j.username = key)
    (hnamed : ∀ r, p.record = some r → j.username = r.username) :
    (Place.mk (some (.loaded j true)) p.record).Sound key where
  record_keyed := h.record_keyed
  slot_keyed i dirty hi := by cases hi; exact hkey
  named i dirty r hi hr := by cases hi; exact hnamed r hr
  clean i hi := by cases hi

/-- A journal that was just written makes a sound place. -/
theorem written {j : Journal} (hkey : playerKey j.username = key) :
    (Place.mk (some (.loaded j false)) (some j)).Sound key where
  record_keyed r hr := by cases hr; exact hkey
  slot_keyed i dirty hi := by cases hi; exact hkey
  named i dirty r hi hr := by cases hi; cases hr; rfl
  clean i hi := by cases hi; exact Or.inl rfl

/-- A journal that was just loaded makes a sound place: the stored one, or an empty one
if none was stored. -/
theorem loaded (h : p.Sound key) {username : String} (hkey : playerKey username = key)
    (now : Instant) :
    (Place.mk (some (.loaded (p.record.getD (Journal.empty username now)) false))
      p.record).Sound key where
  record_keyed := h.record_keyed
  slot_keyed i dirty hi := by
    cases hi
    cases hr : p.record with
    | none => exact hkey
    | some r => exact h.record_keyed r hr
  named i dirty r hi hr := by
    cases hi
    rw [show p.record = some r from hr]
    rfl
  clean i hi := by
    cases hi
    cases hr : p.record with
    | none => exact Or.inr ⟨rfl, rfl⟩
    | some r => exact Or.inl rfl

/-- Releasing a slot that is not dirty keeps the quest log. -/
theorem log_released (h : p.Sound key) {j : Journal} (hj : p.slot = some (.loaded j false)) :
    (Place.mk none p.record).log = p.log := by
  rw [log_of_loaded hj]
  rcases h.clean j hj with hr | ⟨hr, hblank⟩
  · rw [hr]; rfl
  · rw [hr, hblank]; rfl

end Sound

end Place

/-! ## The places of a store -/

namespace Store

variable {ρ : Type} [Repository ρ] [TableRepository ρ]

/-- The stored journals. -/
def records (s : Store ρ) : Dict Journal := TableRepository.records s.repository

/-- The place of the player of a lower-cased name. -/
def place (s : Store ρ) (key : String) : Place := ⟨s.slots.get? key, s.records.get? key⟩

/-- Every place is sound. -/
def Sound (s : Store ρ) : Prop := ∀ key, (s.place key).Sound key

/-- The journal that a successful access finds. -/
def opened (s : Store ρ) (c : Circumstances) (username : String) : Journal :=
  (s.place (playerKey username)).kept?.getD (Journal.empty username c.openedAt)

theorem place_setSlot (s : Store ρ) (username : String) (slot : Slot) (key : String) :
    (s.setSlot username slot).place key
      = if playerKey username = key then ⟨some slot, (s.place key).record⟩ else s.place key := by
  simp only [place, setSlot, Dict.get?_insert]
  by_cases h : playerKey username = key <;> simp [h, records]

theorem place_revise (s : Store ρ) (username : String) (j : Journal) (key : String) :
    (s.revise username j).place key
      = if playerKey username = key then ⟨some (.loaded j true), (s.place key).record⟩
        else s.place key :=
  s.place_setSlot username (.loaded j true) key

theorem place_release (s : Store ρ) (username : String) (key : String) :
    (s.release username).place key
      = if playerKey username = key then ⟨none, (s.place key).record⟩ else s.place key := by
  simp only [place, release, Dict.get?_erase]
  by_cases h : playerKey username = key <;> simp [h, records]

theorem place_save (s : Store ρ) (j : Journal) (key : String) :
    ({ s with repository := Repository.save s.repository j } : Store ρ).place key
      = if playerKey j.username = key then ⟨(s.place key).slot, some j⟩ else s.place key := by
  simp only [place, records, TableRepository.records_save, Dict.get?_insert]
  by_cases h : playerKey j.username = key <;> simp [h]

theorem sound_new {r : ρ} (h : Keyed (TableRepository.records r)) (limit : Nat) :
    (Store.new r limit).Sound := fun key =>
  Place.sound_of_not_loaded (fun _ _ hslot => by cases hslot) (h key)

theorem log_opened (s : Store ρ) (c : Circumstances) (username : String) :
    (s.opened c username).log = (s.place (playerKey username)).log := by
  unfold opened Place.log
  cases (s.place (playerKey username)).kept? <;> rfl

theorem Sound.opened_keyed {s : Store ρ} (hs : s.Sound) (c : Circumstances) (username : String) :
    playerKey (s.opened c username).username = playerKey username := by
  unfold opened
  cases h : (s.place (playerKey username)).kept? with
  | none => rfl
  | some j => exact (hs _).kept_keyed h

theorem Sound.opened_named {s : Store ρ} (hs : s.Sound) (c : Circumstances) {username : String}
    {r : Journal} (hr : (s.place (playerKey username)).record = some r) :
    (s.opened c username).username = r.username := by
  unfold opened
  cases h : (s.place (playerKey username)).kept? with
  | none =>
      rw [Place.record_eq_none_of_kept? h] at hr
      cases hr
  | some j => exact (hs _).kept_named h hr

/-- A change of one place keeps a store sound if it leaves that place sound. -/
theorem Sound.of_place {s s' : Store ρ} (hs : s.Sound) {key : String}
    (hframe : ∀ k, key ≠ k → s'.place k = s.place k) (hplace : (s'.place key).Sound key) :
    s'.Sound := by
  intro k
  by_cases hk : key = k
  · exact hk ▸ hplace
  · rw [hframe k hk]
    exact hs k

theorem slot_of_journal? {s : Store ρ} {username : String} {j : Journal}
    (h : s.journal? username = some j) :
    ∃ dirty, (s.place (playerKey username)).slot = some (.loaded j dirty) := by
  unfold journal? at h
  split at h
  · rename_i i dirty hslot
    cases h
    exact ⟨dirty, hslot⟩
  · cases h

theorem journal?_of_slot {s : Store ρ} {username : String} {j : Journal} {dirty : Bool}
    (h : (s.place (playerKey username)).slot = some (.loaded j dirty)) :
    s.journal? username = some j := by
  unfold journal?
  rw [show s.slot? username = some (.loaded j dirty) from h]

theorem slot_ne_of_journal? {s : Store ρ} {username : String} (h : s.journal? username = none)
    (j : Journal) (dirty : Bool) :
    (s.place (playerKey username)).slot ≠ some (.loaded j dirty) := by
  intro hslot
  unfold journal? at h
  split at h
  · cases h
  · rename_i hne
    exact hne j dirty hslot

theorem opened_of_slot {s : Store ρ} (c : Circumstances) {username : String} {j : Journal}
    {dirty : Bool} (h : (s.place (playerKey username)).slot = some (.loaded j dirty)) :
    s.opened c username = j := by
  rw [opened, Place.kept?_of_loaded h]
  rfl

/-- Where no journal is in use, the stored one is found, or an empty one. -/
theorem opened_of_record {s : Store ρ} (c : Circumstances) {username : String}
    (h : s.journal? username = none) :
    s.opened c username
      = (s.place (playerKey username)).record.getD (Journal.empty username c.openedAt) := by
  unfold opened
  rw [Place.kept?_of_not_loaded (slot_ne_of_journal? h)]

omit [Repository ρ] [TableRepository ρ] in
theorem slot?_release (s : Store ρ) (username : String) :
    (s.release username).slot? username = none := by
  simp only [slot?, release, Dict.get?_erase, if_true]

omit [TableRepository ρ] in
/-- A journal in use that cannot be saved stays in use, under the stamp of the attempt. -/
theorem persist_refused {s : Store ρ} {c : Circumstances} {username : String} {j : Journal}
    {dirty : Bool} {fault : Fault} (hslot : s.slot? username = some (.loaded j dirty))
    (hfault : c.saveFault = some fault) :
    s.persist c username = ⟨s.setSlot username (.loaded (j.touch c.savedAt) dirty),
      [.save (j.touch c.savedAt) false], .error (fault.error s.limit)⟩ := by
  simp only [persist, hslot, Repository.write, hfault]

omit [TableRepository ρ] in
/-- A journal in use that can be saved is stored under its stamp and counts as written. -/
theorem persist_stored {s : Store ρ} {c : Circumstances} {username : String} {j : Journal}
    {dirty : Bool} (hslot : s.slot? username = some (.loaded j dirty))
    (hfault : c.saveFault = none) :
    s.persist c username
      = ⟨({ s with repository := Repository.save s.repository (j.touch c.savedAt) } :
            Store ρ).setSlot username (.loaded (j.touch c.savedAt) false),
          [.save (j.touch c.savedAt) true], .ok ()⟩ := by
  simp only [persist, hslot, Repository.write, hfault]

omit [TableRepository ρ] in
/-- The cases of `Store.evict`, by the slot of the player and by whether saving fails. -/
inductive Evicted (s : Store ρ) (c : Circumstances) (username : String) : Visit ρ Bool → Prop
  | absent (hslot : s.slot? username = none) : Evicted s c username ⟨s, [], .ok false⟩
  | unloaded (hslot : s.slot? username = some .unloaded) :
      Evicted s c username ⟨s.release username, [], .ok true⟩
  | clean (j : Journal) (hslot : s.slot? username = some (.loaded j false)) :
      Evicted s c username ⟨s.release username, [], .ok true⟩
  | refused (j : Journal) (fault : Fault) (hslot : s.slot? username = some (.loaded j true))
      (hfault : c.saveFault = some fault) :
      Evicted s c username ⟨s.setSlot username (.loaded (j.touch c.savedAt) true),
        [.save (j.touch c.savedAt) false], .error (fault.error s.limit)⟩
  | stored (j : Journal) (s' : Store ρ) (hslot : s.slot? username = some (.loaded j true))
      (hfault : c.saveFault = none)
      (hpersist : s.persist c username = ⟨s', [.save (j.touch c.savedAt) true], .ok ()⟩) :
      Evicted s c username ⟨s'.release username, [.save (j.touch c.savedAt) true], .ok true⟩

omit [TableRepository ρ] in
/-- **Inversion of `Store.evict`.** -/
theorem evicted (s : Store ρ) (c : Circumstances) (username : String) :
    s.Evicted c username (s.evict c username) := by
  cases hslot : s.slot? username with
  | none =>
      simp only [evict, hslot]
      exact .absent hslot
  | some slot =>
      rcases slot with _ | ⟨j, _ | _⟩
      · simp only [evict, hslot]
        exact .unloaded hslot
      · simp only [evict, hslot]
        exact .clean j hslot
      · cases hfault : c.saveFault with
        | some fault =>
            simp only [evict, hslot, persist_refused hslot hfault]
            exact .refused j fault hslot hfault
        | none =>
            simp only [evict, hslot, persist_stored hslot hfault]
            exact .stored j _ hslot hfault (persist_stored hslot hfault)

end Store

end Questline
