import Questline.Proofs.Course

/-!
# Journals in use and records

Beside the journal in use, a place can hold an older record: the one that was stored last. A record
is changed by the write of the journal in use only, so after a turn it is the record before or the
journal that the next access finds (`Engine.take_record`). Hence what holds of the quest logs in use
at every moment of a run holds of the records as well, and `Engine.take_all` takes a property of
both over a turn.
-/

namespace Questline

/-- A property of the quest logs at a place: of the one that the next access finds, and of
the stored one. -/
structure Place.All (P : QuestLog → Prop) (p : Place) : Prop where
  log : P p.log
  record : ∀ r, p.record = some r → P r.log

theorem Place.All.mono {P P' : QuestLog → Prop} {p : Place} (h : p.All P)
    (hmono : ∀ l, P l → P' l) : p.All P' :=
  ⟨hmono _ h.log, fun r hr => hmono _ (h.record r hr)⟩

variable {ρ : Type} [Repository ρ] [TableRepository ρ]

namespace Store

/-- A journal that is held for the player of a lower-cased name, in use or as a record. -/
def Holds (s : Store ρ) (key : String) (j : Journal) : Prop :=
  (∃ dirty, s.slots.get? key = some (.loaded j dirty)) ∨ s.records.get? key = some j

theorem all_of_holds {P : QuestLog → Prop} {s : Store ρ} {key : String} {j : Journal}
    (h : (s.place key).All P) (hj : s.Holds key j) : P j.log := by
  rcases hj with ⟨dirty, hslot⟩ | hrecord
  · have hplace : s.place key = ⟨some (.loaded j dirty), (s.place key).record⟩ := by
      rw [← hslot]
      rfl
    have hlog := h.log
    rw [hplace] at hlog
    exact hlog
  · exact h.record j hrecord

/-! ## Records after an operation -/

theorem record_setSlot (s : Store ρ) (username : String) (slot : Slot) (key : String) :
    ((s.setSlot username slot).place key).record = (s.place key).record := by
  rw [place_setSlot]
  split <;> rfl

theorem record_release (s : Store ρ) (username key : String) :
    ((s.release username).place key).record = (s.place key).record := by
  rw [place_release]
  split <;> rfl

theorem Fetched.record {s s' : Store ρ} {c : Circumstances} {username : String}
    (h : s.Fetched c username s') (key : String) :
    (s'.place key).record = (s.place key).record := by
  by_cases hkey : playerKey username = key
  · subst hkey
    obtain ⟨dirty, hplace⟩ := h.place
    rw [hplace]
  · rw [h.frame key hkey]

/-- A write stores the journal in use or changes no record. -/
theorem record_persist (s : Store ρ) (c : Circumstances) {username : String} {j : Journal}
    {dirty : Bool} (hslot : (s.place (playerKey username)).slot = some (.loaded j dirty))
    (hkey : playerKey j.username = playerKey username) (key : String) :
    let s' := (s.persist c username).store
    (s'.place key).record = (s.place key).record
      ∨ (s'.place key).record = (s'.place key).kept? := by
  rcases s.persist_cases c hslot hkey with
    ⟨fault, -, hpersist⟩ | ⟨s', hpersist, -, hwritten, hframe⟩
  · simp only [hpersist]
    exact Or.inl (s.record_setSlot ..)
  · simp only [hpersist]
    by_cases hne : playerKey username = key
    · subst hne
      right
      rw [hwritten]
      rfl
    · left
      rw [hframe key hne]

theorem record_evict {s : Store ρ} (hs : s.Sound) (c : Circumstances) (username key : String) :
    let s' := (s.evict c username).store
    (s'.place key).record = (s.place key).record
      ∨ (s'.place key).record = (s'.place key).kept? := by
  have hevicted := s.evicted c username
  generalize s.evict c username = v at hevicted ⊢
  cases hevicted with
  | absent => exact Or.inl rfl
  | unloaded | clean => exact Or.inl (s.record_release ..)
  | refused => exact Or.inl (s.record_setSlot ..)
  | stored j s' hslot _ hpersist =>
      obtain ⟨-, hplace, hframe⟩ := place_persisted hs hslot hpersist
      by_cases hkey : playerKey username = key
      · subst hkey
        exact Or.inr (by rw [place_release, if_pos rfl, hplace]; rfl)
      · exact Or.inl (by rw [place_release, if_neg hkey, hframe key hkey])

end Store

namespace Engine

/-- After an operation, a record is the one before or the journal that the next access finds. -/
theorem run_record {e : Engine ρ} (hs : e.store.Sound) (c : Circumstances) (op : Operation)
    (key : String) :
    let s := (e.run c op).engine.store
    (s.place key).record = (e.store.place key).record
      ∨ (s.place key).record = (s.place key).kept? := by
  cases hplan : op.plan e.catalog c.now with
  | settled answer =>
      simp only [run, hplan, true_or]
  | evict username =>
      simp only [run, hplan]
      exact Store.record_evict hs c username key
  | consult username rule =>
      simp only [run, hplan, consult]
      rcases e.store.fetch_cases c username with
        ⟨fault, -, -, hfetch⟩ | ⟨s, accesses, hfetch, hs', -, -⟩
      · simp only [hfetch]
        exact Or.inl (e.store.record_setSlot ..)
      · have hrevised : ∀ j, ((s.revise username j).place key).record
            = (e.store.place key).record := fun j =>
          (s.record_setSlot ..).trans (hs'.record key)
        cases hrule : rule (e.store.opened c username) with
        | look answer =>
            simp only [hfetch, hrule]
            exact Or.inl (hs'.record key)
        | handle j answer =>
            simp only [hfetch, hrule]
            exact Or.inl (hrevised j)
        | commit j news answer =>
            -- a commit is the only ruling that is written
            have hname := Operation.username_plan hplan (e.store.opened c username)
            rw [hrule] at hname
            have hslot : ((s.revise username j).place (playerKey username)).slot
                = some (.loaded j true) := by rw [Store.place_revise, if_pos rfl]
            have hwrite := (s.revise username j).record_persist c hslot
              (hname ▸ hs.opened_keyed c username) key
            simp only [hfetch, hrule]
            rw [hrevised] at hwrite
            exact hwrite

theorem take_record {e : Engine ρ} (hs : e.store.Sound) (t : Turn) (key : String) :
    let s := (e.take t).engine.store
    (s.place key).record = (e.store.place key).record
      ∨ (s.place key).record = (s.place key).kept? := by
  cases t with
  | perform c op => exact run_record hs c op key
  | reload catalog => exact Or.inl rfl

/-- If a property holds of all quest logs of a place before a turn, and of the one that the next
access finds after it, it holds of all after it. -/
theorem take_all_of_log {P P' : QuestLog → Prop} {e : Engine ρ} (hs : e.store.Sound) (t : Turn)
    {key : String} (h : (e.store.place key).All P) (hmono : ∀ l, P l → P' l)
    (hlog : P' ((e.take t).engine.store.place key).log) :
    ((e.take t).engine.store.place key).All P' := by
  refine ⟨hlog, fun r hr => ?_⟩
  rcases take_record hs t key with hsame | hkept
  · exact hmono _ (h.record r (hsame.symm.trans hr))
  · have hr' : r.log = ((e.take t).engine.store.place key).log := by
      unfold Place.log
      rw [← hkept, hr]
      rfl
    rw [hr']
    exact hlog

/-- A property of quest logs that every rule preserves is preserved at every place. -/
theorem take_all {P P' : QuestLog → Prop} {e : Engine ρ} (hs : e.store.Sound) (t : Turn)
    {key : String} (h : (e.store.place key).All P) (hmono : ∀ l, P l → P' l)
    (hrule : ∀ c op username rule j, t = .perform c op →
      op.plan e.catalog c.now = .consult username rule → playerKey username = key →
      j.log = (e.store.place key).log → (e.take t).news = (rule j).news →
      P' ((rule j).journal j).log) :
    ((e.take t).engine.store.place key).All P' := by
  refine take_all_of_log hs t h hmono ?_
  rcases take_cases hs t key with ⟨hsame, -⟩
    | ⟨c, op, username, rule, j, ht, hplan, hkey, -, hj, hafter, hnews⟩
  · rw [hsame]
    exact hmono _ h.log
  · rw [hafter]
    exact hrule c op username rule j ht hplan hkey hj hnews

/-- Over an empty repository, all places of a new engine have the blank quest log. -/
theorem all_new {P : QuestLog → Prop} (hblank : P .blank) (catalog : Catalog) {repository : ρ}
    (hempty : TableRepository.records repository = ∅) (limit : Nat) (key : String) :
    ((new catalog repository limit).store.place key).All P where
  log := by
    rw [log_new hempty]
    exact hblank
  record r hr := by
    have hnone : (TableRepository.records repository).get? key = some r := hr
    rw [hempty] at hnone
    cases hnone

end Engine

end Questline
