import Questline.Proofs.Store

/-!
# Runs of the engine

A run is a list of turns: an operation in its circumstances, or another catalog put in
place. The circumstances of each operation say whether its access to the storage works,
so a run is also a pattern of faults.

What one operation does is said once, by `Engine.run_cases`: either it is *quiet*, leaving
every quest log as it was and publishing nothing, or it applies its rule to the quest log
that it finds, publishes the news of that ruling, and leaves every other place as it was,
whether or not the write succeeded. Every property of runs below is an induction over
turns that uses nothing else.
-/

namespace Questline

namespace Access

def isFailedLoad : Access → Bool
  | load _ succeeded => !succeeded
  | save _ _ => false

def isFailedSave : Access → Bool
  | load _ _ => false
  | save _ succeeded => !succeeded

end Access

namespace Outcome

variable {ρ : Type}

/-- Whether a journal was asked for and not loaded. -/
def loadFailed (o : Outcome ρ) : Bool := o.accesses.any Access.isFailedLoad

/-- Whether a journal was to be written and was not. -/
def saveFailed (o : Outcome ρ) : Bool := o.accesses.any Access.isFailedSave

end Outcome

variable {ρ : Type} [Repository ρ] [TableRepository ρ]

/-! ## Fetching and writing one journal -/

namespace Store

/-- The store after a successful access: the journal found is in use. -/
structure Fetched (s : Store ρ) (c : Circumstances) (username : String) (s' : Store ρ) :
    Prop where
  limit : s'.limit = s.limit
  place : ∃ dirty, s'.place (playerKey username)
    = ⟨some (.loaded (s.opened c username) dirty), (s.place (playerKey username)).record⟩
  frame : ∀ key, playerKey username ≠ key → s'.place key = s.place key
  sound : s.Sound → s'.Sound

/-- An access fails if no journal is in use and loading does, and else it finds one. -/
theorem fetch_cases (s : Store ρ) (c : Circumstances) (username : String) :
    (∃ fault, c.loadFault = some fault ∧ s.journal? username = none
      ∧ s.fetch c username = ⟨s.setSlot username .unloaded, [.load username false],
          .error (fault.error s.limit)⟩)
    ∨ ∃ s' accesses, s.fetch c username = ⟨s', accesses, .ok (s.opened c username)⟩
      ∧ s.Fetched c username s' ∧ accesses.any Access.isFailedLoad = false
      ∧ accesses.any Access.isFailedSave = false := by
  cases hj : s.journal? username with
  | some j =>
      obtain ⟨dirty, hslot⟩ := slot_of_journal? hj
      have hopened : s.opened c username = j := opened_of_slot c hslot
      refine Or.inr ⟨s, [], ?_, ⟨rfl, ⟨dirty, ?_⟩, fun _ _ => rfl, id⟩, rfl, rfl⟩
      · simp only [fetch, hj, hopened]
      · rw [hopened, ← hslot]
  | none =>
      cases hfault : c.loadFault with
      | some fault =>
          refine Or.inl ⟨fault, rfl, rfl, ?_⟩
          simp only [fetch, hj, Repository.load, hfault]
      | none =>
          have hload : Repository.load s.repository s.limit c username
              = .ok (s.opened c username) := by
            rw [opened_of_record c hj]
            simp only [Repository.load, hfault, TableRepository.find_eq]
            rfl
          have hframe : ∀ key, playerKey username ≠ key →
              (s.setSlot username (.loaded (s.opened c username) false)).place key
                = s.place key := fun key hkey => by rw [place_setSlot, if_neg hkey]
          have hplace : (s.setSlot username (.loaded (s.opened c username) false)).place
                (playerKey username)
              = ⟨some (.loaded (s.opened c username) false),
                  (s.place (playerKey username)).record⟩ := by rw [place_setSlot, if_pos rfl]
          refine Or.inr ⟨s.setSlot username (.loaded (s.opened c username) false),
            [.load username true], ?_,
            ⟨rfl, ⟨false, hplace⟩, hframe, fun hs => hs.of_place hframe ?_⟩, rfl, rfl⟩
          · simp only [fetch, hj, hload]
          · rw [hplace, opened_of_record c hj]
            exact (hs _).loaded rfl c.openedAt

/-- Writing the journal in use stores it under its stamp, or leaves it in use. -/
theorem persist_cases (s : Store ρ) (c : Circumstances) {username : String} {j : Journal}
    {dirty : Bool} (hslot : (s.place (playerKey username)).slot = some (.loaded j dirty))
    (hkey : playerKey j.username = playerKey username) :
    (∃ fault, c.saveFault = some fault
      ∧ s.persist c username = ⟨s.setSlot username (.loaded (j.touch c.savedAt) dirty),
          [.save (j.touch c.savedAt) false], .error (fault.error s.limit)⟩)
    ∨ ∃ s', s.persist c username = ⟨s', [.save (j.touch c.savedAt) true], .ok ()⟩
      ∧ s'.limit = s.limit
      ∧ s'.place (playerKey username)
        = ⟨some (.loaded (j.touch c.savedAt) false), some (j.touch c.savedAt)⟩
      ∧ ∀ key, playerKey username ≠ key → s'.place key = s.place key := by
  have hslot' : s.slot? username = some (.loaded j dirty) := hslot
  cases hfault : c.saveFault with
  | some fault => exact Or.inl ⟨fault, rfl, persist_refused hslot' hfault⟩
  | none =>
      have hkey' : playerKey (j.touch c.savedAt).username = playerKey username := hkey
      refine Or.inr ⟨_, persist_stored hslot' hfault, by rfl, ?_, fun key hne => ?_⟩
      · rw [place_setSlot, if_pos rfl, place_save, if_pos hkey']
      · rw [place_setSlot, if_neg hne, place_save, if_neg (hkey' ▸ hne)]

/-- A write that succeeds changes the place of its player only. -/
theorem place_persisted {s s' : Store ρ} (hs : s.Sound) {c : Circumstances} {username : String}
    {j : Journal} {dirty : Bool} {accesses : List Access}
    (hslot : s.slot? username = some (.loaded j dirty))
    (hpersist : s.persist c username = ⟨s', accesses, .ok ()⟩) :
    s'.limit = s.limit
      ∧ s'.place (playerKey username)
        = ⟨some (.loaded (j.touch c.savedAt) false), some (j.touch c.savedAt)⟩
      ∧ ∀ key, playerKey username ≠ key → s'.place key = s.place key := by
  rcases s.persist_cases c hslot ((hs _).slot_keyed j dirty hslot) with
    ⟨fault, -, hfailed⟩ | ⟨s'', hwritten, hplaces⟩
  · cases hpersist.symm.trans hfailed
  · cases hpersist.symm.trans hwritten
    exact hplaces

/-- Letting a player go leaves the places of the others as they are. -/
theorem place_evict {s : Store ρ} (hs : s.Sound) (c : Circumstances) {username key : String}
    (hkey : playerKey username ≠ key) : (s.evict c username).store.place key = s.place key := by
  have hevicted := s.evicted c username
  generalize s.evict c username = v at hevicted ⊢
  cases hevicted with
  | absent => rfl
  | unloaded | clean => rw [place_release, if_neg hkey]
  | refused => rw [place_setSlot, if_neg hkey]
  | stored j s' hslot _ hpersist =>
      obtain ⟨-, -, hframe⟩ := place_persisted hs hslot hpersist
      rw [place_release, if_neg hkey, hframe key hkey]

end Store

/-! ## One operation -/

namespace Engine

/-- The outcome of an operation that changed no quest log and published nothing. -/
structure Quiet (e : Engine ρ) (o : Outcome ρ) : Prop where
  limit : o.engine.store.limit = e.store.limit
  news : o.news = []
  sound : o.engine.store.Sound
  log : ∀ key, (o.engine.store.place key).log = (e.store.place key).log
  recorded : ∀ key x, (e.store.place key).record = some x →
    ∃ y, (o.engine.store.place key).record = some y ∧ y.username = x.username

/-- The outcome of an operation that carried out the ruling `r` on the journal that it found for a
player. A failed write shows in the answer only. -/
structure Consulted (e : Engine ρ) (c : Circumstances) (username : String) (r : Ruling Answer)
    (o : Outcome ρ) : Prop where
  catalog : o.engine.catalog = e.catalog
  limit : o.engine.store.limit = e.store.limit
  loaded : o.loadFailed = false
  news : o.news = r.news
  answer : o.saveFailed = false ∧ o.answer = r.answer.mapError .refused
    ∨ o.saveFailed = true ∧ ∃ fault, c.saveFault = some fault
      ∧ o.answer = .error (.storage (fault.error e.store.limit))
  sound : o.engine.store.Sound
  frame : ∀ key, playerKey username ≠ key → o.engine.store.place key = e.store.place key
  kept : ∃ i, (o.engine.store.place (playerKey username)).kept? = some i
    ∧ i.log = (r.journal (e.store.opened c username)).log
    ∧ i.username = (e.store.opened c username).username
  recorded : ∀ x, (e.store.place (playerKey username)).record = some x →
    ∃ y, (o.engine.store.place (playerKey username)).record = some y ∧ y.username = x.username

/-- The quest log of a player after a ruling is the one that the ruling says. -/
theorem Consulted.log {e : Engine ρ} {c : Circumstances} {username : String}
    {r : Ruling Answer} {o : Outcome ρ} (h : e.Consulted c username r o) :
    (o.engine.store.place (playerKey username)).log
      = (r.journal (e.store.opened c username)).log := by
  obtain ⟨i, hi, hlog, -⟩ := h.kept
  rw [← hlog, Place.log, hi]
  rfl

theorem Quiet.of_frame {e : Engine ρ} (hs : e.store.Sound) {o : Outcome ρ} (key : String)
    (hlimit : o.engine.store.limit = e.store.limit) (hnews : o.news = [])
    (hframe : ∀ k, key ≠ k → o.engine.store.place k = e.store.place k)
    (hsound : (o.engine.store.place key).Sound key)
    (hlog : (o.engine.store.place key).log = (e.store.place key).log)
    (hrecorded : ∀ x, (e.store.place key).record = some x →
      ∃ y, (o.engine.store.place key).record = some y ∧ y.username = x.username) :
    e.Quiet o where
  limit := hlimit
  news := hnews
  sound := hs.of_place hframe hsound
  log k := by
    by_cases hk : key = k
    · exact hk ▸ hlog
    · rw [hframe k hk]
  recorded k x hx := by
    by_cases hk : key = k
    · subst hk
      exact hrecorded x hx
    · rw [hframe k hk]
      exact ⟨x, hx, rfl⟩

theorem quiet_self {e : Engine ρ} (hs : e.store.Sound) (accesses : List Access)
    (answer : Except EngineError Answer) : e.Quiet ⟨e, accesses, [], answer⟩ :=
  ⟨rfl, rfl, hs, fun _ => rfl, fun _ x hx => ⟨x, hx, rfl⟩⟩

/-- A failed load leaves a slot without a journal, where no journal was in use before. -/
theorem consult_of_fault {e : Engine ρ} (hs : e.store.Sound) {c : Circumstances}
    {username : String} (rule : Journal → Ruling Answer) {fault : Fault}
    (hj : e.store.journal? username = none)
    (hfetch : e.store.fetch c username = ⟨e.store.setSlot username .unloaded,
      [.load username false], .error (fault.error e.store.limit)⟩) :
    e.Quiet (e.consult c username rule) ∧ (e.consult c username rule).engine.catalog = e.catalog
      ∧ (e.consult c username rule).loadFailed = true
      ∧ (e.consult c username rule).answer = .error (.storage (fault.error e.store.limit)) := by
  have houtcome : e.consult c username rule
      = ⟨{ e with store := e.store.setSlot username .unloaded }, [.load username false], [],
          .error (.storage (fault.error e.store.limit))⟩ := by
    simp only [consult, hfetch]
  rw [houtcome]
  refine ⟨Quiet.of_frame hs (playerKey username) rfl rfl ?_ ?_ ?_ ?_, rfl, rfl, rfl⟩
  · intro k hk
    exact (e.store.place_setSlot username .unloaded k).trans (if_neg hk)
  all_goals
    have hplace : (e.store.setSlot username .unloaded).place (playerKey username)
        = ⟨some .unloaded, (e.store.place (playerKey username)).record⟩ := by
      rw [Store.place_setSlot, if_pos rfl]
    simp only [hplace]
  · exact Place.sound_of_not_loaded (fun _ _ h => by cases h) (hs _).record_keyed
  · simp only [Place.log, Place.kept?_unloaded,
      Place.kept?_of_not_loaded (Store.slot_ne_of_journal? hj)]
  · exact fun x hx => ⟨x, hx, rfl⟩

/-- `Consulted` for a ruling that puts a journal into the slot, from the place of its player. -/
theorem Consulted.of_place {e : Engine ρ} (hs : e.store.Sound) {c : Circumstances}
    {username : String} {r : Ruling Answer} {o : Outcome ρ} {i : Journal} {dirty : Bool}
    {record : Option Journal}
    (hplace : o.engine.store.place (playerKey username) = ⟨some (.loaded i dirty), record⟩)
    (hframe : ∀ key, playerKey username ≠ key → o.engine.store.place key = e.store.place key)
    (hsound : (Place.mk (some (.loaded i dirty)) record).Sound (playerKey username))
    (hlog : i.log = (r.journal (e.store.opened c username)).log)
    (hname : i.username = (e.store.opened c username).username)
    (hrecord : record = (e.store.place (playerKey username)).record ∨ record = some i)
    (hcatalog : o.engine.catalog = e.catalog) (hlimit : o.engine.store.limit = e.store.limit)
    (hload : o.loadFailed = false) (hnews : o.news = r.news)
    (hanswer : o.saveFailed = false ∧ o.answer = r.answer.mapError .refused
      ∨ o.saveFailed = true ∧ ∃ fault, c.saveFault = some fault
        ∧ o.answer = .error (.storage (fault.error e.store.limit))) :
    e.Consulted c username r o where
  catalog := hcatalog
  limit := hlimit
  loaded := hload
  news := hnews
  answer := hanswer
  sound := hs.of_place hframe (hplace ▸ hsound)
  frame := hframe
  kept := ⟨i, by rw [hplace]; rfl, hlog, hname⟩
  recorded x hx := by
    rw [hplace]
    rcases hrecord with h | h
    · exact ⟨x, h.trans hx, rfl⟩
    · exact ⟨i, h, hname.trans (hs.opened_named c hx)⟩

/-- Where the journal is found, the rule is carried out on it. -/
theorem consult_of_fetched {e : Engine ρ} (hs : e.store.Sound) {c : Circumstances}
    {username : String} {rule : Journal → Ruling Answer}
    (hname : ((rule (e.store.opened c username)).journal (e.store.opened c username)).username
      = (e.store.opened c username).username)
    {s : Store ρ} {accesses : List Access}
    (hfetch : e.store.fetch c username = ⟨s, accesses, .ok (e.store.opened c username)⟩)
    (hs' : e.store.Fetched c username s) (hload : accesses.any Access.isFailedLoad = false)
    (hsave : accesses.any Access.isFailedSave = false) :
    e.Consulted c username (rule (e.store.opened c username)) (e.consult c username rule) := by
  obtain ⟨dirty, hplace⟩ := hs'.place
  have hrecord : (s.place (playerKey username)).record
      = (e.store.place (playerKey username)).record := by rw [hplace]
  have hkey := hs.opened_keyed c username
  cases hrule : rule (e.store.opened c username) with
  | look answer =>
      simp only [consult, hfetch, hrule]
      exact Consulted.of_place hs hplace hs'.frame (hplace ▸ hs'.sound hs _) rfl rfl (Or.inl rfl)
        rfl hs'.limit hload rfl (Or.inl ⟨hsave, rfl⟩)
  | handle j answer =>
      rw [hrule] at hname
      have hsound := (hs _).revised (j := j) (hname ▸ hkey)
        fun x hx => hname.trans (hs.opened_named c hx)
      simp only [consult, hfetch, hrule]
      refine Consulted.of_place hs ((s.place_revise ..).trans (if_pos rfl)) ?_
        (hrecord ▸ hsound) rfl hname (Or.inl hrecord) rfl hs'.limit hload rfl
        (Or.inl ⟨hsave, rfl⟩)
      intro key hkey'
      exact ((s.place_revise ..).trans (if_neg hkey')).trans (hs'.frame key hkey')
  | commit j news answer =>
      rw [hrule] at hname
      have hslot : ((s.revise username j).place (playerKey username)).slot
          = some (.loaded j true) := by rw [Store.place_revise, if_pos rfl]
      have hkey' : playerKey j.username = playerKey username := hname ▸ hkey
      simp only [consult, hfetch, hrule]
      rcases (s.revise username j).persist_cases c hslot hkey' with
        ⟨fault, hfault, hpersist⟩ | ⟨s'', hpersist, hlimit, hplace', hframe'⟩
      · have hwritten : ∀ key, ((s.revise username j).setSlot username
              (.loaded (j.touch c.savedAt) true)).place key
            = if playerKey username = key then
                ⟨some (.loaded (j.touch c.savedAt) true), (s.place key).record⟩
              else s.place key := by
          intro key
          rw [Store.place_setSlot, Store.place_revise]
          by_cases h : playerKey username = key <;> simp [h]
        have hsound := (hs _).revised (j := j.touch c.savedAt) hkey'
          fun x hx => hname.trans (hs.opened_named c hx)
        rw [hpersist]
        refine Consulted.of_place hs ((hwritten _).trans (if_pos rfl)) ?_ (hrecord ▸ hsound) rfl
          hname (Or.inl hrecord) rfl hs'.limit ?_ rfl
          (Or.inr ⟨?_, fault, hfault, by rw [← hs'.limit]; rfl⟩)
        · intro key hne
          exact ((hwritten key).trans (if_neg hne)).trans (hs'.frame key hne)
        · simp [Outcome.loadFailed, hload, Access.isFailedLoad]
        · simp [Outcome.saveFailed, Access.isFailedSave]
      · rw [hpersist]
        refine Consulted.of_place hs hplace' ?_ (Place.Sound.written hkey') rfl hname
          (Or.inr rfl) rfl (hlimit.trans hs'.limit) ?_ rfl (Or.inl ⟨?_, rfl⟩)
        · intro key hne
          exact ((hframe' key hne).trans ((s.place_revise ..).trans (if_neg hne))).trans
            (hs'.frame key hne)
        · simp [Outcome.loadFailed, hload, Access.isFailedLoad]
        · simp [Outcome.saveFailed, hsave, Access.isFailedSave]

/-- `Store.release` changes no quest log if the record alone has that of the place. -/
theorem release_quiet {e : Engine ρ} (hs : e.store.Sound) {s : Store ρ} {username : String}
    (hlimit : s.limit = e.store.limit)
    (hframe : ∀ key, playerKey username ≠ key → s.place key = e.store.place key)
    (hkeyed : ∀ r, (s.place (playerKey username)).record = some r →
      playerKey r.username = playerKey username)
    (hlog : (Place.mk none (s.place (playerKey username)).record).log
      = (e.store.place (playerKey username)).log)
    (hrecorded : ∀ x, (e.store.place (playerKey username)).record = some x →
      ∃ y, (s.place (playerKey username)).record = some y ∧ y.username = x.username)
    (accesses : List Access) (answer : Except EngineError Answer) :
    e.Quiet ⟨{ e with store := s.release username }, accesses, [], answer⟩ := by
  have hplace : (s.release username).place (playerKey username)
      = ⟨none, (s.place (playerKey username)).record⟩ := by rw [Store.place_release, if_pos rfl]
  refine Quiet.of_frame hs (playerKey username) hlimit rfl (fun key hkey => ?_) ?_ ?_ ?_
  · exact ((s.place_release username key).trans (if_neg hkey)).trans (hframe key hkey)
  · simp only [hplace]
    exact Place.sound_of_not_loaded (fun _ _ h => by cases h) hkeyed
  · simp only [hplace]
    exact hlog
  · simp only [hplace]
    exact hrecorded

/-- `Store.evict` changes no quest log, whether or not the write succeeds. -/
theorem evict_quiet {e : Engine ρ} (hs : e.store.Sound) (c : Circumstances) (username : String)
    (accesses : List Access) (answer : Except EngineError Answer) :
    e.Quiet ⟨{ e with store := (e.store.evict c username).store }, accesses, [], answer⟩ := by
  have hsound := hs (playerKey username)
  have hself : ∀ x, (e.store.place (playerKey username)).record = some x →
      ∃ y, (e.store.place (playerKey username)).record = some y ∧ y.username = x.username :=
    fun x hx => ⟨x, hx, rfl⟩
  have hevicted := e.store.evicted c username
  generalize e.store.evict c username = v at hevicted ⊢
  cases hevicted with
  | absent => exact quiet_self hs accesses answer
  | unloaded hslot =>
      refine release_quiet hs rfl (fun _ _ => rfl) hsound.record_keyed ?_ hself accesses answer
      unfold Place.log
      rw [Place.kept?_of_not_loaded (p := e.store.place (playerKey username))
        fun j dirty h => by cases hslot.symm.trans h]
      rfl
  | clean j hslot =>
      exact release_quiet hs rfl (fun _ _ => rfl) hsound.record_keyed
        (hsound.log_released hslot) hself accesses answer
  | refused j fault hslot =>
      have hlog : (e.store.place (playerKey username)).log = j.log := Place.log_of_loaded hslot
      have hstays : (e.store.setSlot username (.loaded (j.touch c.savedAt) true)).place
            (playerKey username)
          = ⟨some (.loaded (j.touch c.savedAt) true),
              (e.store.place (playerKey username)).record⟩ := by
        rw [Store.place_setSlot, if_pos rfl]
      refine Quiet.of_frame hs (playerKey username) rfl rfl (fun key hne => ?_) ?_ ?_ ?_
      · exact (e.store.place_setSlot username _ key).trans (if_neg hne)
      · simp only [hstays]
        exact hsound.revised (hsound.slot_keyed j true hslot)
          fun r hr => hsound.named j true r hslot hr
      · simp only [hstays, hlog]
        rfl
      · simp only [hstays]
        exact hself
  | stored j s hslot _ hpersist =>
      obtain ⟨hlimit, hwritten, hframe⟩ := Store.place_persisted hs hslot hpersist
      have hlog : (e.store.place (playerKey username)).log = j.log := Place.log_of_loaded hslot
      refine release_quiet hs hlimit hframe ?_ ?_ ?_ accesses answer
      · intro r hr
        rw [hwritten] at hr
        cases hr
        exact hsound.slot_keyed j true hslot
      · rw [hwritten, hlog]
        rfl
      · intro x hx
        rw [hwritten]
        exact ⟨_, rfl, hsound.named j true x hslot hx⟩

theorem fetch_result_eq_opened {s : Store ρ} {c : Circumstances} {username : String}
    {j : Journal} (h : (s.fetch c username).result = .ok j) : j = s.opened c username := by
  rcases s.fetch_cases c username with ⟨fault, -, -, hfetch⟩ | ⟨s', accesses, hfetch, -⟩
  · rw [hfetch] at h
    cases h
  · rw [hfetch] at h
    cases h
    rfl

/-- **Inversion of an operation.** Either it is quiet, as it is whenever its journal cannot be
loaded, or it carries out the ruling of its rule on the journal found. -/
theorem run_cases {e : Engine ρ} (hs : e.store.Sound) (c : Circumstances) (op : Operation) :
    (e.Quiet (e.run c op) ∧ (e.run c op).engine.catalog = e.catalog
      ∧ ∀ username rule, op.plan e.catalog c.now = .consult username rule →
        (e.run c op).loadFailed = true ∧ ∃ fault, c.loadFault = some fault
          ∧ (e.store.fetch c username).result = .error (fault.error e.store.limit)
          ∧ (e.run c op).answer = .error (.storage (fault.error e.store.limit)))
    ∨ ∃ username rule, op.plan e.catalog c.now = .consult username rule
      ∧ (e.store.fetch c username).result = .ok (e.store.opened c username)
      ∧ e.Consulted c username (rule (e.store.opened c username)) (e.run c op) := by
  cases hplan : op.plan e.catalog c.now with
  | settled answer =>
      have hrun : e.run c op = ⟨e, [], [], answer.mapError .refused⟩ := by simp only [run, hplan]
      rw [hrun]
      exact Or.inl ⟨quiet_self hs _ _, rfl, fun _ _ h => by cases h⟩
  | consult username rule =>
      have hrun : e.run c op = e.consult c username rule := by simp only [run, hplan]
      rw [hrun]
      rcases e.store.fetch_cases c username with
        ⟨fault, hfault, hj, hfetch⟩ | ⟨s, accesses, hfetch, hs', hload, hsave⟩
      · obtain ⟨hquiet, hcatalog, hload, hanswer⟩ := consult_of_fault hs rule hj hfetch
        refine Or.inl ⟨hquiet, hcatalog, fun username' rule' h => ?_⟩
        cases h
        exact ⟨hload, fault, hfault, by rw [hfetch], hanswer⟩
      · exact Or.inr ⟨username, rule, rfl, by rw [hfetch],
          consult_of_fetched hs (Operation.username_plan hplan _) hfetch hs' hload hsave⟩
  | evict username =>
      have hrun : e.run c op = ⟨{ e with store := (e.store.evict c username).store },
          (e.store.evict c username).accesses, [],
          ((e.store.evict c username).result.mapError .storage).map .changed⟩ := by
        simp only [run, hplan]
      rw [hrun]
      exact Or.inl ⟨evict_quiet hs c username _ _, rfl, fun _ _ h => by cases h⟩

omit [TableRepository ρ] in
/-- Where the journal is found and only looked at, the answer is that of the rule. -/
theorem answer_of_look {e : Engine ρ} {c : Circumstances} {op : Operation} {username : String}
    {rule : Journal → Ruling Answer} (hplan : op.plan e.catalog c.now = .consult username rule)
    {j : Journal} (hfound : (e.store.fetch c username).result = .ok j)
    {answer : Except Refusal Answer} (hrule : rule j = .look answer) :
    (e.run c op).answer = answer.mapError .refused := by
  rcases hfetch : e.store.fetch c username with ⟨s, accesses, result⟩
  rw [hfetch] at hfound
  cases hfound
  simp only [run, hplan, consult, hfetch, hrule]

/-- Where the journal is found, the rule is carried out on it. -/
theorem consulted_of_found {e : Engine ρ} (hs : e.store.Sound) {c : Circumstances}
    {op : Operation} {username : String} {rule : Journal → Ruling Answer}
    (hplan : op.plan e.catalog c.now = .consult username rule) {j : Journal}
    (hfound : (e.store.fetch c username).result = .ok j) :
    e.Consulted c username (rule j) (e.run c op) := by
  rcases run_cases hs c op with ⟨-, -, hlost⟩ | ⟨username', rule', hplan', hfetch, hdone⟩
  · obtain ⟨-, fault, -, hfetch, -⟩ := hlost username rule hplan
    rw [hfound] at hfetch
    cases hfetch
  · cases hplan.symm.trans hplan'
    cases hfound.symm.trans hfetch
    exact hdone

end Engine

/-! ## Runs -/

/-- One turn of a run. -/
inductive Turn where
  /-- An operation in its circumstances. -/
  | perform (c : Circumstances) (op : Operation)
  /-- Another catalog is put in place. -/
  | reload (catalog : Catalog)

namespace Engine

/-- Take a turn. -/
def take (e : Engine ρ) : Turn → Outcome ρ
  | .perform c op => e.run c op
  | .reload catalog => ⟨e.reload catalog, [], [], .ok .done⟩

/-- The engine after a run. -/
def after (e : Engine ρ) : List Turn → Engine ρ
  | [] => e
  | t :: turns => (e.take t).engine.after turns

/-- The notifications published in a run, in order. -/
def published (e : Engine ρ) : List Turn → List Notification
  | [] => []
  | t :: turns => (e.take t).news ++ (e.take t).engine.published turns

omit [TableRepository ρ] in
/-- What every turn of a kind preserves, a run of such turns preserves. -/
theorem after_of_take {P : Engine ρ → Prop} {K : Turn → Prop}
    (htake : ∀ e t, P e → K t → P (e.take t).engine) {e : Engine ρ} (h : P e)
    {turns : List Turn} (hturns : ∀ t ∈ turns, K t) : P (e.after turns) := by
  induction turns generalizing e with
  | nil => exact h
  | cons t turns ih =>
      exact ih (htake e t h (hturns t List.mem_cons_self))
        fun t' ht' => hturns t' (List.mem_cons_of_mem _ ht')

theorem take_sound {e : Engine ρ} (hs : e.store.Sound) (t : Turn) :
    (e.take t).engine.store.Sound := by
  cases t with
  | perform c op =>
      rcases run_cases hs c op with ⟨hquiet, -⟩ | ⟨username, rule, -, -, hdone⟩
      · exact hquiet.sound
      · exact hdone.sound
  | reload catalog => exact hs

theorem after_sound {e : Engine ρ} (hs : e.store.Sound) (turns : List Turn) :
    (e.after turns).store.Sound := by
  induction turns generalizing e with
  | nil => exact hs
  | cons t turns ih => exact ih (take_sound hs t)

/-- Once a player is stored, it is under one name for good. -/
theorem take_recorded {e : Engine ρ} (hs : e.store.Sound) (t : Turn) {key : String}
    {x : Journal} (hx : (e.store.place key).record = some x) :
    ∃ y, ((e.take t).engine.store.place key).record = some y ∧ y.username = x.username := by
  cases t with
  | perform c op =>
      rcases run_cases hs c op with ⟨hquiet, -⟩ | ⟨username, rule, -, -, hdone⟩
      · exact hquiet.recorded key x hx
      · by_cases hkey : playerKey username = key
        · subst hkey
          exact hdone.recorded x hx
        · refine ⟨x, ?_, rfl⟩
          rw [show (e.take (.perform c op)).engine.store.place key = e.store.place key from
            hdone.frame key hkey]
          exact hx
  | reload catalog => exact ⟨x, hx, rfl⟩

theorem after_recorded {e : Engine ρ} (hs : e.store.Sound) (turns : List Turn) {key : String}
    {x : Journal} (hx : (e.store.place key).record = some x) :
    ∃ y, ((e.after turns).store.place key).record = some y ∧ y.username = x.username := by
  induction turns generalizing e x with
  | nil => exact ⟨x, hx, rfl⟩
  | cons t turns ih =>
      obtain ⟨y, hy, hxy⟩ := take_recorded hs t hx
      obtain ⟨z, hz, hyz⟩ := ih (take_sound hs t) hy
      exact ⟨z, hz, hyz.trans hxy⟩

end Engine

/-! ## A quest to try things on -/

/-- Kill two rats and tell the warden, who may ask for two more. -/
def ratHunt : Quest where
  id := "rats"
  name := "Rats"
  description := ""
  category := .side
  repeatable := true
  cooldown := none
  prerequisites := .none
  steps :=
    [{ id := "cull", name := "Cull", description := "",
        objectives := [⟨"kills", "", some 2, .killMob "rat"⟩], dialogues := ∅,
        onStart := [.message "Two rats."], onComplete := [.giveExperience 5],
        requireAll := true },
      { id := "tell", name := "Tell", description := "",
        objectives := [⟨"talk", "", none, .talkToNpc "warden" (some "done")⟩],
        dialogues := Dict.ofList [("warden", ⟨none, "Well?",
          [⟨"done", "Done.", .none, none, []⟩, ⟨"more", "More?", .none, some "cull", []⟩]⟩)],
        onStart := [], onComplete := [.giveItem "coin" 1], requireAll := true }]
  rewards := none
  chain := none

/-- The storage works for loading, but not for saving. -/
def unsaved : Circumstances := { Circumstances.calm Instant.epoch with saveFault := some .hang }

/-- The storage works for saving, but not for loading. -/
def unloaded : Circumstances := { Circumstances.calm Instant.epoch with loadFault := some .hang }

/-- A player starts the hunt, kills a rat in another spelling and leaves, all while nothing
can be saved; then leaves for good, is back when nothing can be loaded, kills the second rat
and is sent to kill more. -/
def ratHuntTurns : List Turn :=
  [.perform unsaved (.start (.named "Ann" 1) "rats" false none),
    .perform unsaved (.ingest "ANN" (.npcDeath "rat")),
    .perform unsaved (.evict "ann"),
    .perform (.calm .epoch) (.evict "ann"),
    .perform unloaded (.ingest "ann" (.npcDeath "rat")),
    .perform (.calm .epoch) (.ingest "ann" (.npcDeath "rat")),
    .perform (.calm .epoch) (.choose (.named "ann" 1) "warden" "rats" "more")]

end Questline
