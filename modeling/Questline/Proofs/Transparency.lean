import Questline.Proofs.Run

/-!
# Simulation by an engine without faults and evictions

The *ideal engine* is a map from lower-cased names to journals: no access fails and no journal is
evicted (`IdealEngine.run`). A run of the real engine, whatever fails in it and whoever is evicted,
is simulated by the ideal run without the operations whose load failed: after every turn each
player's quest log is the ideal one, the same news is published, and the answers are the ideal ones,
except for the error that a failed load or save is answered with (`run_simulated`).

One thing can be lost. The journal of a player of whom nothing is stored bears the spelling of the
first access, and is in use only. Evicting it forgets the spelling (`Engine.Forgets`), and the
player is stored under the spelling that comes next, while the ideal engine keeps the first
(`spelling_forgotten`). So the names agree for every player who was not forgotten.
-/

namespace Questline

/-! ## The ideal engine -/

/-- The ideal engine: a catalog and a map from lower-cased names to journals. -/
structure IdealEngine where
  catalog : Catalog
  journals : Dict Journal

/-- What one operation of the ideal engine leaves behind. -/
structure IdealOutcome where
  engine : IdealEngine
  news : List Notification
  answer : Except Refusal Answer

namespace IdealEngine

/-- The journal of a player, an empty one if there is none yet. -/
def journal (m : IdealEngine) (c : Circumstances) (username : String) : Journal :=
  (m.journals.get? (playerKey username)).getD (Journal.empty username c.openedAt)

/-- Carry out an operation. -/
def run (m : IdealEngine) (c : Circumstances) (op : Operation) : IdealOutcome :=
  match op.plan m.catalog c.now with
  | .settled answer => ⟨m, [], answer⟩
  | .consult username rule =>
    let j := m.journal c username
    let ruling := rule j
    ⟨{ m with journals := m.journals.insert (playerKey username) (ruling.journal j) },
      ruling.news, ruling.answer⟩
  | .evict _ => ⟨m, [], .ok .done⟩

/-- Take a turn. -/
def take (m : IdealEngine) : Turn → IdealOutcome
  | .perform c op => m.run c op
  | .reload catalog => ⟨{ m with catalog := catalog }, [], .ok .done⟩

/-- The ideal engine after a run. -/
def after (m : IdealEngine) : List Turn → IdealEngine
  | [] => m
  | t :: turns => (m.take t).engine.after turns

end IdealEngine

/-! ## The simulation relation -/

namespace Turn

def isEvict : Turn → Bool
  | perform _ (.evict _) => true
  | _ => false

/-- What is wrong with loading in this turn. -/
def loadFault : Turn → Option Fault
  | perform c _ => c.loadFault
  | reload _ => none

/-- What is wrong with saving in this turn. -/
def saveFault : Turn → Option Fault
  | perform c _ => c.saveFault
  | reload _ => none

end Turn

/-- The same answer, up to the stamp of a journal and, if its player is not one of the
`named`, up to the case of the letters of the name. -/
def Answer.Agrees (named : String → Prop) : Answer → Answer → Prop
  | .progress j, .progress i =>
    j.log = i.log ∧ playerKey j.username = playerKey i.username
      ∧ (named (playerKey j.username) → j.username = i.username)
  | a, b => a = b

/-- The reply of an engine is the ideal answer. -/
def Agree (named : String → Prop) : Except EngineError Answer → Except Refusal Answer → Prop
  | .ok a, .ok b => a.Agrees named b
  | .error (.refused refusal), .error refusal' => refusal = refusal'
  | _, _ => False

variable {ρ : Type} [Repository ρ] [TableRepository ρ]

namespace Engine

/-- Whether a turn evicts the journal of a player, by lower-cased name, and none is left: none was
stored before, and the eviction stores none. -/
def Forgets (e : Engine ρ) (key : String) : Turn → Prop
  | .perform c (.evict username) =>
    playerKey username = key ∧ (∃ j, e.store.journal? username = some j)
      ∧ ((e.run c (.evict username)).engine.store.place key).kept? = none
  | _ => False

/-- Every successful access finds the quest log of the ideal journal. -/
def SeesAs (e : Engine ρ) (m : IdealEngine) : Prop :=
  ∀ username c j, (e.store.fetch c username).result = .ok j → j.log = (m.journal c username).log

/-- Turn by turn, a run is the ideal run without the operations whose load failed. The names
in the answers agree for all players who have not been `forgotten` before. -/
def SimulatedBy : (String → Prop) → Engine ρ → IdealEngine → List Turn → Prop
  | _, e, m, [] => e.SeesAs m
  | forgotten, e, m, t :: turns =>
    let real := e.take t
    let ideal := m.take t
    let forgotten' := fun key => forgotten key ∨ e.Forgets key t
    e.SeesAs m
      ∧ (real.loadFailed = true → real.news = []
        ∧ (∃ fault, t.loadFault = some fault
          ∧ real.answer = .error (.storage (fault.error e.store.limit)))
        ∧ SimulatedBy forgotten' real.engine m turns)
      ∧ (real.loadFailed = false → real.news = ideal.news
        ∧ (t.isEvict = false →
          (real.saveFailed = false → Agree (fun key => ¬ forgotten key) real.answer ideal.answer)
          ∧ (real.saveFailed = true → ∃ fault, t.saveFault = some fault
            ∧ real.answer = .error (.storage (fault.error e.store.limit))))
        ∧ SimulatedBy forgotten' real.engine ideal.engine turns)

end Engine

/-! ## The name that is kept of a player -/

/-- The name on the journal that the next access finds, if there is one. -/
def Place.name? (p : Place) : Option String := p.kept?.map Journal.username

@[simp] theorem Place.name?_loaded (j : Journal) (dirty : Bool) (record : Option Journal) :
    (Place.mk (some (.loaded j dirty)) record).name? = some j.username := rfl

namespace Store

/-- A failed load leaves the name as it is. -/
theorem name?_setSlot_unloaded {s : Store ρ} {username : String}
    (h : s.journal? username = none) (key : String) :
    ((s.setSlot username .unloaded).place key).name? = (s.place key).name? := by
  rw [place_setSlot]
  by_cases hkey : playerKey username = key
  · subst hkey
    rw [if_pos rfl]
    unfold Place.name?
    rw [Place.kept?_unloaded, Place.kept?_of_not_loaded (slot_ne_of_journal? h)]
  · rw [if_neg hkey]

/-- An eviction leaves the name as it is, unless no journal of the player is left. -/
theorem name?_evict {s : Store ρ} (hs : s.Sound) (c : Circumstances) (username key : String) :
    ((s.evict c username).store.place key).name? = (s.place key).name?
      ∨ playerKey username = key ∧ (∃ j, s.journal? username = some j)
        ∧ ((s.evict c username).store.place key).kept? = none := by
  by_cases hkey : playerKey username = key
  · subst hkey
    have hevicted := s.evicted c username
    generalize s.evict c username = v at hevicted ⊢
    cases hevicted with
    | absent => exact Or.inl rfl
    | unloaded hslot =>
        refine Or.inl ?_
        rw [place_release, if_pos rfl]
        unfold Place.name?
        have hloaded : ∀ j dirty, (s.place (playerKey username)).slot ≠ some (.loaded j dirty) :=
          fun j dirty h => by cases hslot.symm.trans h
        rw [Place.kept?_none, Place.kept?_of_not_loaded hloaded]
    | clean j hslot =>
        rw [place_release, if_pos rfl]
        unfold Place.name?
        rw [Place.kept?_none, Place.kept?_of_loaded hslot]
        rcases (hs _).clean j hslot with hrecord | ⟨hrecord, -⟩
        · exact Or.inl (congrArg (Option.map Journal.username) hrecord)
        · exact Or.inr ⟨rfl, ⟨j, journal?_of_slot hslot⟩, hrecord⟩
    | refused j fault hslot =>
        refine Or.inl ?_
        rw [place_setSlot, if_pos rfl]
        unfold Place.name?
        rw [Place.kept?_loaded, Place.kept?_of_loaded hslot]
        rfl
    | stored j s' hslot _ hpersist =>
        obtain ⟨-, hplace, -⟩ := place_persisted hs hslot hpersist
        refine Or.inl ?_
        rw [place_release, if_pos rfl, hplace]
        unfold Place.name?
        rw [Place.kept?_none, Place.kept?_of_loaded hslot]
        rfl
  · exact Or.inl (congrArg Place.name? (place_evict hs c hkey))

end Store

/-- A quiet operation leaves the names of all players as they are, unless it forgets the player. -/
theorem Engine.name?_of_quiet {e : Engine ρ} (hs : e.store.Sound) (c : Circumstances)
    (op : Operation)
    (hlost : ∀ username rule, op.plan e.catalog c.now = .consult username rule →
      ∃ err, (e.store.fetch c username).result = .error err)
    {key : String} (hforgets : ¬ e.Forgets key (.perform c op)) :
    ((e.run c op).engine.store.place key).name? = (e.store.place key).name? := by
  cases hplan : op.plan e.catalog c.now with
  | settled answer => simp only [run, hplan]
  | consult username rule =>
      obtain ⟨err, herr⟩ := hlost username rule hplan
      rcases e.store.fetch_cases c username with ⟨fault, -, hj, hfetch⟩ | ⟨s, accesses, hfetch, -⟩
      · simp only [run, hplan, consult, hfetch]
        exact Store.name?_setSlot_unloaded hj key
      · rw [hfetch] at herr
        cases herr
  | evict username =>
      obtain ⟨u, rfl⟩ := Operation.isEvict_of_plan hplan
      exact (Store.name?_evict hs c u key).resolve_right hforgets

/-! ## The simulation -/

/-- The invariant of the simulation: both engines have the same quest log of every player, and the
same name of every player who has not been forgotten. -/
structure SimulationInvariant (forgotten : String → Prop) (e : Engine ρ)
    (m : IdealEngine) : Prop where
  catalog : m.catalog = e.catalog
  sound : e.store.Sound
  log : ∀ key, ((m.journals.get? key).map Journal.log).getD .blank = (e.store.place key).log
  keyed : Keyed m.journals
  named : ∀ key, ¬ forgotten key →
    (m.journals.get? key).map Journal.username = (e.store.place key).name?

namespace SimulationInvariant

variable {forgotten : String → Prop} {e : Engine ρ} {m : IdealEngine}

theorem mono (h : SimulationInvariant forgotten e m) {forgotten' : String → Prop}
    (hmono : ∀ key, forgotten key → forgotten' key) : SimulationInvariant forgotten' e m where
  catalog := h.catalog
  sound := h.sound
  log := h.log
  keyed := h.keyed
  named key hkey := h.named key fun hforgotten => hkey (hmono key hforgotten)

theorem journal_log (h : SimulationInvariant forgotten e m) (c : Circumstances)
    (username : String) :
    (m.journal c username).log = (e.store.place (playerKey username)).log := by
  rw [← h.log (playerKey username)]
  unfold IdealEngine.journal
  cases m.journals.get? (playerKey username) <;> rfl

theorem seesAs (h : SimulationInvariant forgotten e m) : e.SeesAs m := by
  intro username c j hj
  rw [Engine.fetch_result_eq_opened hj, Store.log_opened, h.journal_log]

theorem journal_keyed (h : SimulationInvariant forgotten e m) (c : Circumstances)
    (username : String) :
    playerKey (m.journal c username).username = playerKey username := by
  unfold IdealEngine.journal
  cases hi : m.journals.get? (playerKey username) with
  | none => rfl
  | some i => exact h.keyed _ _ hi

/-- Of a player who was not forgotten, both engines find a journal under the same name. -/
theorem journal_named (h : SimulationInvariant forgotten e m) (c : Circumstances)
    {username : String}
    (hkey : ¬ forgotten (playerKey username)) :
    (m.journal c username).username = (e.store.opened c username).username := by
  have hname := h.named _ hkey
  unfold Place.name? at hname
  unfold IdealEngine.journal Store.opened
  cases hi : m.journals.get? (playerKey username) with
  | none =>
      cases hj : (e.store.place (playerKey username)).kept? with
      | none => rfl
      | some j =>
          rw [hi, hj] at hname
          cases hname
  | some i =>
      cases hj : (e.store.place (playerKey username)).kept? with
      | none =>
          rw [hi, hj] at hname
          cases hname
      | some j =>
          rw [hi, hj] at hname
          exact Option.some.inj hname

/-- A quiet operation of the real engine preserves the invariant without an ideal one. -/
theorem quiet (h : SimulationInvariant forgotten e m) {o : Outcome ρ} (hquiet : e.Quiet o)
    (hcatalog : o.engine.catalog = e.catalog)
    (hname : ∀ key, ¬ forgotten key →
      (o.engine.store.place key).name? = (e.store.place key).name?) :
    SimulationInvariant forgotten o.engine m where
  catalog := h.catalog.trans hcatalog.symm
  sound := hquiet.sound
  log key := (h.log key).trans (hquiet.log key).symm
  keyed := h.keyed
  named key hkey := (h.named key hkey).trans (hname key hkey).symm

/-- An operation that carries out a ruling preserves the invariant, if the ideal map gets its
journal. -/
theorem insert (h : SimulationInvariant forgotten e m) {c : Circumstances} {username : String}
    {r : Ruling Answer} {o : Outcome ρ} (hdone : e.Consulted c username r o) {i : Journal}
    (hlog : i.log = (r.journal (e.store.opened c username)).log)
    (hkey : playerKey i.username = playerKey username)
    (hname : ¬ forgotten (playerKey username) →
      i.username = (e.store.opened c username).username) :
    SimulationInvariant forgotten o.engine
      { m with journals := m.journals.insert (playerKey username) i } where
  catalog := h.catalog.trans hdone.catalog.symm
  sound := hdone.sound
  log key := by
    rw [Dict.get?_insert]
    by_cases hk : playerKey username = key
    · subst hk
      rw [if_pos rfl, hdone.log]
      exact hlog
    · rw [if_neg hk, h.log key, hdone.frame key hk]
  keyed key x hx := by
    rw [Dict.get?_insert] at hx
    by_cases hk : playerKey username = key
    · rw [if_pos hk] at hx
      cases hx
      rw [hkey, hk]
    · rw [if_neg hk] at hx
      exact h.keyed key x hx
  named key hknown := by
    rw [Dict.get?_insert]
    by_cases hk : playerKey username = key
    · subst hk
      obtain ⟨kept, hkept, -, hkeptname⟩ := hdone.kept
      rw [if_pos rfl, Place.name?, hkept, Option.map_some, Option.map_some, hname hknown, hkeptname]
    · rw [if_neg hk, h.named key hknown, hdone.frame key hk]

end SimulationInvariant

/-- The one journal that a ruling can show is the one it is about. -/
theorem username_of_progress {c : Catalog} {now : Instant} {op : Operation} {username : String}
    {rule : Journal → Ruling Answer} (h : op.plan c now = .consult username rule)
    {j shown : Journal} (hanswer : (rule j).answer = .ok (.progress shown)) :
    shown.username = j.username := by
  have hrelabel : rule j = _ := Operation.plan_relabel h j j.username j.lastUpdated
  have heq := congrArg Ruling.answer hrelabel
  rw [Ruling.answer_map, Ruling.answer_relabel, hanswer] at heq
  have hshown : shown = shown.relabel j.username j.lastUpdated :=
    Answer.progress.inj (Except.ok.inj heq)
  rw [hshown, Journal.username_relabel]

/-- Where the write did not fail, the reply to a rule that is carried out is its answer on
any journal of the player that holds the same quests, under the same name if it has to be. -/
theorem Engine.Consulted.agree {named : String → Prop} {e : Engine ρ} (hs : e.store.Sound)
    {c : Circumstances} {op : Operation} {username : String} {rule : Journal → Ruling Answer}
    (hplan : op.plan e.catalog c.now = .consult username rule) {o : Outcome ρ}
    (hdone : e.Consulted c username (rule (e.store.opened c username)) o) {i : Journal}
    (hlog : (e.store.opened c username).log = i.log)
    (hkey : playerKey i.username = playerKey username)
    (hname : named (playerKey username) → i.username = (e.store.opened c username).username)
    (hsaved : o.saveFailed = false) : Agree named o.answer (rule i).answer := by
  have hopened := hs.opened_keyed c username
  rcases hdone.answer with ⟨-, hanswer⟩ | ⟨hfailed, -⟩
  · rw [hanswer, (Operation.plan_of_log_eq hplan hlog).1, Ruling.answer_map, Ruling.answer_relabel]
    cases ha : (rule (e.store.opened c username)).answer with
    | error refusal => rfl
    | ok a =>
        cases a with
        | progress shown =>
            have hshown := username_of_progress hplan ha
            refine ⟨rfl, ?_, fun hnamed => ?_⟩
            · rw [Journal.username_relabel, hshown, hopened, hkey]
            · rw [hshown, hopened] at hnamed
              rw [Journal.username_relabel, hshown, hname hnamed]
        | _ => rfl
  · rw [hfailed] at hsaved
    cases hsaved

/-- Step lemma for an operation that carries out its rule. -/
theorem SimulationInvariant.consulted {forgotten : String → Prop} {e : Engine ρ} {m : IdealEngine}
    (h : SimulationInvariant forgotten e m) {c : Circumstances} {op : Operation} {username : String}
    {rule : Journal → Ruling Answer}
    (hplan : op.plan e.catalog c.now = .consult username rule) {o : Outcome ρ}
    (hdone : e.Consulted c username (rule (e.store.opened c username)) o) :
    SimulationInvariant forgotten o.engine (m.run c op).engine
      ∧ o.news = (m.run c op).news
      ∧ (o.saveFailed = false →
        Agree (fun key => ¬ forgotten key) o.answer (m.run c op).answer) := by
  have hlog : (e.store.opened c username).log = (m.journal c username).log := by
    rw [Store.log_opened, h.journal_log]
  have hkey := h.journal_keyed c username
  have hname : ¬ forgotten (playerKey username) →
      (m.journal c username).username = (e.store.opened c username).username := h.journal_named c
  have hplan' : op.plan m.catalog c.now = .consult username rule := h.catalog ▸ hplan
  simp only [IdealEngine.run, hplan']
  generalize m.journal c username = i at *
  obtain ⟨hruling, hjournal⟩ := Operation.plan_of_log_eq hplan hlog
  refine ⟨h.insert hdone ?_ ?_ ?_, ?_, hdone.agree h.sound hplan hlog hkey hname⟩
  · rw [hjournal, Journal.log_relabel]
  · rw [hjournal, Journal.username_relabel]
    exact hkey
  · rw [hjournal, Journal.username_relabel]
    exact hname
  · rw [hdone.news, hruling, Ruling.news_map, Ruling.news_relabel]

theorem Answer.agrees_refl (named : String → Prop) (a : Answer) : a.Agrees named a := by
  cases a with
  | progress j => exact ⟨rfl, rfl, fun _ => rfl⟩
  | _ => rfl

theorem agree_mapError (named : String → Prop) (answer : Except Refusal Answer) :
    Agree named (answer.mapError .refused) answer := by
  cases answer with
  | error refusal => rfl
  | ok a => exact a.agrees_refl named

omit [TableRepository ρ] in
/-- An eviction has no failed load. -/
theorem Store.loadFailed_evict (s : Store ρ) (c : Circumstances) (username : String) :
    (s.evict c username).accesses.any Access.isFailedLoad = false := by
  have hevicted := s.evicted c username
  generalize s.evict c username = v at hevicted ⊢
  cases hevicted <;> rfl

/-- Step lemma: a turn whose load fails is quiet, and every other turn is simulated by the ideal
one. -/
theorem SimulationInvariant.take {forgotten : String → Prop} {e : Engine ρ} {m : IdealEngine}
    (h : SimulationInvariant forgotten e m) (t : Turn) :
    let real := e.take t
    let ideal := m.take t
    let forgotten' := fun key => forgotten key ∨ e.Forgets key t
    (real.loadFailed = true ∧ real.news = []
      ∧ (∃ fault, t.loadFault = some fault
        ∧ real.answer = .error (.storage (fault.error e.store.limit)))
      ∧ SimulationInvariant forgotten' real.engine m)
    ∨ (real.loadFailed = false ∧ real.news = ideal.news
      ∧ (t.isEvict = false →
        (real.saveFailed = false → Agree (fun key => ¬ forgotten key) real.answer ideal.answer)
        ∧ (real.saveFailed = true → ∃ fault, t.saveFault = some fault
          ∧ real.answer = .error (.storage (fault.error e.store.limit))))
      ∧ SimulationInvariant forgotten' real.engine ideal.engine) := by
  intro real ideal forgotten'
  have hlater : SimulationInvariant forgotten' e m := h.mono fun _ => Or.inl
  cases t with
  | reload catalog =>
      exact Or.inr ⟨rfl, rfl, fun _ => ⟨fun _ => rfl, fun hsave => absurd hsave Bool.false_ne_true⟩,
        ⟨rfl, h.sound, h.log, h.keyed, hlater.named⟩⟩
  | perform c op =>
      rcases Engine.run_cases h.sound c op with
        ⟨hquiet, hcatalog, hlost⟩ | ⟨username, rule, hplan, -, hdone⟩
      · have hname : ∀ key, ¬ forgotten' key →
            (real.engine.store.place key).name? = (e.store.place key).name? := by
          intro key hkey
          refine Engine.name?_of_quiet h.sound c op (fun username rule hplan => ?_)
            fun hforgets => hkey (Or.inr hforgets)
          obtain ⟨-, fault, -, herr, -⟩ := hlost username rule hplan
          exact ⟨_, herr⟩
        have hquieted : SimulationInvariant forgotten' real.engine m :=
          hlater.quiet hquiet hcatalog hname
        cases hplan : op.plan e.catalog c.now with
        | settled answer =>
            have hreal : real = ⟨e, [], [], answer.mapError .refused⟩ := by
              simp only [real, Engine.take, Engine.run, hplan]
            have hideal : ideal = ⟨m, [], answer⟩ := by
              simp only [ideal, IdealEngine.take, IdealEngine.run, h.catalog, hplan]
            rw [hreal, hideal]
            exact Or.inr ⟨rfl, rfl, fun _ => ⟨fun _ => agree_mapError _ answer,
              fun hsave => absurd hsave Bool.false_ne_true⟩, hlater⟩
        | consult username rule =>
            obtain ⟨hload, fault, hfault, -, hanswer⟩ := hlost username rule hplan
            exact Or.inl ⟨hload, hquiet.news, ⟨fault, hfault, hanswer⟩, hquieted⟩
        | evict username =>
            obtain ⟨u, rfl⟩ := Operation.isEvict_of_plan hplan
            exact Or.inr ⟨e.store.loadFailed_evict c u, hquiet.news,
              fun hevict => absurd hevict.symm Bool.false_ne_true, hquieted⟩
      · obtain ⟨h', hnews, hanswer⟩ := h.consulted hplan hdone
        refine Or.inr ⟨hdone.loaded, hnews, fun _ => ⟨hanswer, fun hfailed => ?_⟩,
          h'.mono fun _ => Or.inl⟩
        rcases hdone.answer with ⟨hsaved, -⟩ | ⟨-, hfault⟩
        · exact absurd (hsaved.symm.trans hfailed) Bool.false_ne_true
        · exact hfault

theorem SimulationInvariant.simulatedBy {forgotten : String → Prop} {e : Engine ρ} {m : IdealEngine}
    (h : SimulationInvariant forgotten e m) (turns : List Turn) :
    e.SimulatedBy forgotten m turns := by
  induction turns generalizing forgotten e m with
  | nil => exact h.seesAs
  | cons t turns ih =>
      refine ⟨h.seesAs, ?_⟩
      rcases h.take t with ⟨hload, hnews, hfault, h'⟩ | ⟨hload, hnews, hanswer, h'⟩
      · exact ⟨fun _ => ⟨hnews, hfault, ih h'⟩,
          fun hloaded => absurd (hloaded.symm.trans hload) Bool.false_ne_true⟩
      · exact ⟨fun hlost => absurd (hload.symm.trans hlost) Bool.false_ne_true,
          fun _ => ⟨hnews, hanswer, ih h'⟩⟩

/-! ## Transparency -/

/-- **Faults and evictions are not observable.** Whatever a run asks of an engine, and whichever
of its loads and saves fail or do not answer, it is simulated by the ideal run over the
journals that were stored at first; in the answers, only the letters in the name of a player
whom the run has forgotten may be in another case. -/
theorem run_simulated (catalog : Catalog) (repository : ρ)
    (hkeyed : Keyed (TableRepository.records repository)) (limit : Nat) (turns : List Turn) :
    (Engine.new catalog repository limit).SimulatedBy (fun _ => False)
      ⟨catalog, TableRepository.records repository⟩ turns := by
  have hsound : (Engine.new catalog repository limit).store.Sound := Store.sound_new hkeyed limit
  have hstart : SimulationInvariant (fun _ => False) (Engine.new catalog repository limit)
      ⟨catalog, TableRepository.records repository⟩ :=
    ⟨rfl, hsound, fun _ => rfl, hkeyed, fun _ _ => rfl⟩
  exact hstart.simulatedBy turns

/-- A player who is not stored yet hunts rats over a failing storage. -/
theorem run_simulated_ratHunt :
    Keyed (TableRepository.records (MemoryRepository.ofJournals [.empty "Bob" .epoch]))
      ∧ (Engine.new (Catalog.ofQuests [ratHunt])
          (MemoryRepository.ofJournals [.empty "Bob" .epoch]) 5000).SimulatedBy (fun _ => False)
        ⟨Catalog.ofQuests [ratHunt],
          TableRepository.records (MemoryRepository.ofJournals [.empty "Bob" .epoch])⟩
        ratHuntTurns :=
  ⟨keyed_ofJournals _, run_simulated _ _ (keyed_ofJournals _) _ _⟩

/-- The name on the journal that an answer shows. -/
def Answer.shownName? : Answer → Option String
  | .progress j => some j.username
  | _ => none

/-- While nothing fails, Ann's progress is asked for, she is evicted, and the hunt is started under
another spelling of the name. -/
def returnTurns : List Turn :=
  [.perform (.calm .epoch) (.progress "ANN"),
    .perform (.calm .epoch) (.evict "ANN"),
    .perform (.calm .epoch) (.start (.named "ann" 1) "rats" false none)]

/-- A player who is evicted before anything was stored is stored under the spelling that comes next
and shown under it from then on, unlike in the ideal run. -/
theorem spelling_forgotten :
    let e := (Engine.new (Catalog.ofQuests [ratHunt]) MemoryRepository.empty 5000).after returnTurns
    let m := IdealEngine.after ⟨Catalog.ofQuests [ratHunt], ∅⟩ returnTurns
    let look := Turn.perform (.calm .epoch) (.progress "ann")
    (e.store.records.get? "ann").isSome = true
      ∧ (e.take look).answer.toOption.bind Answer.shownName? = some "ann"
      ∧ (m.take look).answer.toOption.bind Answer.shownName? = some "ANN" := by
  decide +kernel

end Questline
