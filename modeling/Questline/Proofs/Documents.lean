import Questline.Proofs.Legibility

/-!
# Texts in the place of journals

A repository that keeps journals as texts serves an engine just as one that keeps them as they
are, as long as all that is written can be read again (`Engine.run_inMemory`,
`Host.converse_inMemory`). Both hold the journals that were written, so the one is the other
with each journal as its text: `inMemory` gives the engine with the texts read. What holds of
every run over a table of journals can so be carried over to a database.
-/

namespace Questline

open Json

/-- A text can hold a value as a variable of a journal. -/
def Value.Writable (v : Value) : Prop := Fits (nestingLimit - 4) v.tree

theorem Value.Writable.numeric {v : Value} (h : v.Writable) : v.Numeric := Fits.numbers h

/-! ## Repositories -/

/-- Both repositories find the same, if all that was written can be read. -/
theorem DocumentRepository.lookup_eq_stored? {js : List Journal} (h : ∀ j ∈ js, j.Writable)
    (username : String) :
    (ofJournals js).lookup username = .ok ((MemoryRepository.ofJournals js).stored? username) := by
  have hnumeric : ∀ j ∈ js, j.Vars Value.Numeric := fun j hj a ha e he =>
    Value.Writable.numeric (h j hj a ha e he)
  rw [lookup_ofJournals hnumeric, MemoryRepository.stored?_ofJournals, found]
  cases hlast : lastSaved js.reverse username with
  | none => rfl
  | some j =>
    have hj : j ∈ js := List.mem_reverse.mp (List.mem_of_find?_eq_some hlast)
    exact if_pos ((Journal.writable_iff (hnumeric j hj)).mp (h j hj))

/-! ## Stores -/

/-- A store over texts with the journals `js` that were written in their place. -/
def Store.inMemory (js : List Journal) (s : Store DocumentRepository) : Store MemoryRepository :=
  ⟨.ofJournals js, s.slots, s.limit⟩

def Visit.inMemory {α : Type} (js : List Journal) (v : Visit DocumentRepository α) :
    Visit MemoryRepository α :=
  ⟨v.store.inMemory (js ++ saved v.accesses), v.accesses, v.result⟩

namespace Store.Wrote

variable {js : List Journal} {s : Store DocumentRepository}

theorem load_inMemory (h : s.Wrote Value.Writable js) (c : Circumstances) (username : String) :
    Repository.load (s.inMemory js).repository s.limit c username
      = Repository.load s.repository s.limit c username := by
  unfold Repository.load
  cases c.loadFault with
  | some fault => rfl
  | none =>
    dsimp only
    rw [h.repository]
    exact congrArg _ (DocumentRepository.lookup_eq_stored? h.written username).symm

theorem fetch_inMemory (h : s.Wrote Value.Writable js) (c : Circumstances) (username : String) :
    (s.inMemory js).fetch c username = (s.fetch c username).inMemory js := by
  have hjournal : (s.inMemory js).journal? username = s.journal? username := rfl
  have hload := h.load_inMemory c username
  unfold Store.fetch
  rw [hjournal, show (s.inMemory js).limit = s.limit from rfl, hload]
  cases s.journal? username with
  | some j => simp [Visit.inMemory]
  | none =>
    cases Repository.load s.repository s.limit c username with
    | ok j =>
      have hsaved : saved [.load username true] = [] := rfl
      simp only [Visit.inMemory, hsaved, List.append_nil]
      rfl
    | error e =>
      have hsaved : saved [.load username false] = [] := rfl
      simp only [Visit.inMemory, hsaved, List.append_nil]
      rfl

end Store.Wrote

theorem Store.persist_inMemory (js : List Journal) (s : Store DocumentRepository)
    (c : Circumstances) (username : String) :
    (s.inMemory js).persist c username = (s.persist c username).inMemory js := by
  have hslot : (s.inMemory js).slot? username = s.slot? username := rfl
  unfold Store.persist
  rw [hslot]
  split
  · rename_i j dirty _
    cases hc : c.saveFault with
    | some fault =>
      simp only [Repository.write, hc, Visit.inMemory, saved_failed, List.append_nil]
      rfl
    | none =>
      have hsaved : saved [.save (j.touch c.savedAt) true] = [j.touch c.savedAt] := rfl
      simp only [Repository.write, hc, Visit.inMemory, hsaved]
      simp only [Store.inMemory, Store.setSlot, MemoryRepository.ofJournals_concat]
      rfl
  · simp only [Visit.inMemory, saved_nil, List.append_nil]

theorem Store.evict_inMemory (js : List Journal) (s : Store DocumentRepository)
    (c : Circumstances) (username : String) :
    (s.inMemory js).evict c username = (s.evict c username).inMemory js := by
  have hslot : (s.inMemory js).slot? username = s.slot? username := rfl
  have hpersist := s.persist_inMemory js c username
  unfold Store.evict
  rw [hslot, hpersist]
  cases s.slot? username with
  | none => simp only [Visit.inMemory, saved_nil, List.append_nil]
  | some slot =>
    cases slot with
    | unloaded =>
      simp only [Visit.inMemory, saved_nil, List.append_nil]
      rfl
    | loaded j dirty =>
      cases dirty with
      | false =>
        simp only [Visit.inMemory, saved_nil, List.append_nil]
        rfl
      | true =>
        generalize s.persist c username = v
        obtain ⟨s', accesses, result⟩ := v
        cases result with
        | ok _ => rfl
        | error e => rfl

/-! ## Engines and hosts -/

/-- An engine over texts with the journals `js` that were written in their place. -/
def Engine.inMemory (js : List Journal) (e : Engine DocumentRepository) :
    Engine MemoryRepository := ⟨e.catalog, e.store.inMemory js⟩

def Outcome.inMemory (js : List Journal) (o : Outcome DocumentRepository) :
    Outcome MemoryRepository :=
  ⟨o.engine.inMemory (js ++ saved o.accesses), o.accesses, o.news, o.answer⟩

variable {js : List Journal} {e : Engine DocumentRepository}

theorem Engine.run_inMemory (h : e.store.Wrote Value.Writable js) (c : Circumstances)
    (op : Operation) : (e.inMemory js).run c op = (e.run c op).inMemory js := by
  have hplan : op.plan (e.inMemory js).catalog c.now = op.plan e.catalog c.now := rfl
  unfold run
  rw [hplan]
  cases op.plan e.catalog c.now with
  | settled answer => simp only [Outcome.inMemory, saved_nil, List.append_nil]
  | evict username =>
    have hevict := e.store.evict_inMemory js c username
    simp only [show (e.inMemory js).store = e.store.inMemory js from rfl, hevict]
    rfl
  | consult username rule =>
    obtain ⟨-, hnothing, -⟩ := h.fetch (fun _ hv => hv.numeric) c username
    have hfetch := h.fetch_inMemory c username
    dsimp only
    unfold consult
    rw [show (e.inMemory js).store = e.store.inMemory js from rfl, hfetch]
    generalize e.store.fetch c username = v at hnothing
    obtain ⟨s, accesses, result⟩ := v
    dsimp only at hnothing
    simp only [Visit.inMemory, hnothing, List.append_nil]
    cases result with
    | error err => simp only [Outcome.inMemory, hnothing, List.append_nil]; rfl
    | ok j =>
      dsimp only
      cases rule j with
      | look answer => simp only [Outcome.inMemory, hnothing, List.append_nil]; rfl
      | handle i answer => simp only [Outcome.inMemory, hnothing, List.append_nil]; rfl
      | commit i news answer =>
        have hpersist := (s.revise username i).persist_inMemory js c username
        have hrevise : (s.inMemory js).revise username i = (s.revise username i).inMemory js := rfl
        dsimp only
        rw [hrevise, hpersist]
        simp only [Outcome.inMemory, saved_append, hnothing, List.nil_append]
        rfl

/-- Whatever a turn sets a variable to has a property. -/
def Turn.Sets (P : Value → Prop) : Turn → Prop
  | .perform _ op => op.Sets P
  | .reload _ => True

/-- A run over texts that can all be read is one over journals. -/
theorem Engine.after_inMemory (h : e.store.Wrote Value.Writable js) {turns : List Turn}
    (hturns : ∀ t ∈ turns, t.Sets Value.Writable) :
    ∃ js', (e.after turns).store.Wrote Value.Writable js'
      ∧ (e.inMemory js).after turns = (e.after turns).inMemory js' := by
  induction turns generalizing e js with
  | nil => exact ⟨js, h, rfl⟩
  | cons t turns ih =>
    have hlater : ∀ t' ∈ turns, t'.Sets Value.Writable := fun t' ht' =>
      hturns t' (List.mem_cons_of_mem _ ht')
    cases t with
    | reload catalog => exact ih (e := e.reload catalog) h hlater
    | perform c op =>
      have hop : op.Sets Value.Writable := hturns _ List.mem_cons_self
      obtain ⟨js', hwrote, hafter⟩ := ih (run_wrote (fun _ hv => hv.numeric) h c hop) hlater
      refine ⟨js', hwrote, ?_⟩
      simp only [after, take, run_inMemory h c op]
      exact hafter

/-! ## What was acknowledged is stored as a text -/

/-- An engine that starts anew over texts that can all be read finds what one over journals does. -/
theorem Engine.fetch_restart_inMemory (h : e.store.Wrote Value.Writable js) (c : Circumstances)
    (username : String) :
    ((e.inMemory js).restart.store.fetch c username).result
      = (e.restart.store.fetch c username).result := by
  have hrestart : e.restart.store.Wrote Value.Writable js :=
    ⟨h.repository, h.written, fun _ _ _ hslot => by cases hslot⟩
  exact congrArg Visit.result (hrestart.fetch_inMemory c username)

/-- A journal that is stored as it is lies as a text under the name of its player. -/
theorem Store.Wrote.document_of_record {s : Store DocumentRepository} {P : Value → Prop}
    (h : s.Wrote P js) {key : String} {r : Option Journal}
    (hr : (s.inMemory js).records.get? key = r) :
    s.repository.documents.get? key = r.map DocumentRepository.encode := by
  rw [h.repository, DocumentRepository.get?_ofJournals]
  exact congrArg _ hr

/-- What is true of journals that were written through (`written_through`) is true of their
texts, as long as no turn sets a variable that a text cannot hold: a journal in use that does not
count as unsaved is the one whose text is stored, and after an operation that reports a change,
an engine that starts anew over the texts reads the journal that was in use. -/
theorem documents_written_through (catalog : Catalog) (js : List Journal)
    (hjs : ∀ j ∈ js, j.Writable) (limit : Nat) (turns : List Turn)
    (hturns : ∀ t ∈ turns, t.Sets Value.Writable) :
    let e := (Engine.new catalog (DocumentRepository.ofJournals js) limit).after turns
    (∀ key j, e.store.slots.get? key = some (.loaded j false) →
      e.store.repository.documents.get? key = some (DocumentRepository.encode j)
        ∨ e.store.repository.documents.get? key = none ∧ j.log = .blank)
    ∧ ∀ c op j answer, op.Sets Value.Writable →
      (e.store.fetch c op.username).result = .ok j → (e.run c op).answer = .ok answer →
      op.reports j answer = true →
      ∃ rule i, op.plan e.catalog c.now = .consult op.username rule
        ∧ i.log = ((rule j).journal j).log
        ∧ (e.run c op).engine.store.slots.get? (playerKey op.username) = some (.loaded i false)
        ∧ (e.run c op).engine.store.repository.documents.get? (playerKey op.username)
          = some (DocumentRepository.encode i)
        ∧ ∀ c' username, playerKey username = playerKey op.username → c'.loadFault = none →
          ((e.run c op).engine.restart.store.fetch c' username).result = .ok i := by
  intro e
  obtain ⟨js', hwrote, hafter⟩ :=
    Engine.after_inMemory (e := .new catalog (.ofJournals js) limit) (.new hjs limit) hturns
  have hsound : (e.inMemory js').store.Sound := by
    rw [← hafter]
    exact Engine.after_sound (Store.sound_new (keyed_ofJournals js) limit) turns
  refine ⟨fun key j hslot => ?_, fun c op j answer hop hfound hanswer hreports => ?_⟩
  · rcases (hsound key).clean j hslot with hrecord | ⟨hrecord, hblank⟩
    · exact Or.inl (hwrote.document_of_record hrecord)
    · exact Or.inr ⟨hwrote.document_of_record hrecord, hblank⟩
  · have hrun := Engine.run_inMemory hwrote c op
    have hopened : j = (e.inMemory js').store.opened c op.username :=
      Engine.fetch_result_eq_opened
        ((congrArg Visit.result (hwrote.fetch_inMemory c op.username)).trans hfound)
    subst hopened
    have hanswer' : ((e.inMemory js').run c op).answer = .ok answer := by
      rw [hrun]
      exact hanswer
    obtain ⟨rule, i, hplan, hlog, hdurable⟩ := Engine.durable_of_reports hsound hanswer' hreports
    rw [hrun] at hdurable
    have hwritten := Engine.run_wrote (fun _ hv => hv.numeric) hwrote c hop
    refine ⟨rule, i, hplan, hlog, hdurable.clean, hwritten.document_of_record hdurable.stored, ?_⟩
    intro c' username hkey hload
    rw [← Engine.fetch_restart_inMemory hwritten]
    exact hdurable.found c' username hkey hload

namespace Host

def Transcript.inMemory (js : List Journal) (t : Transcript DocumentRepository) :
    Transcript MemoryRepository := ⟨t.engine.inMemory js, t.replies, t.news⟩

theorem respond_inMemory (h : e.store.Wrote Value.Writable js) (c : Circumstances)
    (text : String) :
    respond (e.inMemory js) c text
      = ⟨(respond e c text).engine.inMemory (js ++ saved (respond e c text).accesses),
          (respond e c text).accesses, (respond e c text).news, (respond e c text).reply⟩ := by
  unfold respond
  cases Line.ofText text with
  | blank => simp only [saved_nil, List.append_nil]
  | invalid => simp only [saved_nil, List.append_nil]
  | command op =>
    simp only [Engine.run_inMemory h c op]
    rfl

/-- A host over texts that can all be read answers as one over journals. -/
theorem converse_inMemory (h : e.store.Wrote Value.Writable js)
    {lines : List (Circumstances × String)} (hlines : ∀ l ∈ lines, Sets Value.Writable l.2) :
    converse (e.inMemory js) lines = (converse e lines).inMemory (js ++ savings e lines) := by
  induction lines generalizing e js with
  | nil =>
    rw [savings, List.append_nil]
    rfl
  | cons l lines ih =>
    obtain ⟨c, text⟩ := l
    have hfirst := respond_wrote (fun _ hv => hv.numeric) h c (hlines _ List.mem_cons_self)
    have hlater := ih hfirst fun l hl => hlines l (List.mem_cons_of_mem _ hl)
    rw [savings, ← List.append_assoc]
    simp only [converse, respond_inMemory h, hlater]
    rfl

end Host

end Questline
