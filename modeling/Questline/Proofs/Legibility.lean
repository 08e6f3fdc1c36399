import Mathlib.Data.List.Induction
import Questline.Host.Session
import Questline.Proofs.Durability
import Questline.Proofs.Nesting

/-!
# What can be read again

A host that keeps journals as texts takes every value as a variable that its own lines can
carry, and writes every journal. Whether it can read a journal again is another matter: a line
puts a value within one record, a text within four lists and records, and both are read to the
same depth. So a value nested almost as deeply as a line can hold is accepted, acknowledged and
written, and from then on nobody can load the player.

What the host does is said for every run (`found_by_depth`), whatever fails in it. The repository
holds just the journals that were written. Once a player is no longer in use, after a restart or
a logout, the next access finds the journal that was last written, an empty one if none was, or
an error, and which of these is decided by the depth of the variables alone. As long as no line
sets a variable nested deeper than the limit less four, all that is written can be read.
-/

namespace Questline

open Json

/-! ## What was written -/

/-- The journal that an access wrote. -/
def Access.saved? : Access → Option Journal
  | save j true => some j
  | _ => none

/-- The journals that accesses wrote, in order. -/
def saved (accesses : List Access) : List Journal := accesses.filterMap Access.saved?

@[simp] theorem saved_nil : saved [] = [] := rfl

@[simp] theorem saved_failed (j : Journal) : saved [.save j false] = [] := rfl

theorem saved_append (as bs : List Access) : saved (as ++ bs) = saved as ++ saved bs :=
  List.filterMap_append

/-- The journals that are written while lines are answered, in order. -/
def Host.savings {ρ : Type} [Repository ρ] (e : Engine ρ) :
    List (Circumstances × String) → List Journal
  | [] => []
  | (c, text) :: rest =>
    let first := respond e c text
    saved first.accesses ++ savings first.engine rest

/-! ## What a repository finds -/

theorem MemoryRepository.ofJournals_concat (js : List Journal) (j : Journal) :
    ofJournals (js ++ [j]) = (ofJournals js).keep j := List.foldl_append

/-- A repository holds of each player the journal that was last written. -/
theorem MemoryRepository.stored?_ofJournals (js : List Journal) (username : String) :
    (ofJournals js).stored? username = lastSaved js.reverse username := by
  induction js using List.reverseRecOn with
  | nil => rfl
  | append_singleton js j ih =>
    rw [ofJournals_concat, List.reverse_append, List.reverse_singleton, List.singleton_append,
      lastSaved_cons, ← ih]
    simp only [stored?, MemoryRepository.keep, Dict.get?_insert, eq_comm]

namespace DocumentRepository

theorem ofJournals_concat (js : List Journal) (j : Journal) :
    ofJournals (js ++ [j]) = (ofJournals js).keep j := List.foldl_append

/-- A repository of texts holds the texts of the journals that one of journals holds. -/
theorem get?_ofJournals (js : List Journal) (key : String) :
    (ofJournals js).documents.get? key
      = ((MemoryRepository.ofJournals js).records.get? key).map encode := by
  induction js using List.reverseRecOn with
  | nil => rfl
  | append_singleton js j ih =>
    rw [ofJournals_concat, MemoryRepository.ofJournals_concat]
    simp only [keep, MemoryRepository.keep, Dict.get?_insert, ih]
    split <;> rfl

/-- Under the name of each player lies the text of the journal that was last written. -/
theorem documents_ofJournals (js : List Journal) (username : String) :
    (ofJournals js).documents.get? (playerKey username)
      = (lastSaved js.reverse username).map encode := by
  rw [get?_ofJournals]
  exact congrArg (Option.map encode) (MemoryRepository.stored?_ofJournals js username)

/-- What is found of a player after journals were written: the last of the player's, if it is
not nested too deeply. -/
def found (js : List Journal) (username : String) : Except StoreError (Option Journal) :=
  match lastSaved js.reverse username with
  | none => .ok none
  | some j => if j.Shallow then .ok (some j) else .error (.unreadable (depthMessage (encode j)))

theorem lookup_ofJournals {js : List Journal} (h : ∀ j ∈ js, j.Vars Value.Numeric)
    (username : String) : (ofJournals js).lookup username = found js username := by
  unfold lookup found
  rw [documents_ofJournals]
  cases hlast : lastSaved js.reverse username with
  | none => rfl
  | some j =>
    have hj : j ∈ js := List.mem_reverse.mp (List.mem_of_find?_eq_some hlast)
    simp only [Option.map_some, decode?_encode_eq (h j hj)]
    by_cases hshallow : j.Shallow
    · rw [if_pos hshallow, if_pos hshallow]
    · rw [if_neg hshallow, if_neg hshallow]

theorem mem_of_found {js : List Journal} {username : String} {j : Journal}
    (h : found js username = .ok (some j)) : j ∈ js := by
  unfold found at h
  split at h
  · cases h
  · rename_i hlast
    split at h
    · cases h
      exact List.mem_reverse.mp (List.mem_of_find?_eq_some hlast)
    · cases h

end DocumentRepository

/-! ## One access -/

variable {P : Value → Prop} {js : List Journal}

/-- The repository holds the journals that were written, and all variables of these and of the
journals in use have a property. -/
structure Store.Wrote (P : Value → Prop) (js : List Journal) (s : Store DocumentRepository) :
    Prop where
  repository : s.repository = .ofJournals js
  written : ∀ j ∈ js, j.Vars P
  inUse : ∀ key j dirty, s.slots.get? key = some (.loaded j dirty) → j.Vars P

namespace Store.Wrote

variable {s : Store DocumentRepository}

theorem new (hjs : ∀ j ∈ js, j.Vars P) (limit : Nat) :
    (Store.new (.ofJournals js) limit).Wrote P js :=
  ⟨rfl, hjs, fun _ _ _ h => by cases h⟩

theorem setSlot (h : s.Wrote P js) (username : String) {slot : Slot}
    (hslot : ∀ j dirty, slot = .loaded j dirty → j.Vars P) :
    (s.setSlot username slot).Wrote P js := by
  refine ⟨h.repository, h.written, fun key j dirty hj => ?_⟩
  rw [Store.setSlot, Dict.get?_insert] at hj
  split at hj
  · exact hslot j dirty (Option.some.inj hj)
  · exact h.inUse key j dirty hj

theorem loaded (h : s.Wrote P js) (username : String) {j : Journal} (hj : j.Vars P)
    (dirty : Bool) : (s.setSlot username (.loaded j dirty)).Wrote P js := by
  refine h.setSlot username fun i dirty' hi => ?_
  cases hi
  exact hj

theorem release (h : s.Wrote P js) (username : String) : (s.release username).Wrote P js := by
  refine ⟨h.repository, h.written, fun key j dirty hj => ?_⟩
  rw [Store.release, Dict.get?_erase] at hj
  split at hj
  · cases hj
  · exact h.inUse key j dirty hj

theorem save (h : s.Wrote P js) {j : Journal} (hj : j.Vars P) :
    ({ s with repository := Repository.save s.repository j } : Store DocumentRepository).Wrote P
      (js ++ [j]) := by
  refine ⟨?_, ?_, h.inUse⟩
  · rw [DocumentRepository.ofJournals_concat, ← h.repository]
    rfl
  · intro i hi
    rcases List.mem_append.mp hi with hi | hi
    · exact h.written i hi
    · rw [List.mem_singleton.mp hi]
      exact hj

/-- What is loaded where no journal is in use. -/
theorem load (hP : ∀ v, P v → v.Numeric) (h : s.Wrote P js) {c : Circumstances}
    (hc : c.loadFault = none) (username : String) :
    Repository.load s.repository s.limit c username
      = (DocumentRepository.found js username).map
          (·.getD (Journal.empty username c.openedAt)) := by
  have hnumeric : ∀ j ∈ js, j.Vars Value.Numeric := fun j hj a ha e he =>
    hP _ (h.written j hj a ha e he)
  simp only [Repository.load, hc]
  rw [h.repository]
  exact congrArg _ (DocumentRepository.lookup_ofJournals hnumeric username)

theorem vars_load (hP : ∀ v, P v → v.Numeric) (h : s.Wrote P js) {c : Circumstances}
    {username : String} {j : Journal}
    (hj : Repository.load s.repository s.limit c username = .ok j) : j.Vars P := by
  cases hc : c.loadFault with
  | some fault =>
    rw [Repository.load, hc] at hj
    cases hj
  | none =>
    rw [h.load hP hc] at hj
    cases hfound : DocumentRepository.found js username with
    | error e =>
      rw [hfound] at hj
      cases hj
    | ok found =>
      rw [hfound] at hj
      cases found with
      | none =>
        cases hj
        exact Journal.vars_empty username c.openedAt
      | some i =>
        cases hj
        exact h.written _ (DocumentRepository.mem_of_found hfound)

/-- An access writes nothing, and what it finds has the variables that were written. -/
theorem fetch (hP : ∀ v, P v → v.Numeric) (h : s.Wrote P js) (c : Circumstances)
    (username : String) :
    (s.fetch c username).store.Wrote P js ∧ saved (s.fetch c username).accesses = []
      ∧ ∀ j, (s.fetch c username).result = .ok j → j.Vars P := by
  unfold Store.fetch
  split
  · rename_i i hi
    refine ⟨h, rfl, fun j hj => ?_⟩
    cases hj
    unfold Store.journal? at hi
    split at hi
    · rename_i dirty hslot
      cases hi
      exact h.inUse _ _ dirty hslot
    · cases hi
  · split
    · rename_i i hi
      have hvars : i.Vars P := h.vars_load hP hi
      refine ⟨h.loaded username hvars false, rfl, fun j hj => ?_⟩
      cases hj
      exact hvars
    · refine ⟨h.setSlot username fun j dirty hj => ?_, rfl, fun j hj => ?_⟩
      · cases hj
      · cases hj

/-- A write adds the journal in use to what was written, or nothing if it fails. -/
theorem persist (h : s.Wrote P js) (c : Circumstances) (username : String) :
    (s.persist c username).store.Wrote P (js ++ saved (s.persist c username).accesses) := by
  unfold Store.persist
  split
  · rename_i j dirty hslot
    have hvars : (j.touch c.savedAt).Vars P := h.inUse _ j dirty hslot
    cases hc : c.saveFault with
    | some fault =>
      simp only [Repository.write, hc]
      rw [saved_failed, List.append_nil]
      exact h.loaded username hvars dirty
    | none =>
      simp only [Repository.write, hc]
      exact (h.save hvars).loaded username hvars false
  · rw [saved_nil, List.append_nil]
    exact h

theorem evict (h : s.Wrote P js) (c : Circumstances) (username : String) :
    (s.evict c username).store.Wrote P (js ++ saved (s.evict c username).accesses) := by
  have hevicted := s.evicted c username
  have hwrote := h.persist c username
  generalize s.evict c username = v at hevicted ⊢
  cases hevicted with
  | absent =>
      rw [saved_nil, List.append_nil]
      exact h
  | unloaded | clean =>
      rw [saved_nil, List.append_nil]
      exact h.release username
  | refused j fault hslot hfault =>
      rw [Store.persist_refused hslot hfault] at hwrote
      exact hwrote
  | stored j s' _ _ hpersist =>
      rw [hpersist] at hwrote
      exact hwrote.release username

end Store.Wrote

/-! ## Operations and lines -/

/-- Whatever an operation sets a variable to has a property. -/
def Operation.Sets (P : Value → Prop) (op : Operation) : Prop :=
  ∀ username quest key value, op = .setVariable username quest key value → P value

theorem Engine.run_wrote {e : Engine DocumentRepository} (hP : ∀ v, P v → v.Numeric)
    (h : e.store.Wrote P js) (c : Circumstances) {op : Operation} (hop : op.Sets P) :
    (e.run c op).engine.store.Wrote P (js ++ saved (e.run c op).accesses) := by
  cases hplan : op.plan e.catalog c.now with
  | settled answer =>
    rw [run, hplan]
    rw [saved_nil, List.append_nil]
    exact h
  | evict username =>
    rw [run, hplan]
    exact h.evict c username
  | consult username rule =>
    obtain ⟨hfetched, hnothing, hfound⟩ := h.fetch hP c username
    rw [show e.run c op = e.consult c username rule by simp only [run, hplan], consult]
    generalize e.store.fetch c username = visit at hfetched hnothing hfound
    obtain ⟨s, accesses, result⟩ := visit
    dsimp only at hfetched hnothing hfound
    cases result with
    | error err =>
      dsimp only
      rw [hnothing, List.append_nil]
      exact hfetched
    | ok j =>
      have hvars := Operation.vars hplan hop (hfound j rfl)
      cases hrule : rule j with
      | look answer =>
        simp only [hrule]
        rw [hnothing, List.append_nil]
        exact hfetched
      | handle i answer =>
        simp only [hrule]
        rw [hrule] at hvars
        rw [hnothing, List.append_nil]
        exact hfetched.loaded username hvars true
      | commit i news answer =>
        simp only [hrule]
        rw [hrule] at hvars
        rw [saved_append, hnothing, List.nil_append]
        exact (hfetched.loaded username hvars true).persist c username

namespace Host

/-- Whatever a line sets a variable to has a property. -/
def Sets (P : Value → Prop) (text : String) : Prop :=
  ∀ op, Line.ofText text = .command op → op.Sets P

theorem respond_wrote {e : Engine DocumentRepository} (hP : ∀ v, P v → v.Numeric)
    (h : e.store.Wrote P js) (c : Circumstances) {text : String} (htext : Sets P text) :
    (respond e c text).engine.store.Wrote P (js ++ saved (respond e c text).accesses) := by
  unfold respond
  split
  · rw [saved_nil, List.append_nil]
    exact h
  · rw [saved_nil, List.append_nil]
    exact h
  · rename_i op hline
    exact Engine.run_wrote hP h c (htext op hline)

theorem converse_wrote {e : Engine DocumentRepository} (hP : ∀ v, P v → v.Numeric)
    (h : e.store.Wrote P js) {lines : List (Circumstances × String)}
    (hlines : ∀ l ∈ lines, Sets P l.2) :
    (converse e lines).engine.store.Wrote P (js ++ savings e lines) := by
  induction lines generalizing e js with
  | nil =>
    rw [savings, List.append_nil]
    exact h
  | cons l lines ih =>
    obtain ⟨c, text⟩ := l
    have hfirst := respond_wrote hP h c (hlines _ List.mem_cons_self)
    rw [savings, ← List.append_assoc]
    exact ih hfirst fun l hl => hlines l (List.mem_cons_of_mem _ hl)

end Host

/-! ## The whole run -/

/-- After an eviction whose save works no journal of the player is in use. -/
theorem Store.journal?_evict {ρ : Type} [Repository ρ] (s : Store ρ) {c : Circumstances}
    (hc : c.saveFault = none) (username : String) :
    (s.evict c username).store.journal? username = none := by
  have hreleased : ∀ s : Store ρ, (s.release username).journal? username = none := by
    intro s
    simp only [journal?, slot?_release]
  have hevicted := s.evicted c username
  generalize s.evict c username = v at hevicted ⊢
  cases hevicted with
  | absent hslot => simp only [journal?, hslot]
  | unloaded | clean | stored => exact hreleased _
  | refused j fault _ hfault => cases hfault.symm.trans hc

/-- What the next access finds where no journal is in use. -/
theorem Store.Wrote.result_fetch {s : Store DocumentRepository} (hP : ∀ v, P v → v.Numeric)
    (h : s.Wrote P js) {c : Circumstances} (hc : c.loadFault = none) {username : String}
    (hunused : s.journal? username = none) :
    (s.fetch c username).result
      = (DocumentRepository.found js username).map
          (·.getD (Journal.empty username c.openedAt)) := by
  rw [← h.load hP hc]
  unfold Store.fetch
  rw [hunused]
  dsimp only
  split
  · rename_i hload
    exact hload.symm
  · rename_i hload
    exact hload.symm

/-- **What was written is found by its depth.** Whatever lines a host answers over a database and
whatever fails, the database holds the journals that were written, no more and no less. A player
who is evicted is not in use, and where a player is not in use, as nobody is after a restart, the
next access finds the journal last written as it was, an empty one if none was, or an error if
its variables are nested deeper than a text can hold. None are as long as no line sets such a
variable. -/
theorem found_by_depth (catalog : Catalog) (limit : Nat) (js : List Journal)
    (hjs : ∀ j ∈ js, j.Vars Value.Numeric) (lines : List (Circumstances × String))
    (hlines : ∀ l ∈ lines, Host.Sets Value.Numeric l.2) :
    let e := Engine.new catalog (DocumentRepository.ofJournals js) limit
    let e' := (Host.converse e lines).engine
    let written := js ++ Host.savings e lines
    e'.store.repository = .ofJournals written
    ∧ (∀ c username, c.loadFault = none → e'.store.journal? username = none →
        (e'.store.fetch c username).result
          = (DocumentRepository.found written username).map
              (·.getD (Journal.empty username c.openedAt)))
    ∧ (∀ c username, c.loadFault = none →
        (e'.restart.store.fetch c username).result
          = (DocumentRepository.found written username).map
              (·.getD (Journal.empty username c.openedAt)))
    ∧ (∀ c username, c.saveFault = none →
        (e'.run c (.evict username)).engine.store.journal? username = none)
    ∧ ((∀ j ∈ js, j.Shallow) →
        (∀ l ∈ lines, Host.Sets (fun v => v.tree.depth ≤ nestingLimit - 4) l.2) →
        ∀ j ∈ written, j.Shallow) := by
  intro e e' written
  have hwrote : e'.store.Wrote Value.Numeric written :=
    Host.converse_wrote (fun _ h => h) (.new hjs limit) hlines
  have hrestart : e'.restart.store.Wrote Value.Numeric written := by
    rw [show e'.restart.store = Store.new e'.store.repository e'.store.limit from rfl,
      hwrote.repository]
    exact .new hwrote.written _
  refine ⟨hwrote.repository, fun c username hc => hwrote.result_fetch (fun _ h => h) hc,
    fun c username hc => hrestart.result_fetch (fun _ h => h) hc rfl,
    fun c username hc => e'.store.journal?_evict hc username, fun hshallow hdepths => ?_⟩
  have hboth : (Store.new (.ofJournals js) limit).Wrote
      (fun v => v.Numeric ∧ v.tree.depth ≤ nestingLimit - 4) js :=
    .new (fun j hj a ha x hx => ⟨hjs j hj a ha x hx, hshallow j hj a ha x hx⟩) limit
  have hsets : ∀ l ∈ lines,
      Host.Sets (fun v => v.Numeric ∧ v.tree.depth ≤ nestingLimit - 4) l.2 := by
    intro l hl op hop username quest key value hset
    exact ⟨hlines l hl op hop username quest key value hset,
      hdepths l hl op hop username quest key value hset⟩
  have hall : e'.store.Wrote (fun v => v.Numeric ∧ v.tree.depth ≤ nestingLimit - 4) written :=
    Host.converse_wrote (fun _ h => h.1) hboth hsets
  exact fun j hj a ha x hx => (hall.written j hj a ha x hx).2

/-! ## A hoard of boxes -/

/-- A command that was written by the printer is read from its line. -/
theorem Host.ofText_write {ms : List (String × Datum)} {op : Operation} (hms : ms ≠ [])
    (hfits : Fits nestingLimit (.record ms)) (hop : command? (.record ms) = some op) :
    Line.ofText (Json.write (.record ms)) = .command op := by
  have hblank : (Json.write (.record ms)).toList.all Text.isBlank = false := by
    cases ms with
    | nil => exact absurd rfl hms
    | cons m ms =>
      rw [toList_write_record, List.all_cons]
      rfl
  simp only [Line.ofText, hblank, Bool.false_eq_true, if_false, read?_write hfits,
    Option.bind_some, hop]

/-- Boxes within boxes. -/
def boxes : Nat → Datum
  | 0 => .null
  | n + 1 => .list [boxes n]

theorem depth_boxes (n : Nat) : (boxes n).depth = n := by
  induction n with
  | zero => rfl
  | succ n ih => simp [boxes, Datum.depth, Datum.depthItems, ih]

theorem tree_boxes (n : Nat) : (Value.ofDatum (boxes n)).tree = boxes n := by
  have hcanonical : (boxes n).canonical = boxes n := by
    induction n with
    | zero => rfl
    | succ n ih => simp [boxes, Datum.canonical, Datum.canonicalItems, ih]
  exact hcanonical

theorem holdsNumbers_boxes (n : Nat) : holdsNumbers (boxes n) = true := by
  induction n with
  | zero => rfl
  | succ n ih => simp [boxes, holdsNumbers, holdsItems, ih]

/-- Ann takes up the hunt, puts so many boxes into a variable and leaves. -/
def hoardCommands (n : Nat) : List (List (String × Datum)) :=
  [[("type", .text "startQuest"), ("player", .record [("username", .text "ann")]),
      ("quest_id", .text "rats")],
    [("type", .text "setVariable"), ("username", .text "ann"), ("quest_id", .text "rats"),
      ("key", .text "hoard"), ("value", boxes n)],
    [("type", .text "logout"), ("username", .text "ann")]]

def hoardLines (n : Nat) : List (Circumstances × String) :=
  (hoardCommands n).map fun ms => (.calm .epoch, Json.write (.record ms))

/-- A host with one quest and an empty database. -/
def hoardHost : Engine DocumentRepository :=
  .new (.ofQuests [ratHunt]) (.ofJournals []) 5000

/-- Ann as she is on the hunt. -/
def hunter (vars : Dict Value) : Journal where
  username := "ann"
  active :=
    [{ quest := "rats"
       step := "cull"
       startedAt := .epoch
       progress := Dict.ofList
        [("cull", ⟨false, .epoch, none, Dict.ofList [("kills", ⟨0, 2, false⟩)]⟩)]
       vars := vars }]
  completed := []
  failed := []
  lastUpdated := .epoch

def hoarder (n : Nat) : Journal := hunter (Dict.ofList [("hoard", .ofDatum (boxes n))])

/-- A line can hold as many boxes as a text can, less the one that is the line itself. -/
theorem hoard_read {n : Nat} (hn : n < nestingLimit) :
    (hoardLines n).map (Host.Line.ofText ·.2)
      = [.command (.start (.named "ann" 0) "rats" false none),
        .command (.setVariable "ann" "rats" "hoard" (.ofDatum (boxes n))),
        .command (.evict "ann")] := by
  have hset : ∀ m ∈ [("type", .text "setVariable"), ("username", .text "ann"),
      ("quest_id", .text "rats"), ("key", .text "hoard"), ("value", boxes n)],
      Fits (nestingLimit - 1) m.2 := by
    intro m hm
    simp only [List.mem_cons, List.not_mem_nil, or_false] at hm
    rcases hm with rfl | rfl | rfl | rfl | rfl
    · exact fits_text _ _
    · exact fits_text _ _
    · exact fits_text _ _
    · exact fits_text _ _
    · exact ⟨holdsNumbers_boxes n, by rw [depth_boxes]; omega⟩
  simp only [hoardLines, hoardCommands, List.map_cons, List.map_nil]
  rw [Host.ofText_write (List.cons_ne_nil _ _) (by decide) (by rfl),
    Host.ofText_write (List.cons_ne_nil _ _) (fits_record hset) (by rfl),
    Host.ofText_write (List.cons_ne_nil _ _) (by decide) (by rfl)]
  rfl

/-- All is acknowledged, and what was written last is the journal with the boxes. -/
theorem hoard_written {n : Nat} (hn : n < nestingLimit) :
    (Host.converse hoardHost (hoardLines n)).replies
        = [.questStarted "rats" "cull", .ack true, .ack true]
      ∧ Host.savings hoardHost (hoardLines n) = [hunter ∅, hoarder n] := by
  have hread := hoard_read hn
  simp only [hoardLines, hoardCommands, List.map_cons, List.map_nil, List.cons.injEq, and_true]
    at hread
  obtain ⟨hstart, hset, hleave⟩ := hread
  simp only [hoardLines, hoardCommands, List.map_cons, List.map_nil, Host.converse, Host.savings,
    Host.respond, hstart, hset, hleave]
  exact ⟨by rfl, by rfl⟩

theorem vars_hoarder {P : Value → Prop} {n : Nat} :
    (hoarder n).Vars P ↔ P (.ofDatum (boxes n)) := by
  constructor
  · intro h
    exact h _ List.mem_cons_self ("hoard", .ofDatum (boxes n)) List.mem_cons_self
  · intro h a ha x hx
    rw [List.mem_singleton.mp ha] at hx
    rw [List.mem_singleton.mp hx]
    exact h

theorem numeric_boxes (n : Nat) : (Value.ofDatum (boxes n)).Numeric := by
  rw [Value.Numeric, tree_boxes]
  exact holdsNumbers_boxes n

theorem shallow_hoarder (n : Nat) : (hoarder n).Shallow ↔ n ≤ nestingLimit - 4 := by
  rw [Journal.Shallow, vars_hoarder, tree_boxes, depth_boxes]

theorem hoard_sets {n : Nat} (hn : n < nestingLimit) :
    ∀ l ∈ hoardLines n, Host.Sets Value.Numeric l.2 := by
  intro l hl op hop username quest key value hset
  have hmem : Host.Line.command op ∈ (hoardLines n).map (Host.Line.ofText ·.2) :=
    List.mem_map.mpr ⟨l, hl, hop⟩
  rw [hoard_read hn, hset] at hmem
  simp only [List.mem_cons, List.not_mem_nil, or_false, false_or, Host.Line.command.injEq,
    Operation.setVariable.injEq, reduceCtorEq] at hmem
  rw [hmem.2.2.2]
  exact numeric_boxes n

theorem found_hoarder (n : Nat) :
    DocumentRepository.found [hunter ∅, hoarder n] "Ann"
      = if (hoarder n).Shallow then .ok (some (hoarder n))
        else .error (.unreadable (depthMessage (DocumentRepository.encode (hoarder n)))) := by
  have hkey : playerKey "ann" = playerKey "Ann" := by decide +kernel
  have hlast : lastSaved [hunter ∅, hoarder n].reverse "Ann" = some (hoarder n) := by
    rw [show [hunter ∅, hoarder n].reverse = [hoarder n, hunter ∅] from rfl, lastSaved_cons]
    exact if_pos hkey
  rw [DocumentRepository.found, hlast]

/-- Ann's boxes are accepted, written and acknowledged, and nobody can load her any more. -/
theorem hoard_lost :
    (Host.converse hoardHost (hoardLines 124)).replies
        = [.questStarted "rats" "cull", .ack true, .ack true]
      ∧ (Host.savings hoardHost (hoardLines 124)).getLast? = some (hoarder 124)
      ∧ DocumentRepository.decode? (DocumentRepository.encode (hoarder 124)) = none := by
  obtain ⟨hreplies, hsavings⟩ := hoard_written (n := 124) (by decide)
  refine ⟨hreplies, by rw [hsavings]; rfl, ?_⟩
  rw [DocumentRepository.decode?_encode_eq (vars_hoarder.mpr (numeric_boxes 124)),
    if_neg (by rw [shallow_hoarder]; decide)]

/-- One box less, and she is found with all she had. -/
theorem found_by_depth_hoard :
    (∀ l ∈ hoardLines 123 ++ hoardLines 124, Host.Sets Value.Numeric l.2)
      ∧ ((Host.converse hoardHost (hoardLines 123)).engine.restart.store.fetch
          (.calm .epoch) "Ann").result = .ok (hoarder 123)
      ∧ ((Host.converse hoardHost (hoardLines 124)).engine.restart.store.fetch
          (.calm .epoch) "Ann").result
        = .error (.unreadable (depthMessage (DocumentRepository.encode (hoarder 124)))) := by
  have hnothing : ∀ j ∈ ([] : List Journal), j.Vars Value.Numeric := by simp
  have hfew := hoard_sets (n := 123) (by decide)
  have hmany := hoard_sets (n := 124) (by decide)
  have hshallow : (hoarder 123).Shallow := (shallow_hoarder 123).mpr (by decide)
  have hdeep : ¬ (hoarder 124).Shallow := fun h => absurd ((shallow_hoarder 124).mp h) (by decide)
  refine ⟨fun l hl => (List.mem_append.mp hl).elim (hfew l) (hmany l), ?_, ?_⟩
  · obtain ⟨-, -, hrestart, -⟩ :=
      found_by_depth (.ofQuests [ratHunt]) 5000 [] hnothing (hoardLines 123) hfew
    refine (hrestart (.calm .epoch) "Ann" rfl).trans ?_
    have hsavings := (hoard_written (n := 123) (by decide)).2
    rw [show Engine.new (.ofQuests [ratHunt]) (.ofJournals []) 5000 = hoardHost from rfl,
      List.nil_append, hsavings, found_hoarder, if_pos hshallow]
    rfl
  · obtain ⟨-, -, hrestart, -⟩ :=
      found_by_depth (.ofQuests [ratHunt]) 5000 [] hnothing (hoardLines 124) hmany
    refine (hrestart (.calm .epoch) "Ann" rfl).trans ?_
    have hsavings := (hoard_written (n := 124) (by decide)).2
    rw [show Engine.new (.ofQuests [ratHunt]) (.ofJournals []) 5000 = hoardHost from rfl,
      List.nil_append, hsavings, found_hoarder, if_neg hdeep]
    rfl

end Questline
