import Questline.Proofs.InstantText
import Questline.Proofs.JsonText
import Questline.Store.Repository

/-!
# Kept journals

Whatever is asked of a repository, one that keeps journals as they are and one that keeps them
as texts give the same answers: the journal that was last saved under the name, unchanged, or
none (`answers_alike`).

For the second kind this is the round trip of journals through their form as trees
(`Journal.read?_toDatum`, for every journal) and of trees through their text
(`Json.read?_write`). All that a text may fail to hold are the free-form variables of active
quests; everything else of a journal always fits (`Journal.Writable.fits`).
-/

namespace Questline

open Datum

/-! ## Records read back from their trees -/

section Fields

variable {α β : Type} {read : Datum → Option α} {name : String} {fs : Fields}

/-- One step of a reader: what it read is handed to the rest. -/
theorem read_step {first : Option α} {rest : α → Option β} {x : α} {y : β}
    (hfirst : first = some x) (hrest : rest x = some y) : (first >>= rest) = some y :=
  Option.bind_eq_some_iff.mpr ⟨x, hfirst, hrest⟩

theorem required_of_find {d : Datum} {x : α} (h : findValue? name fs = some d)
    (hread : read d = some x) : required name read fs = some x := by
  simp [required, h, hread]

theorem withDefault_of_find {d : Datum} {x fallback : α} (h : findValue? name fs = some d)
    (hread : read d = some x) : withDefault name read fallback fs = some x := by
  simp [withDefault, h, hread]

/-- An optional field is read back, as no value of it is written as `null`. -/
theorem optional_ofOption {write : α → Datum} {o : Option α}
    (h : findValue? name fs = some (ofOption write o))
    (hread : ∀ x, read (write x) = some x) (hnull : ∀ x, write x ≠ .null) :
    optional name read fs = some o := by
  cases o with
  | none => simp [Datum.optional, h, ofOption]
  | some x =>
    simp only [Datum.optional, h, ofOption]
    split
    · next heq => exact absurd (Option.some.inj heq) (hnull x)
    · next heq => rw [← Option.some.inj heq, hread, Option.map_some]
    · next heq => cases heq

end Fields

theorem Instant.read?_toDatum (i : Instant) : Instant.read? i.toDatum = some i :=
  i.ofText?_toText

theorem Instant.toDatum_ne_null (i : Instant) : i.toDatum ≠ .null := by
  simp [Instant.toDatum]

theorem Counter.read?_toDatum (c : Counter) : Counter.read? c.toDatum = some c := by
  refine read_step rfl ?_
  refine read_step (required_of_find rfl (uint32?_ofUInt32 _)) ?_
  refine read_step (required_of_find rfl (uint32?_ofUInt32 _)) ?_
  exact read_step (required_of_find rfl rfl) rfl

theorem StepProgress.read?_toDatum (p : StepProgress) :
    StepProgress.read? p.toDatum = some p := by
  refine read_step rfl ?_
  refine read_step (required_of_find rfl rfl) ?_
  refine read_step (required_of_find rfl p.startedAt.read?_toDatum) ?_
  refine read_step (optional_ofOption rfl Instant.read?_toDatum Instant.toDatum_ne_null) ?_
  exact read_step (required_of_find rfl (dictOf?_ofDict Counter.read?_toDatum _)) rfl

theorem Activation.read?_toDatum (a : Activation) : Activation.read? a.toDatum = some a := by
  refine read_step rfl ?_
  refine read_step (required_of_find rfl rfl) ?_
  refine read_step (required_of_find rfl rfl) ?_
  refine read_step (required_of_find rfl a.startedAt.read?_toDatum) ?_
  refine read_step (required_of_find rfl (dictOf?_ofDict StepProgress.read?_toDatum _)) ?_
  refine read_step (withDefault_of_find rfl (dictOf?_ofDict (fun v => ?_) _)) rfl
  exact congrArg some v.ofDatum_tree

theorem Completion.read?_toDatum (c : Completion) : Completion.read? c.toDatum = some c := by
  refine read_step rfl ?_
  refine read_step (required_of_find rfl rfl) ?_
  refine read_step (required_of_find rfl c.completedAt.read?_toDatum) ?_
  exact read_step (required_of_find rfl (uint32?_ofUInt32 _)) rfl

theorem Failure.read?_toDatum (f : Failure) : Failure.read? f.toDatum = some f := by
  refine read_step rfl ?_
  refine read_step (required_of_find rfl rfl) ?_
  refine read_step (required_of_find rfl f.failedAt.read?_toDatum) ?_
  exact read_step (optional_ofOption rfl (fun _ => rfl) nofun) rfl

/-- Every journal is read back from its tree. -/
theorem Journal.read?_toDatum (j : Journal) : Journal.read? j.toDatum = some j := by
  refine read_step rfl ?_
  refine read_step (required_of_find rfl rfl) ?_
  refine read_step (withDefault_of_find rfl (listOf?_ofListWith Activation.read?_toDatum _)) ?_
  refine read_step (withDefault_of_find rfl (listOf?_ofListWith Completion.read?_toDatum _)) ?_
  refine read_step (withDefault_of_find rfl (listOf?_ofListWith Failure.read?_toDatum _)) ?_
  exact read_step (required_of_find rfl j.lastUpdated.read?_toDatum) rfl

/-! ## What a text can hold -/

namespace Json

theorem Fits.mono {m n : Nat} {d : Datum} (h : Fits m d) (hle : m ≤ n) : Fits n d :=
  ⟨h.numbers, Nat.le_trans h.depth hle⟩

theorem fits_text (n : Nat) (s : String) : Fits n (.text s) := ⟨rfl, Nat.zero_le _⟩

theorem fits_bool (n : Nat) (b : Bool) : Fits n (.bool b) := ⟨rfl, Nat.zero_le _⟩

theorem fits_uint32 (n : Nat) (k : UInt32) : Fits n (ofUInt32 k) := by
  have := k.toNat_lt
  exact ⟨holdsNumbers_int.mpr (by omega), Nat.zero_le _⟩

theorem fits_record {n : Nat} {ms : List (String × Datum)} (h : ∀ m ∈ ms, Fits n m.2) :
    Fits (n + 1) (.record ms) := by
  refine ⟨holdsMembers_iff.mpr fun m hm => (h m hm).numbers, Nat.succ_le_succ ?_⟩
  induction ms with
  | nil => exact Nat.zero_le _
  | cons m ms ih =>
    exact Nat.max_le.mpr ⟨(h m (by simp)).depth,
      ih fun m' hm' => h m' (List.mem_cons_of_mem _ hm')⟩

section Writing

variable {α : Type} {write : α → Datum} {n : Nat}

theorem fits_ofOption {o : Option α} (h : ∀ x, Fits n (write x)) : Fits n (ofOption write o) := by
  cases o with
  | none => exact ⟨rfl, Nat.zero_le _⟩
  | some x => exact h x

theorem fits_ofListWith {xs : List α} (h : ∀ x ∈ xs, Fits n (write x)) :
    Fits (n + 1) (ofListWith write xs) := by
  refine ⟨holdsItems_iff.mpr fun d hd => ?_, Nat.succ_le_succ ?_⟩
  · obtain ⟨x, hx, rfl⟩ := List.mem_map.mp hd
    exact (h x hx).numbers
  · induction xs with
    | nil => exact Nat.zero_le _
    | cons x xs ih =>
      exact Nat.max_le.mpr ⟨(h x (by simp)).depth, ih fun y hy => h y (List.mem_cons_of_mem _ hy)⟩

theorem fits_ofDict {d : Dict α} (h : ∀ e ∈ d.entries, Fits n (write e.2)) :
    Fits (n + 1) (ofDict write d) := by
  refine fits_record fun m hm => ?_
  obtain ⟨e, he, rfl⟩ := List.mem_map.mp hm
  exact h e he

end Writing

end Json

open Json

theorem Instant.fits (n : Nat) (i : Instant) : Fits n i.toDatum := fits_text n _

theorem Counter.fits (c : Counter) : Fits 1 c.toDatum := by
  refine fits_record fun m hm => ?_
  simp only [List.mem_cons, List.not_mem_nil, or_false] at hm
  rcases hm with rfl | rfl | rfl
  · exact fits_uint32 0 _
  · exact fits_uint32 0 _
  · exact fits_bool 0 _

theorem StepProgress.fits (p : StepProgress) : Fits 3 p.toDatum := by
  refine fits_record fun m hm => ?_
  simp only [List.mem_cons, List.not_mem_nil, or_false] at hm
  rcases hm with rfl | rfl | rfl | rfl
  · exact fits_bool 2 _
  · exact p.startedAt.fits 2
  · exact fits_ofOption fun i => i.fits 2
  · exact fits_ofDict fun e _ => e.2.fits

/-- A record, a list, another record and a table lie around a variable of a journal. -/
theorem Activation.fits {n : Nat} {a : Activation} (hn : 3 ≤ n)
    (h : ∀ e ∈ a.vars.entries, Fits n e.2.tree) : Fits (n + 2) a.toDatum := by
  refine fits_record fun m hm => ?_
  simp only [List.mem_cons, List.not_mem_nil, or_false] at hm
  rcases hm with rfl | rfl | rfl | rfl | rfl
  · exact fits_text _ _
  · exact fits_text _ _
  · exact a.startedAt.fits _
  · exact fits_ofDict fun e _ => e.2.fits.mono hn
  · exact fits_ofDict h

theorem Completion.fits (c : Completion) : Fits 1 c.toDatum := by
  refine fits_record fun m hm => ?_
  simp only [List.mem_cons, List.not_mem_nil, or_false] at hm
  rcases hm with rfl | rfl | rfl
  · exact fits_text 0 _
  · exact c.completedAt.fits 0
  · exact fits_uint32 0 _

theorem Failure.fits (f : Failure) : Fits 1 f.toDatum := by
  refine fits_record fun m hm => ?_
  simp only [List.mem_cons, List.not_mem_nil, or_false] at hm
  rcases hm with rfl | rfl | rfl
  · exact fits_text 0 _
  · exact f.failedAt.fits 0
  · exact fits_ofOption fun _ => fits_text 0 _

/-- Whether a text can hold the free-form variables of a journal: the numbers in them, and
their lists and records within the four levels of the journal that lie around each. -/
def Journal.Writable (j : Journal) : Prop :=
  ∀ a ∈ j.active, ∀ e ∈ a.vars.entries, Fits (nestingLimit - 4) e.2.tree

instance (j : Journal) : Decidable j.Writable :=
  inferInstanceAs (Decidable (∀ a ∈ j.active, ∀ e ∈ a.vars.entries,
    Fits (nestingLimit - 4) e.2.tree))

/-- Nothing but its variables can keep a journal from fitting. -/
theorem Journal.fits {n : Nat} {j : Journal} (hn : 3 ≤ n)
    (h : ∀ a ∈ j.active, ∀ e ∈ a.vars.entries, Fits n e.2.tree) : Fits (n + 4) j.toDatum := by
  refine fits_record fun m hm => ?_
  simp only [List.mem_cons, List.not_mem_nil, or_false] at hm
  rcases hm with rfl | rfl | rfl | rfl | rfl
  · exact fits_text _ _
  · exact fits_ofListWith fun a ha => Activation.fits hn (h a ha)
  · exact fits_ofListWith fun c _ => c.fits.mono (by omega)
  · exact fits_ofListWith fun f _ => f.fits.mono (by omega)
  · exact j.lastUpdated.fits _

theorem Journal.Writable.fits {j : Journal} (h : j.Writable) : Fits nestingLimit j.toDatum :=
  Journal.fits (by decide) h

/-- A journal is read back from its text. -/
theorem DocumentRepository.decode?_encode {j : Journal} (h : j.Writable) :
    decode? (encode j) = some j := by
  rw [decode?, encode, read?_write h.fits, Option.bind_some, j.read?_toDatum]

/-! ## What a repository is asked -/

/-- Something asked of a repository. -/
inductive Request where
  | save (j : Journal)
  | lookup (username : String)
  deriving DecidableEq

/-- The journal of a player among those saved, the last saved first. -/
def lastSaved (saved : List Journal) (username : String) : Option Journal :=
  saved.find? fun j => playerKey j.username = playerKey username

/-- The answers to look-ups between savings, after those of `saved`. -/
def expected (saved : List Journal) : List Request → List (Except StoreError (Option Journal))
  | [] => []
  | .save j :: requests => expected (j :: saved) requests
  | .lookup username :: requests => .ok (lastSaved saved username) :: expected saved requests

namespace Repository

variable {ρ : Type} [Repository ρ]

/-- The answers of a repository to look-ups between savings. -/
def answers (r : ρ) : List Request → List (Except StoreError (Option Journal))
  | [] => []
  | .save j :: requests => answers (save r j) requests
  | .lookup username :: requests => find r username :: answers r requests

/-- A repository that keeps to what was saved gives the answers that are expected. -/
theorem answers_eq_expected (Holds : ρ → List Journal → Prop) (Savable : Journal → Prop)
    (hfind : ∀ {r saved}, Holds r saved → ∀ username,
      find r username = .ok (lastSaved saved username))
    (hsave : ∀ {r saved}, Holds r saved → ∀ {j}, Savable j → Holds (save r j) (j :: saved))
    {r : ρ} {saved : List Journal} (h : Holds r saved) {requests : List Request}
    (hrequests : ∀ j, .save j ∈ requests → Savable j) :
    answers r requests = expected saved requests := by
  induction requests generalizing r saved with
  | nil => rfl
  | cons request requests ih =>
    have hlater : ∀ j, .save j ∈ requests → Savable j :=
      fun j hj => hrequests j (List.mem_cons_of_mem _ hj)
    cases request with
    | save j => exact ih (hsave h (hrequests j (by simp))) hlater
    | lookup username => exact congrArg₂ List.cons (hfind h username) (ih h hlater)

end Repository

theorem lastSaved_cons (j : Journal) (saved : List Journal) (username : String) :
    lastSaved (j :: saved) username
      = if playerKey j.username = playerKey username then some j
        else lastSaved saved username := by
  simp only [lastSaved, List.find?_cons]
  split <;> simp_all

/-- Whether a repository holds, for every player, the journal that was last saved. -/
def MemoryRepository.Holds (r : MemoryRepository) (saved : List Journal) : Prop :=
  ∀ username, r.stored? username = lastSaved saved username

theorem MemoryRepository.Holds.keep {r : MemoryRepository} {saved : List Journal}
    (h : r.Holds saved) (j : Journal) : (r.keep j).Holds (j :: saved) := by
  intro username
  rw [lastSaved_cons, ← h username]
  simp only [stored?, MemoryRepository.keep, Dict.get?_insert, eq_comm]

/-- Whether a repository holds, for every player, the text of the journal that was last saved,
and only texts that can be read. -/
structure DocumentRepository.Holds (r : DocumentRepository) (saved : List Journal) : Prop where
  texts : ∀ username, r.documents.get? (playerKey username) = (lastSaved saved username).map encode
  writable : ∀ j ∈ saved, j.Writable

theorem DocumentRepository.get?_keep (r : DocumentRepository) (j : Journal) (username : String) :
    (r.keep j).documents.get? (playerKey username)
      = if playerKey j.username = playerKey username then some (encode j)
        else r.documents.get? (playerKey username) := by
  simp only [keep, Dict.get?_insert, eq_comm]

namespace DocumentRepository.Holds

theorem keep {r : DocumentRepository} {saved : List Journal} (h : r.Holds saved) {j : Journal}
    (hj : j.Writable) : (r.keep j).Holds (j :: saved) := by
  refine ⟨fun username => ?_, List.forall_mem_cons.mpr ⟨hj, h.writable⟩⟩
  rw [get?_keep, lastSaved_cons, h.texts username]
  split <;> rfl

theorem lookup {r : DocumentRepository} {saved : List Journal} (h : r.Holds saved)
    (username : String) : r.lookup username = .ok (lastSaved saved username) := by
  unfold DocumentRepository.lookup
  rw [h.texts username]
  cases hlast : lastSaved saved username with
  | none => rfl
  | some j =>
    have hwritable : j.Writable := h.writable j (List.mem_of_find?_eq_some hlast)
    simp only [Option.map_some, decode?_encode hwritable]

end DocumentRepository.Holds

/-- Every journal is read back from its tree, and both repositories are one map: whatever is
saved and looked up in whatever order, a look-up gives the journal last saved under the name,
or none. -/
theorem answers_alike :
    (∀ j : Journal, Journal.read? j.toDatum = some j)
      ∧ ∀ requests : List Request,
        Repository.answers MemoryRepository.empty requests = expected [] requests
          ∧ ((∀ j, .save j ∈ requests → j.Writable) →
            Repository.answers DocumentRepository.empty requests = expected [] requests) := by
  refine ⟨Journal.read?_toDatum, fun requests => ⟨?_, fun hwritable => ?_⟩⟩
  · have hempty : MemoryRepository.empty.Holds [] := fun _ => rfl
    exact Repository.answers_eq_expected MemoryRepository.Holds (fun _ => True)
      (fun h username => congrArg Except.ok (h username)) (fun h j _ => h.keep j) hempty
      (fun _ _ => trivial)
  · have hempty : DocumentRepository.empty.Holds [] :=
      ⟨fun _ => rfl, fun _ h => absurd h List.not_mem_nil⟩
    exact Repository.answers_eq_expected DocumentRepository.Holds Journal.Writable
      (fun h username => h.lookup username) (fun h _ hj => h.keep hj) hempty hwritable

/-- A journal with every kind of entry: a step that is done and one that is not, variables of
several shapes, a failure with a reason and one without, and times to the nanosecond. -/
def erin : Journal where
  username := "Erin"
  active :=
    [{ quest := "rats"
       step := "report"
       startedAt := ⟨19723, 3661, 120000000, by decide, by decide, by decide, by decide⟩
       progress := Dict.ofList
        [("cull", ⟨true, .epoch,
            some ⟨19723, 86399, 1500000000, by decide, by decide, by decide, by decide⟩,
            Dict.ofList [("kills", ⟨2, 2, true⟩)]⟩),
          ("report", ⟨false, .epoch, none, ∅⟩)]
       vars := Dict.ofList
        [("luck", .ofDatum (.float ⟨0xBFE0000000000000⟩)),
          ("spoils", .ofDatum
            (.list [.int (-3), .record [("tail", .text "\"long\"\n")], .null]))] }]
  completed :=
    [⟨"intro", ⟨-96465292, 0, 1, by decide, Instant.epoch.second_lt, by decide, by decide⟩,
      4294967295⟩]
  failed := [⟨"escort", .epoch, some "Merchant died"⟩, ⟨"escort", .epoch, none⟩]
  lastUpdated := ⟨95026236, 86399, 999999999, by decide, by decide, by decide, by decide⟩

def erinRequests : List Request :=
  [.lookup "erin", .save erin, .lookup "ERIN", .save (Journal.empty "Dan" .epoch),
    .save { erin with username := "eRIN", failed := [] }, .lookup "Erin", .lookup "dan"]

/-- Erin is found as she was saved last, however her name is spelled. -/
theorem answers_alike_erin :
    (∀ j, .save j ∈ erinRequests → j.Writable)
      ∧ Repository.answers DocumentRepository.empty erinRequests
        = [.ok none, .ok (some erin), .ok (some { erin with username := "eRIN", failed := [] }),
          .ok (some (Journal.empty "Dan" .epoch))] := by
  have hwritable : ∀ j, .save j ∈ erinRequests → j.Writable := by
    intro j hj
    simp only [erinRequests, List.mem_cons, List.not_mem_nil, or_false, false_or, reduceCtorEq,
      Request.save.injEq] at hj
    rcases hj with rfl | rfl | rfl <;> decide +kernel
  refine ⟨hwritable, ((answers_alike.2 erinRequests).2 hwritable).trans ?_⟩
  rfl

end Questline
