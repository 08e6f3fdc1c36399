import Questline.Journal.Record
import Questline.Json.Printer
import Questline.Json.Reader
import Questline.Store.Circumstances
import Questline.Text.Case

/-!
# Repositories

Where journals are kept between sessions, under the lower-cased name of the player. One
repository holds the journals themselves; the other holds them as JSON texts, the form in
which they lie in a database. A text is refused when it is nested too deeply to be read.
-/

namespace Questline

/-- A place where journals are kept. -/
class Repository (ρ : Type) where
  /-- The journal of a player, if there is one. -/
  find : ρ → String → Except StoreError (Option Journal)
  /-- Keep a journal, in the place of an earlier one of the player. -/
  save : ρ → Journal → ρ

/-- The name that a player is known by to the storage: upper and lower case are one. -/
def playerKey (username : String) : String := Text.lowercase username

/-! ## Access -/

namespace Repository

variable {ρ : Type} [Repository ρ]

/-- Load a journal; a player without one gets an empty one. An access may take `limit`
milliseconds. -/
def load (r : ρ) (limit : Nat) (c : Circumstances) (username : String) :
    Except StoreError Journal :=
  match c.loadFault with
  | some fault => .error (fault.error limit)
  | none => (find r username).map (·.getD (Journal.empty username c.openedAt))

/-- Write a journal. -/
def write (r : ρ) (limit : Nat) (c : Circumstances) (j : Journal) : Except StoreError ρ :=
  match c.saveFault with
  | some fault => .error (fault.error limit)
  | none => .ok (save r j)

end Repository

/-! ## Kinds of repositories -/

/-- Journals as they are. -/
structure MemoryRepository where
  records : Dict Journal
  deriving DecidableEq

namespace MemoryRepository

def empty : MemoryRepository := ⟨∅⟩

/-- The stored journal of a player. -/
def stored? (r : MemoryRepository) (username : String) : Option Journal :=
  r.records.get? (playerKey username)

def keep (r : MemoryRepository) (j : Journal) : MemoryRepository :=
  ⟨r.records.insert (playerKey j.username) j⟩

/-- A repository that holds given journals. -/
def ofJournals (js : List Journal) : MemoryRepository := js.foldl keep empty

instance : Repository MemoryRepository where
  find r username := .ok (r.stored? username)
  save := keep

end MemoryRepository

/-- Journals as JSON texts. -/
structure DocumentRepository where
  documents : Dict String
  deriving DecidableEq

namespace DocumentRepository

def empty : DocumentRepository := ⟨∅⟩

/-- The text of a journal. -/
def encode (j : Journal) : String := Json.write j.toDatum

/-- The journal that a text holds. -/
def decode? (text : String) : Option Journal := (Json.read? text).bind Journal.read?

/-- The journal that is kept under the name of a player. -/
def lookup (r : DocumentRepository) (username : String) : Except StoreError (Option Journal) :=
  match r.documents.get? (playerKey username) with
  | none => .ok none
  | some text =>
    match decode? text with
    | some j => .ok (some j)
    | none => .error (.unreadable (Json.depthMessage text))

def keep (r : DocumentRepository) (j : Journal) : DocumentRepository :=
  ⟨r.documents.insert (playerKey j.username) (encode j)⟩

/-- A repository that holds given journals. -/
def ofJournals (js : List Journal) : DocumentRepository := js.foldl keep empty

instance : Repository DocumentRepository where
  find := lookup
  save := keep

end DocumentRepository

end Questline
