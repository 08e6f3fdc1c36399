import Questline.Gate
import Questline.Notification

/-!
# Rulings

The rules of the game are functions from a player's journal to a ruling on one request.
A ruling says what becomes of the journal, what the listeners hear of it and what the
one who asked is told. Only a `commit` is written to the storage.
-/

namespace Questline

/-- Why a request is refused. -/
inductive Refusal where
  | notFound
  | alreadyActive
  | alreadyCompleted
  /-- So many seconds must pass before the quest can be repeated. -/
  | onCooldown (remaining : Int)
  | prerequisitesNotMet (shortfall : Shortfall)
  | invalidStep
  | notActive
  deriving DecidableEq, Repr

namespace Refusal

/-- What the player is told. -/
def message : Refusal → String
  | notFound => "Quest not found."
  | alreadyActive => "Quest is already active."
  | alreadyCompleted => "Quest already completed."
  | onCooldown _ => "Quest is on cooldown."
  | prerequisitesNotMet _ => "Prerequisites not met."
  | invalidStep => "Invalid starting step."
  | notActive => "Quest is not active."

end Refusal

/-- The outcome of one request about one player. -/
inductive Ruling (α : Type) where
  /-- The journal was only looked at. -/
  | look (answer : Except Refusal α)
  /-- The journal was opened for a change, but nothing happened that is worth a write;
  at most entries without progress were filled in. -/
  | handle (journal : Journal) (answer : Except Refusal α)
  /-- The journal has changed and is to be written once; then the news is published. -/
  | commit (journal : Journal) (news : List Notification) (answer : α)

namespace Ruling

variable {α β : Type}

/-- Give the answer another form. -/
def map (f : α → β) : Ruling α → Ruling β
  | look answer => look (answer.map f)
  | handle journal answer => handle journal (answer.map f)
  | commit journal news answer => commit journal news (f answer)

/-- The journal after a ruling on `j`. -/
def journal (j : Journal) : Ruling α → Journal
  | look _ => j
  | handle j' _ => j'
  | commit j' _ _ => j'

/-- What the listeners hear. -/
def news : Ruling α → List Notification
  | commit _ news _ => news
  | _ => []

def answer : Ruling α → Except Refusal α
  | look answer => answer
  | handle _ answer => answer
  | commit _ _ answer => .ok answer

end Ruling

end Questline
