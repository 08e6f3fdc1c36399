import Questline.Host.Command
import Questline.Host.Reply

/-!
# Sessions with the host

The host program answers the lines of its input one after another. Every line that is
not blank has exactly one reply; a line that holds no command changes nothing.
-/

namespace Questline.Host

variable {ρ : Type} [Repository ρ]

/-- What comes of one line. -/
structure Response (ρ : Type) where
  engine : Engine ρ
  accesses : List Access
  news : List Notification
  reply : Option Reply

/-- Answer a line. -/
def respond (e : Engine ρ) (c : Circumstances) (text : String) : Response ρ :=
  match Line.ofText text with
  | .blank => ⟨e, [], [], none⟩
  | .invalid => ⟨e, [], [], some Reply.invalidCommand⟩
  | .command op =>
    let out := e.run c op
    ⟨out.engine, out.accesses, out.news, some (Reply.ofOutcome out.answer)⟩

/-- What a session leaves behind. -/
structure Transcript (ρ : Type) where
  engine : Engine ρ
  replies : List Reply
  news : List Notification

/-- Answer lines, each in its own circumstances. -/
def converse (e : Engine ρ) : List (Circumstances × String) → Transcript ρ
  | [] => ⟨e, [], []⟩
  | (c, text) :: rest =>
    let first := respond e c text
    let later := converse first.engine rest
    ⟨later.engine, first.reply.toList ++ later.replies, first.news ++ later.news⟩

/-- The lines of an input. A carriage return before a line break stays, since it is white
space to all that reads lines. -/
def lines (input : String) : List String :=
  let ls := input.splitOn "\n"
  if ls.getLast? = some "" then ls.dropLast else ls

end Questline.Host
