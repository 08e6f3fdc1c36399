import Questline.Matching
import Questline.Rules.Lifecycle

/-!
# Progress

An event or a poll is offered to the current step of every active quest. What happens to
one quest (`stride`) depends on that quest alone: its activation, its definition and the
number of its completions. The journal takes the strides one after another, in the order
of its active quests (`progress`).

Every objective of a step is offered its amount before the step is judged. A step is
completed by the operation that completes an objective and thereby fulfils the step's
policy. Then the quest enters the next step, or is completed if there is none.
-/

namespace Questline.Rules

/-- Offer every objective its amount. The list holds the counters that moved; the flag
says whether one of them has just completed. -/
def offer (amount? : Objective → Option Amount) :
    List Objective → StepProgress → StepProgress × List ObjectiveUpdate × Bool
  | [], p => (p, [], false)
  | o :: rest, p =>
    match amount? o with
    | none => offer amount? rest p
    | some amount =>
      let (c, changed, completed) := (p.counter o.id o.requiredCount).apply amount
      let (p, moved, anyCompleted) := offer amount? rest (p.setCounter o.id c)
      if changed then
        (p, ⟨o.id, c.current, c.target, c.completed⟩ :: moved, completed || anyCompleted)
      else (p, moved, anyCompleted)

/-- What an event or a poll does to one active quest. -/
structure Stride where
  /-- The new state of the quest. -/
  activation : Activation
  /-- Whether the quest is completed and no longer active. -/
  finished : Bool
  /-- What is answered, if anything moved. -/
  update : Option Update
  news : List Notification
  deriving DecidableEq, Repr

/-- The actions of leaving a step by completing it. -/
def leavingActions (s : Step) (next : Option Step) : List Action :=
  s.onComplete ++ (next.map (·.onStart)).getD []

/-- Take one active quest a stride on. `s` is its current step, `count` the number of
its completions if it is completed now. -/
def stride (q : Quest) (s : Step) (username : String) (count : UInt32)
    (amount? : Objective → Option Amount) (now : Instant) (a : Activation) : Stride :=
  let before := a.currentProgress s now
  if before.completed then ⟨a.setCurrentProgress before, false, none, []⟩
  else
    let (p, moved, anyCompleted) := offer amount? s.objectives before
    let done := anyCompleted && p.isSatisfied s
    let a := a.setCurrentProgress (if done then p.complete now else p)
    let update : Update := ⟨a.quest, s.id, moved, anyCompleted, done, none, false, none⟩
    let news := moved.map (Notification.objectiveUpdated username a.quest s.id)
    if moved.isEmpty then ⟨a, false, none, []⟩
    else if !done then ⟨a, false, some update, news⟩
    else
      let next := q.nextStep? s.id
      let left := Notification.stepCompleted username a.quest s.id (next.map (·.id))
        (leavingActions s next)
      match next with
      | some t => ⟨a.enter t now, false, some { update with nextStep := some t.id }, news ++ [left]⟩
      | none =>
        ⟨a, true, some { update with questCompleted := true, rewards := q.rewards },
          news ++ [left, .completed username a.quest count q.rewards]⟩

/-- What an event or a poll has done to a journal. -/
structure Transition where
  journal : Journal
  updates : List Update
  news : List Notification
  deriving DecidableEq, Repr

/-- Take a journal's first active entry of a quest a stride on. A quest or a step that
the catalog does not know stays as it is. -/
def advanceQuest (c : Catalog) (username : String) (amount? : Objective → Option Amount)
    (now : Instant) (j : Journal) (quest : String) : Transition :=
  let found : Option (Quest × Activation × Step) := do
    let q ← c.get? quest
    let a ← j.activation? quest
    let s ← q.step? a.step
    return (q, a, s)
  match found with
  | none => ⟨j, [], []⟩
  | some (q, a, s) =>
    let r := stride q s username (nextCount quest j) amount? now a
    ⟨if r.finished then finish quest now j else j.update r.activation, r.update.toList, r.news⟩

/-- Take the given quests a stride on, one after another. -/
def advanceAll (c : Catalog) (username : String) (amount? : Objective → Option Amount)
    (now : Instant) : List String → Journal → Transition
  | [], j => ⟨j, [], []⟩
  | quest :: rest, j =>
    let first := advanceQuest c username amount? now j quest
    let later := advanceAll c username amount? now rest first.journal
    ⟨later.journal, first.updates ++ later.updates, first.news ++ later.news⟩

/-- Take all active quests a stride on. -/
def progress (c : Catalog) (username : String) (amount? : Objective → Option Amount)
    (now : Instant) (j : Journal) : Transition :=
  advanceAll c username amount? now (j.active.map (·.quest)) j

/-- Write a transition if it has moved something. -/
def Transition.ruling {α : Type} (t : Transition) (answer : α) : Ruling α :=
  if t.updates.isEmpty then .handle t.journal (.ok answer)
  else .commit t.journal t.news answer

/-- A game event happens to a player. -/
def report (c : Catalog) (username event : String) (payload : Payload) (now : Instant)
    (j : Journal) : Ruling (List Update) :=
  let t := progress c username (Objective.eventAmount? event payload) now j
  t.ruling t.updates

/-- Look at the state of a player: inventory, flags and level. -/
def poll (c : Catalog) (p : Player) (now : Instant) (j : Journal) : Ruling (List Update) :=
  let t := progress c p.username (Objective.polledAmount? p) now j
  t.ruling t.updates

end Questline.Rules
