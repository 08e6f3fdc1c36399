import Questline.Catalog
import Questline.Rules.Ruling

/-!
# Eligibility

Whether a player can start a quest now. A single check, `refusal?`, answers the
question for one quest (`canStart`), for all quests (`available`) and for a start that
is not forced, so the three cannot differ.
-/

namespace Questline.Rules

/-- The whole seconds until a quest can be repeated, if some must still pass. -/
def cooldownLeft? (q : Quest) (completedAt now : Instant) : Option Int :=
  q.cooldown.bind fun cooldown =>
    let elapsed := now.secondsSince completedAt
    if elapsed < cooldown.toInt then some (cooldown.toInt - elapsed) else none

/-- Why a quest that was completed before cannot be started again. -/
def repeatRefusal? (q : Quest) (done : Completion) (now : Instant) : Option Refusal :=
  if !q.repeatable then some .alreadyCompleted
  else (cooldownLeft? q done.completedAt now).map .onCooldown

/-- Why a player cannot start a quest now: it is active, it was completed and cannot be
repeated yet, or a prerequisite is not met. -/
def refusal? (q : Quest) (p : Player) (now : Instant) (j : Journal) : Option Refusal :=
  if j.isActive q.id then some .alreadyActive
  else
    ((j.completion? q.id).bind fun done => repeatRefusal? q done now)
      |>.or ((q.prerequisites.shortfall? p j).map .prerequisitesNotMet)

/-- The verdict on one quest; nothing stands against a start if it is empty. -/
def canStart (q : Quest) (p : Player) (now : Instant) (j : Journal) : Ruling (Option Refusal) :=
  .look (.ok (refusal? q p now j))

/-- All quests that a player can start now, by increasing id. -/
def available (c : Catalog) (p : Player) (now : Instant) (j : Journal) : Ruling (List Quest) :=
  .look (.ok (c.quests.filter fun q => (refusal? q p now j).isNone))

end Questline.Rules
