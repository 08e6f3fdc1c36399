import Questline.Datum.Tagged
import Questline.Instant.Text
import Questline.Journal.Basic

/-!
# Journals as document trees

The form in which journals are stored and sent to the host.
-/

namespace Questline

open Datum

namespace Instant

def read? : Datum → Option Instant
  | .text s => ofText? s
  | _ => none

def toDatum (i : Instant) : Datum := .text i.toText

end Instant

namespace Counter

def read? (d : Datum) : Option Counter := do
  let fs ← d.fields? ["current", "required", "completed"] 3 false
  let current ← required "current" uint32? fs
  let target ← required "required" uint32? fs
  let completed ← required "completed" bool? fs
  return ⟨current, target, completed⟩

def toDatum (c : Counter) : Datum :=
  .record [("current", ofUInt32 c.current), ("required", ofUInt32 c.target),
    ("completed", .bool c.completed)]

end Counter

namespace StepProgress

def read? (d : Datum) : Option StepProgress := do
  let fs ← d.fields? ["completed", "started_at", "completed_at", "objectives"] 4 false
  let completed ← required "completed" bool? fs
  let startedAt ← required "started_at" Instant.read? fs
  let completedAt ← optional "completed_at" Instant.read? fs
  let counters ← required "objectives" (dictOf? Counter.read?) fs
  return ⟨completed, startedAt, completedAt, counters⟩

def toDatum (p : StepProgress) : Datum :=
  .record [("completed", .bool p.completed), ("started_at", p.startedAt.toDatum),
    ("completed_at", ofOption Instant.toDatum p.completedAt),
    ("objectives", ofDict Counter.toDatum p.counters)]

end StepProgress

namespace Activation

def read? (d : Datum) : Option Activation := do
  let fs ← d.fields? ["quest_id", "current_step_id", "started_at", "step_progress", "variables"]
    4 false
  let quest ← required "quest_id" text? fs
  let step ← required "current_step_id" text? fs
  let startedAt ← required "started_at" Instant.read? fs
  let progress ← required "step_progress" (dictOf? StepProgress.read?) fs
  let vars ← withDefault "variables" (dictOf? Datum.value?) ∅ fs
  return ⟨quest, step, startedAt, progress, vars⟩

def toDatum (a : Activation) : Datum :=
  .record [("quest_id", .text a.quest), ("current_step_id", .text a.step),
    ("started_at", a.startedAt.toDatum), ("step_progress", ofDict StepProgress.toDatum a.progress),
    ("variables", ofDict Value.tree a.vars)]

end Activation

namespace Completion

def read? (d : Datum) : Option Completion := do
  let fs ← d.fields? ["quest_id", "completed_at", "completion_count"] 3 false
  let quest ← required "quest_id" text? fs
  let completedAt ← required "completed_at" Instant.read? fs
  let count ← required "completion_count" uint32? fs
  return ⟨quest, completedAt, count⟩

def toDatum (c : Completion) : Datum :=
  .record [("quest_id", .text c.quest), ("completed_at", c.completedAt.toDatum),
    ("completion_count", ofUInt32 c.count)]

end Completion

namespace Failure

def read? (d : Datum) : Option Failure := do
  let fs ← d.fields? ["quest_id", "failed_at", "reason"] 3 false
  let quest ← required "quest_id" text? fs
  let failedAt ← required "failed_at" Instant.read? fs
  let reason ← optional "reason" text? fs
  return ⟨quest, failedAt, reason⟩

def toDatum (f : Failure) : Datum :=
  .record [("quest_id", .text f.quest), ("failed_at", f.failedAt.toDatum),
    ("reason", ofOption .text f.reason)]

end Failure

namespace Status

def name : Status → String
  | unstarted => "unstarted"
  | active => "active"
  | completed => "completed"
  | failed => "failed"

def toDatum (s : Status) : Datum := .text s.name

end Status

namespace Journal

def read? (d : Datum) : Option Journal := do
  let fs ← d.fields? ["username", "active_quests", "completed_quests", "failed_quests",
    "last_updated"] 5 false
  let username ← required "username" text? fs
  let active ← withDefault "active_quests" (listOf? Activation.read?) [] fs
  let completed ← withDefault "completed_quests" (listOf? Completion.read?) [] fs
  let failed ← withDefault "failed_quests" (listOf? Failure.read?) [] fs
  let lastUpdated ← required "last_updated" Instant.read? fs
  return ⟨username, active, completed, failed, lastUpdated⟩

def toDatum (j : Journal) : Datum :=
  .record [("username", .text j.username),
    ("active_quests", ofListWith Activation.toDatum j.active),
    ("completed_quests", ofListWith Completion.toDatum j.completed),
    ("failed_quests", ofListWith Failure.toDatum j.failed),
    ("last_updated", j.lastUpdated.toDatum)]

end Journal

end Questline
