import Questline.Proofs.Plans

/-!
# What the rules look at

The rules decide by the three lists of a journal, its *quest log*, and never by the name
it bears or the time it was last written. So a journal under another name and stamp
(`Journal.relabel`) gets the same ruling, under that name and stamp
(`Operation.plan_relabel`). Two consequences carry everything that follows: journals with
one quest log are ruled on alike, and no rule renames a journal.
-/

namespace Questline

/-- The quests of a player: all that the rules look at. -/
structure QuestLog where
  active : List Activation
  completed : List Completion
  failed : List Failure
  deriving DecidableEq, Repr

namespace QuestLog

/-- Nothing was ever started. -/
def blank : QuestLog := ⟨[], [], []⟩

end QuestLog

namespace Journal

def log (j : Journal) : QuestLog := ⟨j.active, j.completed, j.failed⟩

/-- The same quests under another name and stamp. -/
def relabel (j : Journal) (name : String) (stamp : Instant) : Journal :=
  { j with username := name, lastUpdated := stamp }

@[simp] theorem log_empty (name : String) (now : Instant) : (empty name now).log = .blank := rfl

@[simp] theorem log_touch (j : Journal) (now : Instant) : (j.touch now).log = j.log := rfl

@[simp] theorem username_touch (j : Journal) (now : Instant) :
    (j.touch now).username = j.username := rfl

@[simp] theorem log_relabel (j : Journal) (name : String) (stamp : Instant) :
    (j.relabel name stamp).log = j.log := rfl

@[simp] theorem username_relabel (j : Journal) (name : String) (stamp : Instant) :
    (j.relabel name stamp).username = name := rfl

/-- Journals with one quest log differ in name and stamp only. -/
theorem eq_relabel_of_log_eq {j i : Journal} (h : j.log = i.log) :
    i = j.relabel i.username i.lastUpdated := by
  obtain ⟨_, ja, jc, jf, _⟩ := j
  obtain ⟨_, ia, ic, jf', _⟩ := i
  simp only [log, QuestLog.mk.injEq] at h
  obtain ⟨rfl, rfl, rfl⟩ := h
  rfl

end Journal

namespace Ruling

variable {α β : Type}

/-- The same ruling on a journal under another name and stamp. -/
def relabel (name : String) (stamp : Instant) : Ruling α → Ruling α
  | look answer => look answer
  | handle j answer => handle (j.relabel name stamp) answer
  | commit j news answer => commit (j.relabel name stamp) news answer

@[simp] theorem journal_map (f : α → β) (r : Ruling α) (j : Journal) :
    (r.map f).journal j = r.journal j := by
  cases r <;> rfl

@[simp] theorem news_map (f : α → β) (r : Ruling α) : (r.map f).news = r.news := by
  cases r <;> rfl

@[simp] theorem answer_map (f : α → β) (r : Ruling α) :
    (r.map f).answer = r.answer.map f := by
  cases r <;> rfl

@[simp] theorem journal_relabel (r : Ruling α) (j : Journal) (name : String) (stamp : Instant) :
    (r.relabel name stamp).journal (j.relabel name stamp)
      = (r.journal j).relabel name stamp := by
  cases r <;> rfl

@[simp] theorem news_relabel (r : Ruling α) (name : String) (stamp : Instant) :
    (r.relabel name stamp).news = r.news := by
  cases r <;> rfl

@[simp] theorem answer_relabel (r : Ruling α) (name : String) (stamp : Instant) :
    (r.relabel name stamp).answer = r.answer := by
  cases r <;> rfl

end Ruling

/-! ## One rule after the other -/

namespace Rules

theorem start_relabel (q : Quest) (p : Player) (force : Bool) (step : Option String)
    (now : Instant) (j : Journal) (name : String) (stamp : Instant) :
    start q p force step now (j.relabel name stamp)
      = (start q p force step now j).relabel name stamp := by
  simp only [start]
  have hrefusal : refusal? q p now (j.relabel name stamp) = refusal? q p now j := rfl
  have hactive : (j.relabel name stamp).isActive q.id = j.isActive q.id := rfl
  rw [hrefusal, hactive]
  cases (if force = true then none else refusal? q p now j) with
  | some refusal => rfl
  | none =>
      cases startingStep? q step with
      | none => rfl
      | some s => cases j.isActive q.id <;> rfl

theorem abandon_relabel (username quest : String) (j : Journal) (name : String)
    (stamp : Instant) :
    abandon username quest (j.relabel name stamp)
      = (abandon username quest j).relabel name stamp := by
  have hactive : (j.relabel name stamp).isActive quest = j.isActive quest := rfl
  simp only [abandon, hactive]
  cases j.isActive quest <;> rfl

theorem complete_relabel (username quest : String) (rewards : Option Rewards) (now : Instant)
    (j : Journal) (name : String) (stamp : Instant) :
    complete username quest rewards now (j.relabel name stamp)
      = (complete username quest rewards now j).relabel name stamp := by
  have hactive : (j.relabel name stamp).isActive quest = j.isActive quest := rfl
  simp only [complete, hactive]
  cases j.isActive quest <;> rfl

theorem fail_relabel (username quest : String) (reason : Option String) (now : Instant)
    (j : Journal) (name : String) (stamp : Instant) :
    fail username quest reason now (j.relabel name stamp)
      = (fail username quest reason now j).relabel name stamp := by
  have hactive : (j.relabel name stamp).isActive quest = j.isActive quest := rfl
  simp only [fail, hactive]
  cases j.isActive quest <;> rfl

theorem setVariable_relabel (quest key : String) (value : Value) (j : Journal) (name : String)
    (stamp : Instant) :
    setVariable quest key value (j.relabel name stamp)
      = (setVariable quest key value j).relabel name stamp := by
  have hactivation : (j.relabel name stamp).activation? quest = j.activation? quest := rfl
  simp only [setVariable, hactivation]
  cases j.activation? quest <;> rfl

theorem advanceTo_relabel (q : Quest) (target : Step) (username : String) (now : Instant)
    (j : Journal) (name : String) (stamp : Instant) :
    advanceTo q target username now (j.relabel name stamp)
      = (advanceTo q target username now j).relabel name stamp := by
  have hactivation : (j.relabel name stamp).activation? q.id = j.activation? q.id := rfl
  simp only [advanceTo, hactivation]
  cases j.activation? q.id <;> rfl

/-- The same transition of a journal under another name and stamp. -/
def Transition.relabel (name : String) (stamp : Instant) (t : Transition) : Transition :=
  { t with journal := t.journal.relabel name stamp }

theorem advanceQuest_relabel (c : Catalog) (username : String)
    (amount? : Objective → Option Amount) (now : Instant) (j : Journal) (quest name : String)
    (stamp : Instant) :
    advanceQuest c username amount? now (j.relabel name stamp) quest
      = (advanceQuest c username amount? now j quest).relabel name stamp := by
  have hactivation : (j.relabel name stamp).activation? quest = j.activation? quest := rfl
  simp only [advanceQuest, hactivation]
  split
  · rfl
  · rename_i q a s _
    have hcount : nextCount quest (j.relabel name stamp) = nextCount quest j := rfl
    rw [hcount]
    cases (stride q s username (nextCount quest j) amount? now a).finished <;>
      simp only [Transition.relabel] <;> rfl

theorem advanceAll_relabel (c : Catalog) (username : String)
    (amount? : Objective → Option Amount) (now : Instant) (name : String) (stamp : Instant) :
    ∀ (quests : List String) (j : Journal),
      advanceAll c username amount? now quests (j.relabel name stamp)
        = (advanceAll c username amount? now quests j).relabel name stamp
  | [], _ => rfl
  | quest :: rest, j => by
      simp only [advanceAll]
      rw [advanceQuest_relabel]
      simp only [Transition.relabel]
      rw [advanceAll_relabel c username amount? now name stamp rest]
      rfl

theorem progress_relabel (c : Catalog) (username : String) (amount? : Objective → Option Amount)
    (now : Instant) (j : Journal) (name : String) (stamp : Instant) :
    progress c username amount? now (j.relabel name stamp)
      = (progress c username amount? now j).relabel name stamp :=
  advanceAll_relabel c username amount? now name stamp _ j

theorem Transition.ruling_relabel {α : Type} (t : Transition) (answer : α) (name : String)
    (stamp : Instant) :
    (t.relabel name stamp).ruling answer = (t.ruling answer).relabel name stamp := by
  by_cases h : t.updates.isEmpty <;>
    simp [Transition.ruling, Transition.relabel, Ruling.relabel, h]

theorem choose_relabel (c : Catalog) (p : Player) (npc quest option : String) (now : Instant)
    (j : Journal) (name : String) (stamp : Instant) :
    choose c p npc quest option now (j.relabel name stamp)
      = (choose c p npc quest option now j).relabel name stamp := by
  have hchoice : choice? c p npc quest option (j.relabel name stamp)
      = choice? c p npc quest option j := rfl
  simp only [choose, hchoice]
  split
  · rfl
  · rename_i q origin picked _
    rw [progress_relabel]
    generalize progress c p.username _ now j = t
    have hactivation : (t.relabel name stamp).journal.activation? quest
        = t.journal.activation? quest := rfl
    rw [hactivation]
    split
    · rename_i target a _ _
      by_cases hstep : a.step = target.id
      · simp only [hstep, if_true]
        exact t.ruling_relabel _ name stamp
      · simp only [hstep, if_false]
        rfl
    · exact t.ruling_relabel _ name stamp

end Rules

/-! ## Every rule of every operation -/

/-- The same answer about a journal under another name and stamp. -/
def Answer.relabel (name : String) (stamp : Instant) : Answer → Answer
  | .progress j => .progress (j.relabel name stamp)
  | answer => answer

namespace Ruling

theorem map_answer_relabel {α : Type} {f : α → Answer} {name : String} {stamp : Instant}
    (hf : ∀ a, (f a).relabel name stamp = f a) (r : Ruling α) :
    (r.relabel name stamp).map f
      = ((r.map f).relabel name stamp).map (Answer.relabel name stamp) := by
  cases r with
  | look answer => cases answer <;> simp [relabel, map, Except.map, hf]
  | handle j answer => cases answer <;> simp [relabel, map, Except.map, hf]
  | commit j news answer => simp [relabel, map, hf]

end Ruling

/-- Every operation asks the same of a journal under another name and stamp. Only the
journal itself, where it is asked for, shows them. -/
theorem Operation.plan_relabel {c : Catalog} {now : Instant} {op : Operation} {username : String}
    {rule : Journal → Ruling Answer} (h : op.plan c now = .consult username rule) (j : Journal)
    (name : String) (stamp : Instant) :
    rule (j.relabel name stamp)
      = ((rule j).relabel name stamp).map (Answer.relabel name stamp) := by
  cases consults_of_plan h with
  | start p quest force step hq =>
      simp only [Rules.start_relabel]
      exact Ruling.map_answer_relabel (fun _ => rfl) _
  | abandon _ quest =>
      simp only [Rules.abandon_relabel]
      exact Ruling.map_answer_relabel (fun _ => rfl) _
  | complete _ quest =>
      simp only [Rules.complete_relabel]
      exact Ruling.map_answer_relabel (fun _ => rfl) _
  | fail _ quest reason =>
      simp only [Rules.fail_relabel]
      exact Ruling.map_answer_relabel (fun _ => rfl) _
  | report _ event payload =>
      simp only [Rules.report, Rules.progress_relabel, Rules.Transition.ruling_relabel]
      exact Ruling.map_answer_relabel (fun _ => rfl) _
  | poll p =>
      simp only [Rules.poll, Rules.progress_relabel, Rules.Transition.ruling_relabel]
      exact Ruling.map_answer_relabel (fun _ => rfl) _
  | advanceTo _ quest step hq htarget =>
      simp only [Rules.advanceTo_relabel]
      exact Ruling.map_answer_relabel (fun _ => rfl) _
  | setVariable _ quest key value =>
      simp only [Rules.setVariable_relabel]
      exact Ruling.map_answer_relabel (fun _ => rfl) _
  | choose p npc quest option =>
      simp only [Rules.choose_relabel]
      exact Ruling.map_answer_relabel (fun _ => rfl) _
  | _ => rfl

/-- Journals with one quest log are ruled on alike, each under its own name and stamp. -/
theorem Operation.plan_of_log_eq {c : Catalog} {now : Instant} {op : Operation}
    {username : String} {rule : Journal → Ruling Answer}
    (h : op.plan c now = .consult username rule) {i j : Journal} (hlog : j.log = i.log) :
    rule i = ((rule j).relabel i.username i.lastUpdated).map
        (Answer.relabel i.username i.lastUpdated)
      ∧ (rule i).journal i = ((rule j).journal j).relabel i.username i.lastUpdated := by
  have hi : i = j.relabel i.username i.lastUpdated := Journal.eq_relabel_of_log_eq hlog
  have hruling := (congrArg rule hi).trans
    (Operation.plan_relabel h j i.username i.lastUpdated)
  refine ⟨hruling, ?_⟩
  calc (rule i).journal i
      = ((rule j).relabel i.username i.lastUpdated).journal i := by
        rw [hruling, Ruling.journal_map]
    _ = ((rule j).relabel i.username i.lastUpdated).journal
          (j.relabel i.username i.lastUpdated) :=
        congrArg ((rule j).relabel i.username i.lastUpdated).journal hi
    _ = _ := Ruling.journal_relabel ..

/-- No rule renames a journal. -/
theorem Operation.username_plan {c : Catalog} {now : Instant} {op : Operation}
    {username : String} {rule : Journal → Ruling Answer}
    (h : op.plan c now = .consult username rule) (j : Journal) :
    ((rule j).journal j).username = j.username := by
  rw [(Operation.plan_of_log_eq h (Eq.refl j.log)).2, Journal.username_relabel]

end Questline
