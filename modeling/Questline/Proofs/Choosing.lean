import Questline.Proofs.Course
import Questline.Proofs.Faultless

/-!
# Picking an option is a talk and a branch

`Rules.choose` does the work of two operations with one write: the talk with the NPC is reported
(`Rules.talked`), and then `Rules.branch` sends the quest to the target of the option. Where the
quest is still on the step that the pick was made on, that is the same as one operation after the
other, in the journal and in the news. Where the talk alone has ended the quest or brought it to the
target, it is the talk. The one difference (`talked_then_branched`) is a quest that the talk has
moved on to a step besides: an `advanceTo` after the talk may complete that step and hand out its
actions, if its policy holds without any objective, but the pick leaves it uncompleted
(`Journal.reopen`).
-/

namespace Questline

/-! ## A step passed over -/

/-- The same progress, left uncompleted. -/
def StepProgress.reopen (p : StepProgress) : StepProgress :=
  { p with completed := false, completedAt := none }

/-- The same run through a quest, a step of it left uncompleted. -/
def Activation.reopen (a : Activation) (step : String) : Activation :=
  match a.progress.get? step with
  | some p => { a with progress := a.progress.insert step p.reopen }
  | none => a

/-- The same journal, a step of an active quest left uncompleted. -/
def Journal.reopen (quest step : String) (j : Journal) : Journal :=
  match j.activation? quest with
  | some a => j.update (a.reopen step)
  | none => j

theorem StepProgress.reopen_start (s : Step) (now : Instant) :
    (start s now).reopen = start s now := rfl

theorem StepProgress.reopen_complete_start (s : Step) (now : Instant) :
    ((start s now).complete now).reopen = start s now := rfl

namespace Activation

theorem quest_reopen (a : Activation) (step : String) : (a.reopen step).quest = a.quest := by
  unfold reopen
  split <;> rfl

theorem reopen_of_recorded {a : Activation} {step : String} {p : StepProgress}
    (h : a.progress.get? step = some p) :
    a.reopen step = { a with progress := a.progress.insert step p.reopen } := by
  unfold reopen
  rw [h]

/-- A step that was left for another one can be left uncompleted before or after. -/
theorem reopen_enter {a : Activation} {target : Step} (h : a.step ≠ target.id)
    (p : StepProgress) (now : Instant) :
    ((a.setCurrentProgress p).enter target now).reopen a.step
      = (a.setCurrentProgress p.reopen).enter target now := by
  have hget : ((a.setCurrentProgress p).enter target now).progress.get? a.step = some p := by
    simp [enter, setCurrentProgress, Ne.symm h]
  rw [reopen_of_recorded hget]
  simp only [enter, setCurrentProgress, Activation.mk.injEq, true_and, and_true]
  refine Dict.ext_get? fun k => ?_
  simp only [Dict.get?_insert]
  by_cases hk : a.step = k
  · subst hk
    simp [Ne.symm h]
  · simp [hk]

end Activation

theorem Journal.reopen_touch (quest step : String) (j : Journal) (now : Instant) :
    (j.touch now).reopen quest step = (j.reopen quest step).touch now := by
  have hactivation : (j.touch now).activation? quest = j.activation? quest := rfl
  unfold reopen
  rw [hactivation]
  cases j.activation? quest <;> rfl

/-- Only the last of several states recorded of a quest counts. -/
theorem replaceFirst_replaceFirst {a b : Activation} (h : b.quest = a.quest)
    (l : List Activation) :
    Journal.replaceFirst b (Journal.replaceFirst a l) = Journal.replaceFirst b l := by
  induction l with
  | nil => rfl
  | cons x rest ih =>
      by_cases hx : x.quest = a.quest
      · simp only [Journal.replaceFirst, hx, h, if_true]
      · simp only [Journal.replaceFirst, if_neg hx, if_neg (h ▸ hx), ih]

theorem Journal.update_update {a b : Activation} (h : b.quest = a.quest) (j : Journal) :
    (j.update a).update b = j.update b := by
  unfold update
  rw [replaceFirst_replaceFirst h]

theorem Journal.activation?_update {j : Journal} {a b : Activation}
    (h : j.activation? a.quest = some b) : (j.update a).activation? a.quest = some a := by
  have hthread := congrArg Thread.current (thread_update h a.quest)
  rw [if_pos rfl] at hthread
  exact hthread

theorem Journal.reopen_update {j : Journal} {a b : Activation} {quest : String}
    (hquest : a.quest = quest) (h : j.activation? quest = some b) (step : String) :
    (j.update a).reopen quest step = j.update (a.reopen step) := by
  subst hquest
  unfold reopen
  rw [activation?_update h]
  exact update_update (a.quest_reopen step) j

namespace Rules

/-- `branch` from a step that was entered in the same operation leaves the step uncompleted, whereas
one with that step as its origin completes it if its policy holds without progress. -/
theorem branch_entered {q : Quest} {s target : Step} {origin : String} (username : String)
    {now : Instant} {a : Activation} (hs : q.step? a.step = some s)
    (hfresh : a.progress.get? a.step = some (StepProgress.start s now))
    (hmoved : a.step ≠ origin) (helsewhere : a.step ≠ target.id) :
    branch q target origin username now a
      = ((branch q target a.step username now a).1.reopen a.step,
        .stepCompleted username q.id a.step (some target.id) target.onStart) := by
  have hid : s.id = a.step := Quest.id_of_step? hs
  have hcurrent : a.currentProgress s now = StepProgress.start s now :=
    Activation.currentProgress_of_recorded hfresh s now
  have hunearned : isEarned s (StepProgress.start s now) origin = false := by
    simp [isEarned, hid, hmoved]
  simp only [branch, hs, hcurrent, hunearned, Bool.false_eq_true, if_false, List.nil_append]
  split
  · rw [Activation.reopen_enter helsewhere, StepProgress.reopen_complete_start]
  · rw [Activation.reopen_enter helsewhere, StepProgress.reopen_start]

end Rules

/-! ## The talk -/

/-- A quest that a `QuestStride` has taken to another step is on a step just entered. -/
theorem QuestStride.entered {c : Catalog} {username : String} {now : Instant} {quest : String}
    {amount? : Objective → Option Amount} {t t' : Thread} {news : List Notification}
    (hc : c.Valid) (h : QuestStride c username now quest amount? t news t') {a b : Activation}
    (ha : t.current = some a) (hb : t'.current = some b) (hmoved : b.step ≠ a.step) :
    ∃ q s, c.get? quest = some q ∧ q.step? b.step = some s
      ∧ b.progress.get? b.step = some (StepProgress.start s now) := by
  cases h with
  | idle =>
      cases ha.symm.trans hb
      exact absurd rfl hmoved
  | update o =>
      cases ha
      cases hb
      exact absurd rfl hmoved
  | advance o _ hnext =>
      cases hb
      refine ⟨o.q, _, o.known, (hc _ _ o.known).step?_of_nextStep? hnext, ?_⟩
      simp [Activation.enter]
  | complete => cases hb

namespace Rules

theorem map_map_ruling {α β γ : Type} (f : α → β) (g : β → γ) (r : Ruling α) :
    (r.map f).map g = r.map (g ∘ f) := by
  cases r with
  | look answer => cases answer <;> rfl
  | handle i answer => cases answer <;> rfl
  | commit i news answer => rfl

/-- `Transition.ruling` depends on the answer in the answer only. -/
theorem Transition.ruling_eq_map {α : Type} (t : Transition) (answer : α) :
    t.ruling answer = (t.ruling ()).map fun _ => answer := by
  unfold ruling
  split <;> rfl

variable {c : Catalog} {p : Player} {npc quest option : String} {j : Journal} {q : Quest}
  {origin : String} {picked : Choice}

/-- The target of an option that `choice?` finds is a branch target of the current step. -/
theorem branchTarget_of_choice? (h : choice? c p npc quest option j = some (q, origin, picked))
    {target : String} (htarget : picked.advanceTo = some target) :
    ∃ s ∈ q.steps, target ∈ s.branchTargets := by
  simp only [choice?, Option.bind_eq_bind, Option.bind_eq_some_iff] at h
  obtain ⟨q', -, a, -, s, hs, d, hd, picked', hpicked, hoffered⟩ := h
  split at hoffered
  · cases hoffered
    refine ⟨s, List.mem_of_find?_eq_some hs, List.mem_flatMap.mpr ⟨d, ?_, ?_⟩⟩
    · exact List.mem_map.mpr ⟨_, mem_of_findValue? hd, rfl⟩
    · exact List.mem_filterMap.mpr ⟨picked, List.mem_of_find?_eq_some hpicked, htarget⟩
  · cases hoffered

/-- The target of an option of a valid quest is a step of the quest. -/
theorem target_of_choice? (hc : c.Valid)
    (h : choice? c p npc quest option j = some (q, origin, picked)) {target : String}
    (htarget : picked.advanceTo = some target) :
    ∃ s, q.step? target = some s ∧ s.id = target := by
  obtain ⟨hq, -⟩ := choice?_eq_some h
  obtain ⟨s, hs, hbranch⟩ := branchTarget_of_choice? h htarget
  obtain ⟨s', hs', hid⟩ := List.mem_map.mp ((hc _ _ hq).targets_known s hs target hbranch)
  exact ⟨s', hid ▸ (hc _ _ hq).step?_of_mem hs', hid⟩

/-- The `Rules.progress` of the talk that comes with a pick. -/
def talked (c : Catalog) (username npc option : String) (now : Instant) (j : Journal) :
    Transition :=
  progress c username
    (Objective.eventAmount? (talk npc option).name (talk npc option).payload) now j

/-- A step that a talk has moved a quest to has just been entered. -/
theorem entered_of_talked {username : String} {now : Instant} (hc : c.Valid)
    (hj : j.log.OrderlyAt quest) (hq : c.get? quest = some q) {a b : Activation}
    (ha : j.activation? quest = some a)
    (hb : (talked c username npc option now j).journal.activation? quest = some b)
    (hmoved : b.step ≠ a.step) :
    ∃ s, q.step? b.step = some s
      ∧ b.progress.get? b.step = some (StepProgress.start s now) := by
  let amount? := Objective.eventAmount? (talk npc option).name (talk npc option).payload
  have hthread := thread_progress c username amount? now hj.single
  have hstride := hj.stride (c := c) username now amount?
  rw [← hthread] at hstride
  obtain ⟨q', s, hq', hs, hfresh⟩ := hstride.entered hc ha hb hmoved
  cases hq.symm.trans hq'
  exact ⟨s, hs, hfresh⟩

/-- The answer of a pick, from the transition of its talk. -/
def Transition.choosing (t : Transition) (quest : String) (picked : Choice) : Choosing :=
  ⟨picked.actions, t.updates, (t.journal.activation? quest).bind fun _ => picked.advanceTo⟩

theorem Transition.advancedTo_choosing {t : Transition} {quest : String} {picked : Choice}
    {target : String} : (t.choosing quest picked).advancedTo = some target
      ↔ picked.advanceTo = some target ∧ t.journal.isActive quest = true := by
  unfold choosing Journal.isActive
  cases t.journal.activation? quest <;> simp

/-- `Rules.choose` is the talk alone if the option has no target, or the talk has ended the quest or
brought it there. -/
theorem choose_of_talk (hc : c.Valid) (now : Instant)
    (h : choice? c p npc quest option j = some (q, origin, picked))
    (hthere : ∀ target b, picked.advanceTo = some target →
      (talked c p.username npc option now j).journal.activation? quest = some b →
      b.step = target) :
    choose c p npc quest option now j
      = (talked c p.username npc option now j).ruling
        (some ((talked c p.username npc option now j).choosing quest picked)) := by
  simp only [choose, h]
  unfold talked at hthere ⊢
  generalize progress c p.username _ now j = t at *
  cases htarget : picked.advanceTo with
  | none =>
      simp only [Option.bind_none, Transition.choosing, htarget, Option.bind_fun_none]
  | some target =>
      obtain ⟨s, hs, hid⟩ := target_of_choice? hc h htarget
      simp only [Option.bind_some, hs, Transition.choosing, htarget]
      cases hb : t.journal.activation? quest with
      | none => rfl
      | some b =>
          simp only [hthere target b htarget hb, hid, if_true, Option.bind_some]

/-- Else it is one commit of the talk and a branch. -/
theorem choose_of_branch {now : Instant}
    (h : choice? c p npc quest option j = some (q, origin, picked)) {target : Step}
    (htarget : picked.advanceTo = some target.id) (hs : q.step? target.id = some target)
    {b : Activation}
    (hb : (talked c p.username npc option now j).journal.activation? quest = some b)
    (helsewhere : b.step ≠ target.id) :
    choose c p npc quest option now j
      = .commit ((talked c p.username npc option now j).journal.update
          (branch q target origin p.username now b).1)
        ((talked c p.username npc option now j).news
          ++ [(branch q target origin p.username now b).2])
        (some ((talked c p.username npc option now j).choosing quest picked)) := by
  simp only [choose, h]
  unfold talked at hb ⊢
  generalize progress c p.username _ now j = t at *
  simp only [htarget, Option.bind_some, hs, hb, if_neg helsewhere, Transition.choosing]

theorem answer_choosing (hc : c.Valid) {now : Instant}
    (h : choice? c p npc quest option j = some (q, origin, picked)) :
    (choose c p npc quest option now j).answer
      = .ok (some ((talked c p.username npc option now j).choosing quest picked)) := by
  by_cases hthere : ∀ target b, picked.advanceTo = some target →
      (talked c p.username npc option now j).journal.activation? quest = some b → b.step = target
  · rw [choose_of_talk hc now h hthere, Transition.answer_ruling]
  · push Not at hthere
    obtain ⟨target, b, htarget, hb, helsewhere⟩ := hthere
    obtain ⟨s, hs, rfl⟩ := target_of_choice? hc h htarget
    rw [choose_of_branch h htarget hs hb helsewhere]
    rfl

end Rules

/-! ## Runs -/

/-- The same place with another journal, in use and stored. -/
def Place.map (f : Journal → Journal) (p : Place) : Place where
  slot := p.slot.map fun
    | .unloaded => .unloaded
    | .loaded j dirty => .loaded (f j) dirty
  record := p.record.map f

variable {ρ : Type} [Repository ρ] [TableRepository ρ]

namespace Engine

/-- Two engines that keep the same of everyone, but for one player, of whom the first keeps what
`f` makes of the journals of the second. -/
structure SameUpTo (key : String) (f : Journal → Journal) (e e' : Engine ρ) : Prop where
  catalog : e.catalog = e'.catalog
  limit : e.store.limit = e'.store.limit
  frame : ∀ k, key ≠ k → e.store.place k = e'.store.place k
  place : e.store.place key = (e'.store.place key).map f

/-- Two commits for one player leave engines that differ in what they commit, if all else was the
same before. -/
theorem SameUpTo.of_commits {e e' : Engine ρ} {c : Circumstances} {username : String}
    {i i' : Journal} {news news' : List Notification} {answer answer' : Answer} {o o' : Outcome ρ}
    (h : e.Ruled c username (.commit i news answer) o)
    (h' : e'.Ruled c username (.commit i' news' answer') o') (hcatalog : e.catalog = e'.catalog)
    (hlimit : e.store.limit = e'.store.limit)
    (hframe : ∀ k, playerKey username ≠ k → e.store.place k = e'.store.place k)
    {f : Journal → Journal} (hf : i.touch c.savedAt = f (i'.touch c.savedAt)) :
    o.engine.SameUpTo (playerKey username) f o'.engine where
  catalog := h.catalog.trans (hcatalog.trans h'.catalog.symm)
  limit := h.limit.trans (hlimit.trans h'.limit.symm)
  frame k hk := (h.frame k hk).trans ((hframe k hk).trans (h'.frame k hk).symm)
  place := by
    rw [h.written, h'.written, hf]
    rfl

/-- Two operations whose rulings differ in the answer only leave the same engine and publish the
same. -/
theorem consult_alike {α : Type} {e : Engine ρ} {c : Circumstances} {username : String}
    {rule rule' : Journal → Ruling Answer} (r : Ruling α) (f g : α → Answer)
    (h : rule (e.store.opened c username) = r.map f)
    (h' : rule' (e.store.opened c username) = r.map g) :
    (e.consult c username rule).engine = (e.consult c username rule').engine
      ∧ (e.consult c username rule).news = (e.consult c username rule').news := by
  rcases e.store.fetch_cases c username with ⟨fault, -, -, hfetch⟩ | ⟨s, accesses, hfetch, -⟩
  · simp only [consult, hfetch, and_self]
  · simp only [consult, hfetch, h, h']
    cases r <;> exact ⟨rfl, rfl⟩

section Pick

variable {e : Engine ρ} (hs : e.store.Sound) {c : Circumstances} (hc : c.Faultless)

include hs hc

theorem ruled_talk (p : Player) (npc option : String) :
    e.Ruled c p.username
      (((Rules.talked e.catalog p.username npc option c.now (e.store.opened c p.username)).ruling
        (Rules.talked e.catalog p.username npc option c.now
          (e.store.opened c p.username)).updates).map .updates)
      (e.run c (.ingest p.username (Rules.talk npc option))) := by
  have hplan : (Operation.ingest p.username (Rules.talk npc option)).plan e.catalog c.now
      = .consult p.username fun j => (Rules.report e.catalog p.username
        (Rules.talk npc option).name (Rules.talk npc option).payload c.now j).map .updates := rfl
  exact run_faultless hs hc hplan

/-- After the talk, an access finds the journal of its transition, up to the stamp. -/
theorem opened_talk (p : Player) (npc option : String) :
    ∃ stamp, (e.run c (.ingest p.username (Rules.talk npc option))).engine.store.opened c p.username
      = (Rules.talked e.catalog p.username npc option c.now
          (e.store.opened c p.username)).journal.touch stamp := by
  rw [(ruled_talk hs hc p npc option).opened c]
  generalize Rules.talked e.catalog p.username npc option c.now (e.store.opened c p.username) = t
  unfold Rules.Transition.ruling
  split
  · exact ⟨t.journal.lastUpdated, rfl⟩
  · exact ⟨c.savedAt, rfl⟩

theorem news_talk (p : Player) (npc option : String) :
    (e.run c (.ingest p.username (Rules.talk npc option))).news
      = (Rules.talked e.catalog p.username npc option c.now
          (e.store.opened c p.username)).news := by
  rw [(ruled_talk hs hc p npc option).news, Ruling.news_map]
  exact Rules.news_ruling_progress ..

variable {p : Player} {npc quest option : String}

section Branch

variable {q : Quest} {target : Step} {b : Activation} (hstep : q.step? target.id = some target)
  (hb : ((e.run c (.ingest p.username (Rules.talk npc option))).engine.store.opened c
    p.username).activation? quest = some b)

include hstep hb

/-- After the talk, `advanceTo` commits the branch from the step that the talk leaves. -/
theorem ruled_branch (hq : e.catalog.get? quest = some q) :
    let talked := e.run c (.ingest p.username (Rules.talk npc option))
    talked.engine.Ruled c p.username
      (.commit ((talked.engine.store.opened c p.username).update
          (Rules.branch q target b.step p.username c.now b).1)
        [(Rules.branch q target b.step p.username c.now b).2] .done)
      (talked.engine.run c (.advanceTo p.username quest target.id)) := by
  intro talked
  have hcatalog : talked.engine.catalog = e.catalog := (ruled_talk hs hc p npc option).catalog
  have hsound : talked.engine.store.Sound :=
    take_sound hs (.perform c (.ingest p.username (Rules.talk npc option)))
  have hplan : (Operation.advanceTo p.username quest target.id).plan talked.engine.catalog c.now
      = .consult p.username fun j =>
        (Rules.advanceTo q target p.username c.now j).map fun _ => .done := by
    simp only [Operation.plan, hcatalog, hq, hstep]
  have hruled := run_faultless hsound hc hplan
  have hid : q.id = quest := Catalog.id_of_get? hq
  simp only [Rules.advanceTo, hid, talked, hb] at hruled
  exact hruled

variable {origin : String} {picked : Choice}
  (hchoice : Rules.choice? e.catalog p npc quest option (e.store.opened c p.username)
    = some (q, origin, picked))
  (htarget : picked.advanceTo = some target.id) (helsewhere : b.step ≠ target.id)

include hchoice htarget helsewhere

/-- A pick that branches commits the branch from the step that the quest was on before the talk. -/
theorem ruled_pick :
    let t := Rules.talked e.catalog p.username npc option c.now (e.store.opened c p.username)
    e.Ruled c p.username
      (.commit (t.journal.update (Rules.branch q target origin p.username c.now b).1)
        (t.news ++ [(Rules.branch q target origin p.username c.now b).2])
        (.chosen (some (t.choosing quest picked))))
      (e.run c (.choose p npc quest option)) := by
  intro t
  have hplan : (Operation.choose p npc quest option).plan e.catalog c.now = .consult p.username
      fun j => (Rules.choose e.catalog p npc quest option c.now j).map .chosen := rfl
  have hruled := run_faultless hs hc hplan
  obtain ⟨stamp, hopened⟩ := opened_talk hs hc p npc option
  rw [hopened] at hb
  rw [Rules.choose_of_branch hchoice htarget hstep hb helsewhere] at hruled
  exact hruled

theorem news_pick :
    (e.run c (.choose p npc quest option)).news
      = (e.run c (.ingest p.username (Rules.talk npc option))).news
        ++ [(Rules.branch q target origin p.username c.now b).2] := by
  rw [news_talk hs hc p npc option]
  exact (ruled_pick hs hc hstep hb hchoice htarget helsewhere).news

/-- The pick keeps of the player what `f` makes of what `advanceTo` after the talk keeps, if `f`
makes the one branch of the other. -/
theorem sameUpTo_pick {f : Journal → Journal}
    (hf : ∀ (j : Journal) (stamp : Instant), j.activation? quest = some b →
      (j.update (Rules.branch q target origin p.username c.now b).1).touch stamp
        = f ((j.update (Rules.branch q target b.step p.username c.now b).1).touch stamp)) :
    (e.run c (.choose p npc quest option)).engine.SameUpTo (playerKey p.username) f
      ((e.run c (.ingest p.username (Rules.talk npc option))).engine.run c
        (.advanceTo p.username quest target.id)).engine := by
  obtain ⟨hq, -⟩ := choice?_eq_some hchoice
  have htalk := ruled_talk hs hc p npc option
  obtain ⟨stamp, hopened⟩ := opened_talk hs hc p npc option
  refine SameUpTo.of_commits (ruled_pick hs hc hstep hb hchoice htarget helsewhere)
    (ruled_branch hs hc hstep hb hq) htalk.catalog.symm htalk.limit.symm
    (fun k hk => (htalk.frame k hk).symm) ?_
  rw [hopened] at hb ⊢
  exact hf _ c.savedAt hb

/-- If the talk has left the quest on its step, a pick that branches does what `advanceTo` does
after the talk. -/
theorem pick_of_still (hstill : b.step = origin) :
    let chosen := e.run c (.choose p npc quest option)
    let talked := e.run c (.ingest p.username (Rules.talk npc option))
    let branched := talked.engine.run c (.advanceTo p.username quest target.id)
    chosen.engine.SameUpTo (playerKey p.username) id branched.engine
      ∧ chosen.news = talked.news ++ branched.news := by
  intro chosen talked branched
  obtain ⟨hq, -⟩ := choice?_eq_some hchoice
  subst hstill
  refine ⟨sameUpTo_pick hs hc hstep hb hchoice htarget helsewhere fun _ _ _ => rfl, ?_⟩
  rw [show branched.news = _ from (ruled_branch hs hc hstep hb hq).news]
  exact news_pick hs hc hstep hb hchoice htarget helsewhere

/-- If the talk has moved the quest on, the two differ in the step between. -/
theorem pick_of_moved (hv : e.catalog.Valid)
    (ho : (e.store.opened c p.username).log.OrderlyAt quest) {a : Activation}
    (ha : (e.store.opened c p.username).activation? quest = some a) (horigin : a.step = origin)
    (hmoved : b.step ≠ origin) :
    let chosen := e.run c (.choose p npc quest option)
    let talked := e.run c (.ingest p.username (Rules.talk npc option))
    let branched := talked.engine.run c (.advanceTo p.username quest target.id)
    chosen.engine.SameUpTo (playerKey p.username) (Journal.reopen quest b.step) branched.engine
      ∧ (∃ actions, branched.news
        = [.stepCompleted p.username quest b.step (some target.id) actions])
      ∧ chosen.news = talked.news
        ++ [.stepCompleted p.username quest b.step (some target.id) target.onStart] := by
  intro chosen talked branched
  subst horigin
  obtain ⟨hq, -⟩ := choice?_eq_some hchoice
  have hid : q.id = quest := Catalog.id_of_get? hq
  obtain ⟨stamp, hopened⟩ := opened_talk hs hc p npc option
  have hafter : (Rules.talked e.catalog p.username npc option c.now
      (e.store.opened c p.username)).journal.activation? quest = some b := by
    rw [hopened] at hb
    exact hb
  obtain ⟨s, hs', hfresh⟩ := Rules.entered_of_talked hv ho hq ha hafter hmoved
  have hentered := Rules.branch_entered p.username hs' hfresh hmoved helsewhere
  have hquest : (Rules.branch q target b.step p.username c.now b).1.quest = quest :=
    (quest_branch ..).trans (Journal.quest_of_activation? hb)
  refine ⟨sameUpTo_pick hs hc hstep hb hchoice htarget helsewhere fun j stamp hj => ?_, ?_, ?_⟩
  · rw [hentered, Journal.reopen_touch, Journal.reopen_update hquest hj]
  · have hnews : branched.news = _ := (ruled_branch hs hc hstep hb hq).news
    exact ⟨_, by rw [hnews, ← hid]; rfl⟩
  · rw [← hid, show chosen.news = _ from news_pick hs hc hstep hb hchoice htarget helsewhere,
      hentered]

end Branch

/-- A pick without a branch leaves and publishes what the talk does. -/
theorem pick_of_talk (hv : e.catalog.Valid) {q : Quest} {origin : String} {picked : Choice}
    (hchoice : Rules.choice? e.catalog p npc quest option (e.store.opened c p.username)
      = some (q, origin, picked))
    (hthere : ∀ target b, picked.advanceTo = some target →
      ((e.run c (.ingest p.username (Rules.talk npc option))).engine.store.opened c
        p.username).activation? quest = some b → b.step = target) :
    (e.run c (.choose p npc quest option)).engine
        = (e.run c (.ingest p.username (Rules.talk npc option))).engine
      ∧ (e.run c (.choose p npc quest option)).news
        = (e.run c (.ingest p.username (Rules.talk npc option))).news := by
  obtain ⟨stamp, hopened⟩ := opened_talk hs hc p npc option
  rw [hopened] at hthere
  have hchoose := Rules.choose_of_talk hv c.now hchoice hthere
  let t := Rules.talked e.catalog p.username npc option c.now (e.store.opened c p.username)
  refine consult_alike (t.ruling ()) (fun _ => .chosen (some (t.choosing quest picked)))
    (fun _ => .updates t.updates) ?_ ?_
  · rw [hchoose, Rules.Transition.ruling_eq_map, Rules.map_map_ruling]
    rfl
  · show (t.ruling t.updates).map Answer.updates = _
    rw [Rules.Transition.ruling_eq_map, Rules.map_map_ruling]
    rfl

/-- The answer of a pick that finds an option. -/
theorem answer_of_pick (hv : e.catalog.Valid) {choosing : Choosing}
    (hchosen : (e.run c (.choose p npc quest option)).answer = .ok (.chosen (some choosing))) :
    ∃ q a picked, Rules.choice? e.catalog p npc quest option (e.store.opened c p.username)
        = some (q, a.step, picked)
      ∧ (e.store.opened c p.username).activation? quest = some a
      ∧ choosing = (Rules.talked e.catalog p.username npc option c.now
          (e.store.opened c p.username)).choosing quest picked := by
  have hplan : (Operation.choose p npc quest option).plan e.catalog c.now = .consult p.username
      fun j => (Rules.choose e.catalog p npc quest option c.now j).map .chosen := rfl
  rw [(run_faultless hs hc hplan).answer, Ruling.answer_map] at hchosen
  cases hchoice : Rules.choice? e.catalog p npc quest option (e.store.opened c p.username) with
  | none =>
      simp only [Rules.choose, hchoice] at hchosen
      cases hchosen
  | some r =>
      obtain ⟨q, origin, picked⟩ := r
      obtain ⟨-, a, ha, rfl, -⟩ := choice?_eq_some hchoice
      refine ⟨q, a, picked, rfl, ha, ?_⟩
      rw [Rules.answer_choosing hv hchoice] at hchosen
      cases hchosen
      rfl

end Pick

end Engine

/-- **Picking an option is a talk and a branch.** In every state that a run over an empty
repository reaches under a catalog of valid quests, where nothing fails, a pick that comes to an
option answers what the talk moves, and the target of the option if the talk leaves the quest
active. If the option leads nowhere, or the talk has ended the quest or brought it to the target,
the pick leaves and publishes what the talk does. Else it is the talk and an `advanceTo` one after
the other, except that a step the talk has moved the quest on to is left uncompleted, and only
what begins the target is handed out. -/
theorem talked_then_branched (catalog : Catalog) (hvalid : catalog.Valid) (repository : ρ)
    (hempty : TableRepository.records repository = ∅) (limit : Nat) (turns : List Turn)
    (hkeep : ∀ t ∈ turns, t.Keeps catalog) (c : Circumstances) (hc : c.Faultless) (p : Player)
    (npc quest option : String) (choosing : Choosing) :
    let e := (Engine.new catalog repository limit).after turns
    let chosen := e.run c (.choose p npc quest option)
    let talked := e.run c (.ingest p.username (Rules.talk npc option))
    let before := e.store.opened c p.username
    let after := talked.engine.store.opened c p.username
    chosen.answer = .ok (.chosen (some choosing)) →
    ∃ q a picked, Rules.choice? catalog p npc quest option before = some (q, a.step, picked)
      ∧ before.activation? quest = some a
      ∧ talked.answer = .ok (.updates choosing.updates) ∧ choosing.actions = picked.actions
      ∧ (∀ target, choosing.advancedTo = some target
        ↔ picked.advanceTo = some target ∧ after.isActive quest = true)
      ∧ (picked.advanceTo = none ∨ after.isActive quest = false
          ∨ (after.activation? quest).map (·.step) = picked.advanceTo →
        chosen.engine = talked.engine ∧ chosen.news = talked.news)
      ∧ ∀ target b, picked.advanceTo = some target → after.activation? quest = some b →
        b.step ≠ target →
        let branched := talked.engine.run c (.advanceTo p.username quest target)
        branched.answer = .ok .done
          ∧ (b.step = a.step →
            chosen.engine.SameUpTo (playerKey p.username) id branched.engine
              ∧ chosen.news = talked.news ++ branched.news)
          ∧ (b.step ≠ a.step →
            chosen.engine.SameUpTo (playerKey p.username) (Journal.reopen quest b.step)
                branched.engine
              ∧ ∃ s actions, q.step? target = some s
                ∧ branched.news = [.stepCompleted p.username quest b.step (some target) actions]
                ∧ chosen.news = talked.news
                  ++ [.stepCompleted p.username quest b.step (some target) s.onStart]) := by
  intro e
  have hsettled : e.RunInvariant catalog :=
    (Engine.runInvariant_new catalog hempty limit).after hvalid hkeep
  clear_value e
  obtain ⟨rfl, hs, ho, -⟩ := hsettled
  intro chosen talked before after hchosen
  have horderly : before.log.OrderlyAt quest := by
    have hlog := e.store.log_opened c p.username
    exact hlog ▸ (ho (playerKey p.username)).at quest
  obtain ⟨q, a, picked, hchoice, ha, rfl⟩ := Engine.answer_of_pick hs hc hvalid hchosen
  have htalk := Engine.ruled_talk hs hc p npc option
  obtain ⟨stamp, hopened⟩ := Engine.opened_talk hs hc p npc option
  refine ⟨q, a, picked, hchoice, ha, ?_, rfl, fun target => ?_, fun hthere => ?_, ?_⟩
  · rw [show talked.answer = _ from htalk.answer, Ruling.answer_map,
      Rules.Transition.answer_ruling]
    rfl
  · have hactive : after.isActive quest = _ := congrArg (·.isActive quest) hopened
    rw [hactive]
    exact Rules.Transition.advancedTo_choosing
  · refine Engine.pick_of_talk hs hc hvalid hchoice fun target b htarget hb => ?_
    rcases hthere with hnone | hended | hcome
    · rw [hnone] at htarget
      cases htarget
    · rw [Journal.isActive, show after.activation? quest = some b from hb] at hended
      cases hended
    · rw [show after.activation? quest = some b from hb, htarget] at hcome
      exact Option.some.inj hcome
  · intro target b htarget hb helsewhere branched
    obtain ⟨s, hs', rfl⟩ := Rules.target_of_choice? hvalid hchoice htarget
    obtain ⟨hq, -⟩ := choice?_eq_some hchoice
    have hbranched := Engine.ruled_branch hs hc hs' hb hq
    refine ⟨hbranched.answer, fun hstill => ?_, fun hmoved => ?_⟩
    · exact Engine.pick_of_still hs hc hs' hb hchoice htarget helsewhere hstill
    · obtain ⟨hsame, ⟨actions, hnews⟩, hnews'⟩ :=
        Engine.pick_of_moved hs hc hs' hb hchoice htarget helsewhere hvalid horderly ha rfl hmoved
      exact ⟨hsame, s, actions, hs', hnews, hnews'⟩

/-- Two ways past a guard: to wait outside with nothing to do, or to give the password. -/
def vault : Quest where
  id := "vault"
  name := "Vault"
  description := ""
  category := .side
  repeatable := false
  cooldown := none
  prerequisites := .none
  steps :=
    [{ id := "ask", name := "Ask", description := "",
        objectives := [⟨"talk", "", none, .talkToNpc "guard" none⟩],
        dialogues := Dict.ofList [("guard", ⟨none, "Your business?",
          [⟨"password", "Swordfish.", .none, some "enter", []⟩]⟩)],
        onStart := [], onComplete := [.message "Psst."], requireAll := true },
      { id := "wait", name := "Wait", description := "", objectives := [], dialogues := ∅,
        onStart := [], onComplete := [.giveItem "coin" 10], requireAll := true },
      { id := "enter", name := "Enter", description := "",
        objectives := [⟨"enter", "", none, .enterRoom "vault"⟩], dialogues := ∅,
        onStart := [.message "It is dark."], onComplete := [], requireAll := true }]
  rewards := none
  chain := none

/-- The talk moves the quest on to the step between, which the password passes over: its coins are
handed out by an `advanceTo` after the talk, and not by the pick. -/
theorem talked_then_branched_vault :
    let turns := [Turn.perform (.calm .epoch) (.start (.named "cat" 1) "vault" false none)]
    let e := (Engine.new (Catalog.ofQuests [vault]) MemoryRepository.empty 5000).after turns
    let chosen := e.run (.calm .epoch) (.choose (.named "cat" 1) "guard" "vault" "password")
    let talked := e.run (.calm .epoch) (.ingest "cat" (Rules.talk "guard" "password"))
    let branched := talked.engine.run (.calm .epoch) (.advanceTo "cat" "vault" "enter")
    (Catalog.ofQuests [vault]).Valid ∧ TableRepository.records MemoryRepository.empty = ∅
      ∧ (∀ t ∈ turns, t.Keeps (Catalog.ofQuests [vault]))
      ∧ (Circumstances.calm .epoch).Faultless
      ∧ chosen.engine.SameUpTo "cat" (Journal.reopen "vault" "wait") branched.engine
      ∧ branched.news = [.stepCompleted "cat" "vault" "wait" (some "enter")
        [.giveItem "coin" 10, .message "It is dark."]]
      ∧ chosen.news = talked.news
        ++ [.stepCompleted "cat" "vault" "wait" (some "enter") [.message "It is dark."]] := by
  intro turns e chosen talked branched
  have hvalid : (Catalog.ofQuests [vault]).Valid := Catalog.valid_ofQuests fun q hq => by
    rw [List.mem_singleton.mp hq]
    decide
  have hkeep : ∀ t ∈ turns, t.Keeps (Catalog.ofQuests [vault]) := by simp [turns, Turn.Keeps]
  have hc := Circumstances.faultless_calm .epoch
  obtain ⟨q, a, picked, hchoice, ha, -, -, -, -, hbranch⟩ := talked_then_branched
    (Catalog.ofQuests [vault]) hvalid MemoryRepository.empty rfl 5000 turns hkeep (.calm .epoch)
    hc (.named "cat" 1) "guard" "vault" "password"
    ⟨[], [⟨"vault", "ask", [⟨"talk", 1, 1, true⟩], true, true, some "wait", false, none⟩],
      some "enter"⟩ (by rfl)
  have hask : Rules.choice? (Catalog.ofQuests [vault]) (.named "cat" 1) "guard" "vault" "password"
      (e.store.opened (.calm .epoch) "cat")
      = some (vault, "ask", ⟨"password", "Swordfish.", .none, some "enter", []⟩) := by rfl
  obtain ⟨b, hb, hwait⟩ : ∃ b, (talked.engine.store.opened (.calm .epoch) "cat").activation? "vault"
      = some b ∧ b.step = "wait" := ⟨_, rfl, rfl⟩
  obtain ⟨rfl, hpicked⟩ := Prod.mk.inj (Option.some.inj (hask.symm.trans hchoice))
  obtain ⟨hstep, rfl⟩ := Prod.mk.inj hpicked
  obtain ⟨-, -, hmoved⟩ := hbranch "enter" b rfl hb (by rw [hwait]; decide)
  obtain ⟨hsame, s, actions, hs, hbranched, hnews⟩ := hmoved (by rw [hwait, ← hstep]; decide)
  rw [hwait] at hsame hnews
  have henter : s.onStart = [.message "It is dark."] := by
    have hfind : vault.step? "enter" = some _ := rfl
    rw [hfind] at hs
    cases hs
    rfl
  refine ⟨hvalid, rfl, hkeep, hc, hsame, by rfl, ?_⟩
  rw [henter] at hnews
  exact hnews

end Questline
