import Questline.Proofs.Edit

/-!
# What was acknowledged is stored

A journal in use that does not count as unsaved is the stored one in every field, and an
operation that reports a change to the one who asked leaves its journal so. Hence a restart
right after it, which forgets all journals in use and writes none (`Engine.restart`), loses
nothing of that player: the next access finds the very journal that was in use, with all that
earlier writes failed to store (`written_through`).

Two facts carry this. Only a commit answers that something has changed
(`Operation.commit_of_reports`), and a commit whose answer is no failure has been written
(`Engine.written_of_commit`).

This is stated for repositories that are tables of journals; for a repository that keeps them as
texts see `documents_written_through`.
-/

namespace Questline

namespace Operation

/-- The player that an operation is about. -/
def username : Operation → String
  | start p _ _ _ | canStart p _ | available p | poll p | dialogues p _ | choose p _ _ _ =>
    p.username
  | abandon u _ | complete u _ | fail u _ _ | report u _ _ | advanceTo u _ _
  | setVariable u _ _ _ | allDialogues u _ | progress u | status u _ | evict u => u

/-- Whether an answer reports a change to the journal that an operation has found. An option
that leads to the step that its quest is on already is no branch. -/
def reports (j : Journal) : Operation → Answer → Bool
  | start _ _ _ _, .started _ => true
  | abandon _ _, .changed flag => flag
  | fail _ _ _, .changed flag => flag
  | complete _ _, .completed result => result.isSome
  | report _ _ _, .updates updates => !updates.isEmpty
  | poll _, .updates updates => !updates.isEmpty
  | advanceTo _ _ _, .done => true
  | setVariable _ _ _ _, .done => true
  | choose _ _ quest _, .chosen (some r) =>
    !r.updates.isEmpty
      || r.advancedTo.isSome && decide (r.advancedTo ≠ (j.activation? quest).map (·.step))
  | _, _ => false

end Operation

/-! ## Rulings that report nothing -/

namespace Rules

/-- A `Rules.stride` without an update leaves the quest on its step. -/
theorem stride_still {q : Quest} {s : Step} {username : String} {count : UInt32}
    {amount? : Objective → Option Amount} {now : Instant} {a : Activation}
    (h : (stride q s username count amount? now a).update = none) :
    (stride q s username count amount? now a).finished = false
      ∧ (stride q s username count amount? now a).activation.step = a.step := by
  simp only [stride] at h ⊢
  split
  · exact ⟨rfl, rfl⟩
  · rename_i hopen
    rw [if_neg hopen] at h
    split
    · exact ⟨rfl, rfl⟩
    · rename_i hmoved
      rw [if_neg hmoved] at h
      split at h
      · cases h
      · split at h <;> cases h

variable {c : Catalog} {username : String} {amount? : Objective → Option Amount} {now : Instant}

theorem still_advanceQuest {j : Journal} {quest : String}
    (h : (advanceQuest c username amount? now j quest).updates = []) (x : String) :
    ((advanceQuest c username amount? now j quest).journal.activation? x).map (·.step)
      = (j.activation? x).map (·.step) := by
  rw [advanceQuest_eq] at h ⊢
  cases hstride : (j.thread quest).stride? c username amount? now quest with
  | none => rfl
  | some r =>
      rw [hstride] at h
      obtain ⟨⟨q, a, s⟩, hposition, rfl⟩ := Option.map_eq_some_iff.mp hstride
      obtain ⟨-, ha, -⟩ := Thread.position?_eq_some.mp hposition
      obtain ⟨hfinished, hstep⟩ := stride_still (Option.toList_eq_nil_iff.mp h)
      have hquest := (stride_quest q s username ((j.thread quest).count.getD 0 + 1) amount? now
        a).trans (Journal.quest_of_activation? ha)
      dsimp only
      generalize stride q s username ((j.thread quest).count.getD 0 + 1) amount? now a = r at *
      have hthread := congrArg Thread.current
        (Journal.thread_update (j := j) (a := r.activation) (b := a) (hquest ▸ ha) x)
      rw [hfinished, if_neg Bool.false_ne_true]
      refine (congrArg (Option.map Activation.step) hthread).trans ?_
      by_cases hx : r.activation.quest = x
      · subst hx
        have ha' : j.activation? r.activation.quest = some a := hquest ▸ ha
        rw [if_pos rfl, ha', Option.map_some, hstep, Option.map_some]
      · rw [if_neg hx]
        rfl

theorem still_advanceAll {quests : List String} {j : Journal}
    (h : (advanceAll c username amount? now quests j).updates = []) (x : String) :
    ((advanceAll c username amount? now quests j).journal.activation? x).map (·.step)
      = (j.activation? x).map (·.step) := by
  induction quests generalizing j with
  | nil => rfl
  | cons quest rest ih =>
      obtain ⟨hfirst, hlater⟩ := List.append_eq_nil_iff.mp h
      exact (ih hlater).trans (still_advanceQuest hfirst x)

/-- A `Rules.progress` without updates leaves every quest on its step. -/
theorem still_progress {j : Journal} (h : (progress c username amount? now j).updates = [])
    (x : String) :
    ((progress c username amount? now j).journal.activation? x).map (·.step)
      = (j.activation? x).map (·.step) := still_advanceAll h x

/-- A transition with an update is committed. -/
theorem Transition.ruling_of_updates {α : Type} {t : Transition} (h : t.updates ≠ [])
    (answer : α) : t.ruling answer = .commit t.journal t.news answer := by
  unfold Transition.ruling
  rw [if_neg fun hempty => h (List.isEmpty_iff.mp hempty)]

/-- A `choose` whose answer has an update or a branch is committed. -/
theorem commit_choose {p : Player} {npc quest option : String} {j : Journal} {r : Choosing}
    (hanswer : (choose c p npc quest option now j).answer = .ok (some r))
    (hreports : (Operation.choose p npc quest option).reports j (.chosen (some r)) = true) :
    ∃ i news, choose c p npc quest option now j = .commit i news (some r) := by
  cases hchoice : choice? c p npc quest option j with
  | none =>
      simp only [choose, hchoice] at hanswer
      cases hanswer
  | some picked =>
      obtain ⟨q, origin, picked⟩ := picked
      simp only [choose, hchoice] at hanswer ⊢
      have hstill := @still_progress c p.username
        (Objective.eventAmount? (talk npc option).name (talk npc option).payload) now j
      generalize progress c p.username _ now j = t at *
      -- without a branch, something has to be answered of the talk
      have htalk : ∀ r' : Choosing, (t.ruling (some r')).answer = .ok (some r) →
          t.updates ≠ [] → ∃ i news, t.ruling (some r') = .commit i news (some r) := by
        intro r' h hmoved
        rw [t.answer_ruling] at h
        cases h
        exact ⟨_, _, Transition.ruling_of_updates hmoved _⟩
      simp only [Operation.reports, Bool.or_eq_true, Bool.not_eq_true', List.isEmpty_eq_false_iff,
        Bool.and_eq_true, decide_eq_true_eq] at hreports
      cases htarget : picked.advanceTo.bind q.step? with
      | none =>
          rw [htarget] at hanswer
          refine htalk _ hanswer ?_
          rw [t.answer_ruling] at hanswer
          cases hanswer
          exact hreports.resolve_right fun h => Bool.false_ne_true h.1
      | some target =>
          rw [htarget] at hanswer
          cases ha : t.journal.activation? quest with
          | none =>
              rw [ha] at hanswer
              refine htalk _ hanswer ?_
              rw [t.answer_ruling] at hanswer
              cases hanswer
              exact hreports.resolve_right fun h => Bool.false_ne_true h.1
          | some a =>
              rw [ha] at hanswer
              dsimp only at hanswer ⊢
              by_cases hthere : a.step = target.id
              · rw [if_pos hthere] at hanswer ⊢
                refine htalk _ hanswer fun hnone => ?_
                rw [t.answer_ruling] at hanswer
                cases hanswer
                have hstep := hstill hnone quest
                rw [ha, Option.map_some, hthere] at hstep
                rcases hreports with hmoved | ⟨-, hbranch⟩
                · exact hmoved hnone
                · exact hbranch hstep
              · rw [if_neg hthere] at hanswer ⊢
                cases hanswer
                exact ⟨_, _, rfl⟩

end Rules

/-! ## Only a commit reports a change -/

/-- A ruling that commits or handles by a condition, and answers differently in the two cases,
commits if it gives the first answer. -/
theorem Ruling.commit_of_ite {α : Type} {f : α → Answer} {active : Bool} {i j : Journal}
    {news : List Notification} {done idle : α} {answer : Answer}
    (hanswer : ((if active then Ruling.commit i news done
      else .handle j (.ok idle)).map f).answer = .ok answer)
    (hdone : answer ≠ f idle) :
    ∃ i' news', (if active then Ruling.commit i news done else .handle j (.ok idle)).map f
      = .commit i' news' answer := by
  cases active with
  | true =>
      cases hanswer
      exact ⟨_, _, rfl⟩
  | false =>
      cases hanswer
      exact absurd rfl hdone

theorem Rules.Transition.commit_of_updates {t : Transition} {answer : Answer}
    (hanswer : ((t.ruling t.updates).map Answer.updates).answer = .ok answer)
    (hmoved : answer ≠ .updates []) :
    ∃ i news, (t.ruling t.updates).map Answer.updates = .commit i news answer := by
  rw [Ruling.answer_map, t.answer_ruling] at hanswer
  cases hanswer
  rw [t.ruling_of_updates fun hnone => hmoved (congrArg Answer.updates hnone)]
  exact ⟨_, _, rfl⟩

namespace Operation

/-- An operation consults the journal of its own player only. -/
theorem username_of_plan {c : Catalog} {now : Instant} {op : Operation} {username : String}
    {rule : Journal → Ruling Answer} (h : op.plan c now = .consult username rule) :
    username = op.username := by
  cases consults_of_plan h <;> rfl

/-- A ruling whose answer reports a change is a commit. -/
theorem commit_of_reports {c : Catalog} {now : Instant} {op : Operation} {username : String}
    {rule : Journal → Ruling Answer} (h : op.plan c now = .consult username rule) {j : Journal}
    {answer : Answer} (hanswer : (rule j).answer = .ok answer)
    (hreports : op.reports j answer = true) :
    ∃ i news, rule j = .commit i news answer := by
  cases consults_of_plan h with
  | @start p quest force step q hq =>
      rcases Rules.start_cases q p force step now j with ⟨refusal, hr⟩ | ⟨s, -, -, -, hr⟩
      · simp only [hr] at hanswer
        cases hanswer
      · simp only [hr] at hanswer ⊢
        cases hanswer
        exact ⟨_, _, rfl⟩
  | abandon _ quest => exact Ruling.commit_of_ite hanswer (by rintro rfl; cases hreports)
  | complete _ quest => exact Ruling.commit_of_ite hanswer (by rintro rfl; cases hreports)
  | fail _ quest reason => exact Ruling.commit_of_ite hanswer (by rintro rfl; cases hreports)
  | report _ event payload =>
      exact Rules.Transition.commit_of_updates hanswer (by rintro rfl; cases hreports)
  | poll p => exact Rules.Transition.commit_of_updates hanswer (by rintro rfl; cases hreports)
  | advanceTo _ quest step hq htarget =>
      simp only [Rules.advanceTo] at hanswer ⊢
      split at hanswer
      · cases hanswer
      · cases hanswer
        exact ⟨_, _, rfl⟩
  | setVariable _ quest key value =>
      simp only [Rules.setVariable] at hanswer ⊢
      split at hanswer
      · cases hanswer
        exact ⟨_, _, rfl⟩
      · cases hanswer
  | choose p npc quest option =>
      rw [Ruling.answer_map] at hanswer
      cases hr : (Rules.choose c p npc quest option now j).answer with
      | error refusal =>
          rw [hr] at hanswer
          cases hanswer
      | ok choosing? =>
          rw [hr] at hanswer
          cases hanswer
          cases choosing? with
          | none => cases hreports
          | some r =>
              obtain ⟨i, news, hcommit⟩ := Rules.commit_choose hr hreports
              exact ⟨i, news, congrArg (Ruling.map Answer.chosen) hcommit⟩
  | _ => cases hreports

end Operation

/-! ## Runs -/

variable {ρ : Type} [Repository ρ] [TableRepository ρ]

namespace Engine

omit [TableRepository ρ] in
/-- The engine after a restart over the same repository: no journal is in use and nothing is
written. -/
def restart (e : Engine ρ) : Engine ρ := new e.catalog e.store.repository e.store.limit

/-- The journal `i` is in use for the player of a lower-cased name, it is stored as it is, and
that is what a restarted engine finds. -/
structure Durable (e : Engine ρ) (key : String) (i : Journal) : Prop where
  clean : e.store.slots.get? key = some (.loaded i false)
  stored : e.store.records.get? key = some i
  found : ∀ c username, playerKey username = key → c.loadFault = none →
    (e.restart.store.fetch c username).result = .ok i

/-- A restarted engine finds what is stored. -/
theorem fetch_restart {e : Engine ρ} {key : String} {i : Journal}
    (hrecord : e.store.records.get? key = some i) {c : Circumstances} {username : String}
    (hkey : playerKey username = key) (hload : c.loadFault = none) :
    (e.restart.store.fetch c username).result = .ok i := by
  have hplace : (e.restart.store.place (playerKey username)).record = some i := hkey ▸ hrecord
  rcases e.restart.store.fetch_cases c username with ⟨fault, hfault, -⟩ | ⟨s, accesses, hfetch, -⟩
  · rw [hload] at hfault
    cases hfault
  · rw [hfetch, Store.opened_of_record c (by rfl), hplace]
    rfl

/-- A commit whose answer is no error has been written. -/
theorem written_of_commit {e : Engine ρ} (hs : e.store.Sound) {c : Circumstances}
    {op : Operation} {username : String} {rule : Journal → Ruling Answer}
    (hplan : op.plan e.catalog c.now = .consult username rule) {answer : Answer}
    (hanswer : (e.run c op).answer = .ok answer)
    {j : Journal} {news : List Notification}
    (hrule : rule (e.store.opened c username) = .commit j news answer) :
    ∃ i, (e.run c op).engine.store.place (playerKey username)
        = ⟨some (.loaded i false), some i⟩ ∧ i.log = j.log := by
  have hrun : e.run c op = e.consult c username rule := by simp only [run, hplan]
  rw [hrun] at hanswer ⊢
  rcases e.store.fetch_cases c username with
    ⟨fault, -, hunused, hfetch⟩ | ⟨s, accesses, hfetch, -⟩
  · rw [(consult_of_fault hs rule hunused hfetch).2.2.2] at hanswer
    cases hanswer
  · have hname := Operation.username_plan hplan (e.store.opened c username)
    rw [hrule] at hname
    have hkey : playerKey j.username = playerKey username :=
      (congrArg playerKey hname).trans (hs.opened_keyed c username)
    have hslot : ((s.revise username j).place (playerKey username)).slot
        = some (.loaded j true) := by rw [Store.place_revise, if_pos rfl]
    simp only [consult, hfetch, hrule] at hanswer ⊢
    rcases (s.revise username j).persist_cases c hslot hkey with
      ⟨fault, -, hpersist⟩ | ⟨s', hpersist, -, hplace, -⟩
    · rw [hpersist] at hanswer
      cases hanswer
    · rw [hpersist]
      exact ⟨j.touch c.savedAt, hplace, rfl⟩

omit [TableRepository ρ] in
/-- An operation without a plan to consult a journal reports no change. -/
theorem unreported_of_settled {e : Engine ρ} {c : Circumstances} {op : Operation}
    (hplan : ∀ username rule, op.plan e.catalog c.now ≠ .consult username rule)
    {answer : Answer} (hanswer : (e.run c op).answer = .ok answer) (j : Journal) :
    op.reports j answer = false := by
  cases hsettled : op.plan e.catalog c.now with
  | consult username rule => exact absurd hsettled (hplan username rule)
  | evict username =>
      obtain ⟨u, rfl⟩ := Operation.isEvict_of_plan hsettled
      rfl
  | settled answer' =>
      simp only [run, hsettled] at hanswer
      cases Operation.settles_of_plan hsettled with
      | canStart p quest hq => rfl
      | _ => cases hanswer

/-- An operation that reports a change leaves the journal of its ruling in use and stored. -/
theorem durable_of_reports {e : Engine ρ} (hs : e.store.Sound) {c : Circumstances}
    {op : Operation} {answer : Answer} (hanswer : (e.run c op).answer = .ok answer)
    (hreports : op.reports (e.store.opened c op.username) answer = true) :
    ∃ rule i, op.plan e.catalog c.now = .consult op.username rule
      ∧ i.log = ((rule (e.store.opened c op.username)).journal (e.store.opened c op.username)).log
      ∧ (e.run c op).engine.Durable (playerKey op.username) i := by
  rcases run_cases hs c op with ⟨-, -, hlost⟩ | ⟨username, rule, hplan, -, hdone⟩
  · have hunasked : ∀ username rule, op.plan e.catalog c.now ≠ .consult username rule := by
      intro username rule hplan
      obtain ⟨-, fault, -, -, hfailed⟩ := hlost username rule hplan
      rw [hanswer] at hfailed
      cases hfailed
    have hnone := unreported_of_settled hunasked hanswer (e.store.opened c op.username)
    rw [hreports] at hnone
    cases hnone
  · have huser : username = op.username := Operation.username_of_plan hplan
    subst huser
    have hruled : (rule (e.store.opened c op.username)).answer = .ok answer := by
      rcases hdone.answer with ⟨-, hruled⟩ | ⟨-, fault, -, hfailed⟩
      · rw [hanswer] at hruled
        cases hr : (rule (e.store.opened c op.username)).answer with
        | error refusal =>
            rw [hr] at hruled
            cases hruled
        | ok answer' =>
            rw [hr] at hruled
            cases hruled
            rfl
      · rw [hanswer] at hfailed
        cases hfailed
    obtain ⟨j, news, hrule⟩ := Operation.commit_of_reports hplan hruled hreports
    obtain ⟨i, hplace, hlog⟩ := written_of_commit hs hplan hanswer hrule
    have hslot := congrArg Place.slot hplace
    have hrecord := congrArg Place.record hplace
    refine ⟨rule, i, hplan, ?_, hslot, hrecord, fun c' username hkey hload => ?_⟩
    · rw [hlog, hrule]
      rfl
    · exact fetch_restart hrecord hkey hload

end Engine

/-- **What was acknowledged is stored.** In every state that a run reaches, whatever fails in
it, a journal in use that does not count as unsaved is the stored one, or it is empty and none
is stored. An operation that reports a change leaves the journal in use so: as the operation
has changed it, with all that earlier writes failed to store, and a restart finds it again. -/
theorem written_through (catalog : Catalog) (repository : ρ)
    (hkeyed : Keyed (TableRepository.records repository)) (limit : Nat) (turns : List Turn) :
    let e := (Engine.new catalog repository limit).after turns
    (∀ key j, e.store.slots.get? key = some (.loaded j false) →
      e.store.records.get? key = some j
        ∨ e.store.records.get? key = none ∧ j.active = [] ∧ j.completed = [] ∧ j.failed = [])
    ∧ ∀ c op answer, (e.run c op).answer = .ok answer →
      op.reports (e.store.opened c op.username) answer = true →
      ∃ rule i, op.plan e.catalog c.now = .consult op.username rule
        ∧ i.log = ((rule (e.store.opened c op.username)).journal
            (e.store.opened c op.username)).log
        ∧ (e.run c op).engine.Durable (playerKey op.username) i := by
  intro e
  have hs : e.store.Sound := Engine.after_sound (Store.sound_new hkeyed limit) turns
  refine ⟨fun key j hslot => ?_, fun c op answer => Engine.durable_of_reports hs⟩
  rcases (hs key).clean j hslot with hrecord | ⟨hrecord, hblank⟩
  · exact Or.inl hrecord
  · have hlists := hblank
    simp only [Journal.log, QuestLog.blank, QuestLog.mk.injEq] at hlists
    exact Or.inr ⟨hrecord, hlists⟩

/-- A hunt that could not be stored when it was started is stored with the first rat. -/
theorem written_through_ratHunt :
    let repository := MemoryRepository.ofJournals [.empty "Bob" .epoch]
    let turns := [Turn.perform unsaved (.start (.named "Ann" 1) "rats" false none)]
    let e := (Engine.new (Catalog.ofQuests [ratHunt]) repository 5000).after turns
    let c := Circumstances.calm .epoch
    let op := Operation.ingest "ann" (.npcDeath "rat")
    let answer := Answer.updates
      [⟨"rats", "cull", [⟨"kills", 1, 2, false⟩], false, false, none, false, none⟩]
    Keyed (TableRepository.records repository)
      ∧ e.store.records.get? "ann" = none
      ∧ (e.run c op).answer = .ok answer
      ∧ op.reports (e.store.opened c op.username) answer = true
      ∧ ∃ i, i.isActive "rats" = true
        ∧ (e.run c op).engine.Durable (playerKey op.username) i := by
  intro repository turns e c op answer
  have hanswer : (e.run c op).answer = .ok answer := by rfl
  have hreports : op.reports (e.store.opened c op.username) answer = true := by decide +kernel
  obtain ⟨-, hwritten⟩ := written_through (Catalog.ofQuests [ratHunt]) repository
    (keyed_ofJournals _) 5000 turns
  obtain ⟨-, i, -, -, hdurable⟩ := hwritten c op answer hanswer hreports
  have hactive : ((e.run c op).engine.store.records.get? (playerKey op.username)).any
      (·.isActive "rats") = true := by decide +kernel
  rw [hdurable.stored] at hactive
  exact ⟨keyed_ofJournals _, by decide +kernel, hanswer, hreports, i, hactive, hdurable⟩

end Questline
