import Questline.Proofs.Filling
import Questline.Proofs.Transparency

/-!
# Which operations write

An operation is idle (`Operation.idles`) if its answer is a refusal or reports no change. An idle
operation tries no write, publishes nothing and leaves the journal alone, but for entries that an
event, a poll or a talk fills in (`Journal.Filled`). All others but an eviction try one write,
however much they have changed, and what they try to write is the journal that they leave.

Whether an operation is idle is read off its answer, and whether the journal is written depends on
its ruling. `Operation.commitReported` says, rule by rule, that the two agree.
-/

namespace Questline

/-! ## Accesses to the repository -/

namespace Access

def isLoad : Access → Bool
  | load _ _ => true
  | save _ _ => false

/-- The journal that a write is to store, whether or not it succeeds. -/
def attempt? : Access → Option Journal
  | load _ _ => none
  | save j _ => some j

end Access

namespace Outcome

variable {ρ : Type}

/-- How often a journal was asked for. -/
def loads (o : Outcome ρ) : Nat := o.accesses.countP Access.isLoad

/-- The journals that were to be written, in order. -/
def attempts (o : Outcome ρ) : List Journal := o.accesses.filterMap Access.attempt?

end Outcome

/-- Whether an operation is idle, by its answer: it is refused, or it reports no change to the
journal `j` that it has found. A failed write is reported as an error of its own and is not idle. -/
def Operation.idles (j : Journal) (op : Operation) : Except EngineError Answer → Bool
  | .error (.refused _) => true
  | .error (.storage _) => false
  | .ok answer => !op.reports j answer

/-! ## Answers and rulings agree -/

/-- A ruling that commits reports a change, and one that only handles the journal leaves it as it
is, or fills in entries if the operation offers amounts. -/
structure Ruling.CommitReported (c : Catalog) (now : Instant) (op : Operation) (j : Journal)
    (r : Ruling Answer) : Prop where
  commit : ∀ i news answer, r = .commit i news answer → op.reports j answer = true
  handle : ∀ i answer, r = .handle i answer →
    i = j ∨ (op.stimulus? c j).isSome = true ∧ j.Filled c now i

namespace Ruling.CommitReported

variable {c : Catalog} {now : Instant} {op : Operation} {j : Journal}

theorem of_look (answer : Except Refusal Answer) :
    (Ruling.look answer).CommitReported c now op j where
  commit _ _ _ h := by cases h
  handle _ _ h := by cases h

theorem of_handle (answer : Except Refusal Answer) :
    (Ruling.handle j answer).CommitReported c now op j where
  commit _ _ _ h := by cases h
  handle _ _ h := by
    cases h
    exact Or.inl rfl

theorem of_commit {i : Journal} {news : List Notification} {answer : Answer}
    (h : op.reports j answer = true) : (Ruling.commit i news answer).CommitReported c now op j where
  commit _ _ _ hr := by
    cases hr
    exact h
  handle _ _ hr := by cases hr

theorem of_transition {t : Rules.Transition} {α : Type} {f : α → Answer} {answer : α}
    (hfilled : t.updates = [] → j.Filled c now t.journal)
    (hmet : (op.stimulus? c j).isSome = true)
    (hreports : t.updates ≠ [] → op.reports j (f answer) = true) :
    ((t.ruling answer).map f).CommitReported c now op j := by
  by_cases hnone : t.updates = []
  · have hr : t.ruling answer = .handle t.journal (.ok answer) := by
      rw [Rules.Transition.ruling, hnone]
      rfl
    rw [hr]
    refine ⟨fun i news answer' h => ?_, fun i answer' h => ?_⟩
    · cases h
    · cases h
      exact Or.inr ⟨hmet, hfilled hnone⟩
  · rw [Rules.Transition.ruling_of_updates hnone]
    exact of_commit (hreports hnone)

end Ruling.CommitReported

namespace Rules

variable (c : Catalog) (now : Instant) (j : Journal)

theorem commitReported_start (q : Quest) (p : Player) (quest : String) (force : Bool)
    (step : Option String) :
    ((start q p force step now j).map Answer.started).CommitReported c now
      (.start p quest force step) j := by
  rcases start_cases q p force step now j with ⟨refusal, hr⟩ | ⟨s, -, -, -, hr⟩
  · rw [hr]
    exact .of_look _
  · rw [hr]
    exact .of_commit rfl

theorem commitReported_abandon (username quest : String) :
    ((abandon username quest j).map Answer.changed).CommitReported c now
      (.abandon username quest) j := by
  rw [abandon]
  split
  · exact .of_commit rfl
  · exact .of_handle _

theorem commitReported_complete (username quest : String) (rewards : Option Rewards) :
    ((complete username quest rewards now j).map Answer.completed).CommitReported c now
      (.complete username quest) j := by
  rw [complete]
  split
  · exact .of_commit rfl
  · exact .of_handle _

theorem commitReported_fail (username quest : String) (reason : Option String) :
    ((fail username quest reason now j).map Answer.changed).CommitReported c now
      (.fail username quest reason) j := by
  rw [fail]
  split
  · exact .of_commit rfl
  · exact .of_handle _

/-- A `report` commits if it moves a quest, and else only fills in entries. -/
theorem commitReported_report (username event : String) (payload : Payload) :
    ((report c username event payload now j).map Answer.updates).CommitReported c now
      (.report username event payload) j := by
  refine .of_transition filled_progress rfl fun hmoved => ?_
  simpa [Operation.reports] using hmoved

theorem commitReported_poll (p : Player) :
    ((poll c p now j).map Answer.updates).CommitReported c now (.poll p) j := by
  refine .of_transition filled_progress rfl fun hmoved => ?_
  simpa [Operation.reports] using hmoved

theorem commitReported_advanceTo (q : Quest) (target : Step) (username quest step : String) :
    ((advanceTo q target username now j).map fun _ => Answer.done).CommitReported c now
      (.advanceTo username quest step) j := by
  rw [advanceTo]
  split
  · exact .of_handle _
  · exact .of_commit rfl

theorem commitReported_setVariable (username quest key : String) (value : Value) :
    ((setVariable quest key value j).map fun _ => Answer.done).CommitReported c now
      (.setVariable username quest key value) j := by
  rw [setVariable]
  split
  · exact .of_commit rfl
  · exact .of_handle _

/-- A `choose` commits if it reports updates or a branch. -/
theorem commitReported_choose (p : Player) (npc quest option : String) :
    ((choose c p npc quest option now j).map Answer.chosen).CommitReported c now
      (.choose p npc quest option) j := by
  cases hchoice : choice? c p npc quest option j with
  | none =>
      simp only [choose, hchoice]
      exact .of_look _
  | some picked =>
      obtain ⟨q, origin, picked⟩ := picked
      have hmet : ((Operation.choose p npc quest option).stimulus? c j).isSome = true := by
        simp only [Operation.stimulus?, hchoice, Option.map_some, Option.isSome_some]
      have hstill := @still_progress c p.username
        (Objective.eventAmount? (talk npc option).name (talk npc option).payload) now j
      have hfilled := @filled_progress
        (Objective.eventAmount? (talk npc option).name (talk npc option).payload) c p.username now j
      simp only [choose, hchoice]
      generalize progress c p.username _ now j = t at *
      have htalk : ∀ r : Choosing, r.updates = t.updates → t.updates ≠ [] →
          (Operation.choose p npc quest option).reports j (.chosen (some r)) = true := by
        intro r hr hmoved
        simp [Operation.reports, hr, hmoved]
      cases picked.advanceTo.bind q.step? with
      | none => exact .of_transition hfilled hmet (htalk _ rfl)
      | some target =>
          cases ha : t.journal.activation? quest with
          | none => exact .of_transition hfilled hmet (htalk _ rfl)
          | some a =>
              dsimp only
              split
              · exact .of_transition hfilled hmet (htalk _ rfl)
              · rename_i helsewhere
                refine .of_commit ?_
                by_cases hnone : t.updates = []
                · -- without updates the quest is still on the step that it is sent away from
                  have hstep := hstill hnone quest
                  rw [ha, Option.map_some] at hstep
                  have hne : ¬ target.id = a.step := fun heq => helsewhere heq.symm
                  simp [Operation.reports, hnone, ← hstep, hne]
                · exact htalk _ rfl hnone

end Rules

/-- The rule of every operation is `CommitReported`. -/
theorem Operation.commitReported {c : Catalog} {now : Instant} {op : Operation} {username : String}
    {rule : Journal → Ruling Answer} (h : op.plan c now = .consult username rule) (j : Journal) :
    (rule j).CommitReported c now op j := by
  cases consults_of_plan h with
  | start p quest force step hq => exact Rules.commitReported_start c now j _ p quest force step
  | abandon _ quest => exact Rules.commitReported_abandon c now j username quest
  | complete _ quest => exact Rules.commitReported_complete c now j username quest _
  | fail _ quest reason => exact Rules.commitReported_fail c now j username quest reason
  | report _ event payload => exact Rules.commitReported_report c now j username event payload
  | poll p => exact Rules.commitReported_poll c now j p
  | advanceTo _ quest step hq htarget =>
      exact Rules.commitReported_advanceTo c now j _ _ username quest step
  | setVariable _ quest key value =>
      exact Rules.commitReported_setVariable c now j username quest key value
  | choose p npc quest option => exact Rules.commitReported_choose c now j p npc quest option
  | _ => exact .of_look _

/-- An operation that the catalog settles is idle. -/
theorem Operation.idles_settled {c : Catalog} {now : Instant} {op : Operation}
    {answer : Except Refusal Answer} (h : op.plan c now = .settled answer) (j : Journal) :
    op.idles j (answer.mapError .refused) = true := by
  cases settles_of_plan h <;> rfl

/-! ## Accesses of one operation -/

variable {ρ : Type} [Repository ρ]

namespace Store

omit [Repository ρ] in
theorem slot?_setSlot (s : Store ρ) (username : String) (slot : Slot) :
    (s.setSlot username slot).slot? username = some slot := by
  simp only [slot?, setSlot, Dict.get?_insert, if_true]

/-- `Store.fetch` finds a journal in use without an access. -/
theorem fetch_loaded {s : Store ρ} {username : String} {j : Journal} {dirty : Bool}
    (h : s.slot? username = some (.loaded j dirty)) (c : Circumstances) :
    s.fetch c username = ⟨s, [], .ok j⟩ := by
  simp only [fetch, journal?, h]

/-- A successful `Store.fetch` finds the journal in use, or loads one into a clean slot. -/
theorem fetch_of_ok {s : Store ρ} {c : Circumstances} {username : String} {j : Journal}
    (h : (s.fetch c username).result = .ok j) :
    (∃ dirty, s.slot? username = some (.loaded j dirty) ∧ s.fetch c username = ⟨s, [], .ok j⟩)
    ∨ s.fetch c username
      = ⟨s.setSlot username (.loaded j false), [.load username true], .ok j⟩ := by
  cases hused : s.journal? username with
  | some i =>
      have hfetch : s.fetch c username = ⟨s, [], .ok i⟩ := by simp only [fetch, hused]
      rw [hfetch] at h
      cases h
      unfold journal? at hused
      split at hused
      · rename_i dirty hslot
        cases hused
        exact Or.inl ⟨dirty, hslot, hfetch⟩
      · cases hused
  | none =>
      cases hload : Repository.load s.repository s.limit c username with
      | error err =>
          simp only [fetch, hused, hload] at h
          cases h
      | ok i =>
          simp only [fetch, hused, hload] at h ⊢
          cases h
          exact Or.inr rfl

/-- A successful `Store.fetch` loads at most once, and what it finds is in use then. -/
theorem fetch_found {s : Store ρ} {c : Circumstances} {username : String} {j : Journal}
    (h : (s.fetch c username).result = .ok j) :
    ∃ s' accesses dirty, s.fetch c username = ⟨s', accesses, .ok j⟩
      ∧ s'.slot? username = some (.loaded j dirty) ∧ s'.repository = s.repository
      ∧ (accesses = [] ∨ accesses = [.load username true]) := by
  rcases fetch_of_ok h with ⟨dirty, hslot, hfetch⟩ | hfetch
  · exact ⟨s, [], dirty, hfetch, hslot, rfl, Or.inl rfl⟩
  · exact ⟨_, _, false, hfetch, s.slot?_setSlot username _, rfl, Or.inr rfl⟩

theorem fetch_lost {s : Store ρ} {c : Circumstances} {username : String} {err : StoreError}
    (h : (s.fetch c username).result = .error err) :
    s.fetch c username
      = ⟨s.setSlot username .unloaded, [.load username false], .error err⟩ := by
  cases hused : s.journal? username with
  | some i =>
      simp only [fetch, hused] at h
      cases h
  | none =>
      cases hload : Repository.load s.repository s.limit c username with
      | error err' =>
          simp only [fetch, hused, hload] at h ⊢
          cases h
          rfl
      | ok i =>
          simp only [fetch, hused, hload] at h
          cases h

/-- `Store.persist` tries one write, of the journal in use under its stamp, which stays in use. -/
theorem persist_loaded {s : Store ρ} {username : String} {j : Journal} {dirty : Bool}
    (h : s.slot? username = some (.loaded j dirty)) (c : Circumstances) :
    ∃ s' succeeded result dirty', s.persist c username
        = ⟨s', [.save (j.touch c.savedAt) succeeded], result⟩
      ∧ s'.slot? username = some (.loaded (j.touch c.savedAt) dirty') := by
  cases hfault : c.saveFault with
  | none =>
      exact ⟨_, true, .ok (), false, persist_stored h hfault, slot?_setSlot _ username _⟩
  | some fault =>
      exact ⟨_, false, _, dirty, persist_refused h hfault, slot?_setSlot _ username _⟩

/-- `Store.evict` loads nothing. -/
theorem evict_accesses (s : Store ρ) (c : Circumstances) (username : String) :
    (s.evict c username).accesses = []
      ∨ ∃ j succeeded, (s.evict c username).accesses = [.save j succeeded] := by
  have hevicted := s.evicted c username
  generalize s.evict c username = v at hevicted ⊢
  cases hevicted with
  | absent | unloaded | clean => exact Or.inl rfl
  | refused | stored => exact Or.inr ⟨_, _, rfl⟩

/-- `Store.evict` without a journal in use changes and accesses nothing. -/
theorem evict_absent {s : Store ρ} {c : Circumstances} {username : String}
    (h : (s.evict c username).result = .ok false) :
    (s.evict c username).store = s ∧ (s.evict c username).accesses = [] := by
  have hevicted := s.evicted c username
  generalize s.evict c username = v at hevicted h ⊢
  cases hevicted with
  | absent => exact ⟨rfl, rfl⟩
  | unloaded | clean | refused | stored => cases h

end Store

namespace Engine

variable {e : Engine ρ} {c : Circumstances} {op : Operation} {username : String}
  {rule : Journal → Ruling Answer}

/-- An operation whose ruling is no commit tries no write. -/
theorem run_free (hplan : op.plan e.catalog c.now = .consult username rule) {j : Journal}
    (hfound : (e.store.fetch c username).result = .ok j) {i : Journal}
    {answer : Except Refusal Answer}
    (hrule : rule j = .look answer ∧ i = j ∨ rule j = .handle i answer) :
    let o := e.run c op
    (o.accesses = [] ∨ o.accesses = [.load username true]) ∧ o.news = []
      ∧ o.answer = answer.mapError .refused ∧ o.engine.store.repository = e.store.repository
      ∧ (o.engine.store.fetch c username).result = .ok i := by
  obtain ⟨s, accesses, dirty, hfetch, hslot, hrepository, haccesses⟩ := Store.fetch_found hfound
  rcases hrule with ⟨hlook, rfl⟩ | hhandle
  · simp only [run, hplan, consult, hfetch, hlook]
    exact ⟨haccesses, trivial, trivial, hrepository, by rw [Store.fetch_loaded hslot]⟩
  · simp only [run, hplan, consult, hfetch, hhandle]
    have hrevised : (s.revise username i).slot? username = some (.loaded i true) :=
      s.slot?_setSlot username _
    exact ⟨haccesses, trivial, trivial, hrepository, by rw [Store.fetch_loaded hrevised]⟩

/-- An operation whose ruling is a commit tries one write, of the journal that stays in use. -/
theorem run_commit (hplan : op.plan e.catalog c.now = .consult username rule) {j : Journal}
    (hfound : (e.store.fetch c username).result = .ok j) {i : Journal}
    {news : List Notification} {answer : Answer} (hrule : rule j = .commit i news answer) :
    let o := e.run c op
    (∃ loads succeeded, o.accesses = loads ++ [.save (i.touch c.savedAt) succeeded]
        ∧ (loads = [] ∨ loads = [.load username true]))
      ∧ (o.answer = .ok answer ∨ ∃ err, o.answer = .error (.storage err))
      ∧ (o.engine.store.fetch c username).result = .ok (i.touch c.savedAt) := by
  obtain ⟨s, accesses, dirty, hfetch, -, -, haccesses⟩ := Store.fetch_found hfound
  have hrevised : (s.revise username i).slot? username = some (.loaded i true) :=
    s.slot?_setSlot username _
  obtain ⟨s', succeeded, result, dirty', hpersist, hslot⟩ := Store.persist_loaded hrevised c
  simp only [run, hplan, consult, hfetch, hrule, hpersist]
  refine ⟨⟨accesses, succeeded, rfl, haccesses⟩, ?_, by rw [Store.fetch_loaded hslot]⟩
  cases result with
  | ok _ => exact Or.inl rfl
  | error err => exact Or.inr ⟨err, rfl⟩

/-- An operation loads at most once, stops if that fails, and then tries at most one write. -/
theorem run_tries (e : Engine ρ) (c : Circumstances) (op : Operation) :
    let o := e.run c op
    (∃ u, o.accesses = [.load u false]) ∧ o.news = []
      ∨ ∃ loads saves, o.accesses = loads ++ saves
        ∧ (loads = [] ∨ ∃ u, loads = [.load u true])
        ∧ (saves = [] ∨ ∃ j succeeded, saves = [.save j succeeded]) := by
  cases hplan : op.plan e.catalog c.now with
  | settled answer =>
      simp only [run, hplan]
      exact Or.inr ⟨[], [], rfl, Or.inl rfl, Or.inl rfl⟩
  | evict username =>
      simp only [run, hplan]
      exact Or.inr ⟨[], _, rfl, Or.inl rfl, e.store.evict_accesses c username⟩
  | consult username rule =>
      cases hfound : (e.store.fetch c username).result with
      | error err =>
          simp only [run, hplan, consult, Store.fetch_lost hfound]
          exact Or.inl ⟨⟨username, rfl⟩, trivial⟩
      | ok j =>
          have hfree : ∀ accesses : List Access,
              accesses = [] ∨ accesses = [.load username true] →
              ∃ loads saves, accesses = loads ++ saves ∧ (loads = [] ∨ ∃ u, loads = [.load u true])
                ∧ (saves = [] ∨ ∃ j succeeded, saves = [.save j succeeded]) := fun accesses h =>
            ⟨accesses, [], (List.append_nil _).symm, h.imp_right fun h => ⟨username, h⟩, Or.inl rfl⟩
          cases hrule : rule j with
          | look answer =>
              obtain ⟨haccesses, -⟩ := run_free hplan hfound (Or.inl ⟨hrule, rfl⟩)
              exact Or.inr (hfree _ haccesses)
          | handle i answer =>
              obtain ⟨haccesses, -⟩ := run_free hplan hfound (Or.inr hrule)
              exact Or.inr (hfree _ haccesses)
          | commit i news answer =>
              obtain ⟨⟨loads, succeeded, haccesses, hloads⟩, -⟩ := run_commit hplan hfound hrule
              exact Or.inr ⟨loads, _, haccesses, hloads.imp_right fun h => ⟨username, h⟩,
                Or.inr ⟨_, succeeded, rfl⟩⟩

theorem run_loads (e : Engine ρ) (c : Circumstances) (op : Operation) :
    (e.run c op).loads ≤ 1 := by
  rcases run_tries e c op with ⟨⟨u, haccesses⟩, -⟩ | ⟨loads, saves, haccesses, hloads, hsaves⟩
  · rw [Outcome.loads, haccesses]
    exact Nat.le_refl 1
  · have hnone : saves.countP Access.isLoad = 0 := by
      rcases hsaves with rfl | ⟨j, succeeded, rfl⟩ <;> rfl
    rw [Outcome.loads, haccesses, List.countP_append, hnone]
    rcases hloads with rfl | ⟨u, rfl⟩
    · exact Nat.zero_le 1
    · exact Nat.le_refl 1

/-- An operation whose load fails tries no write and publishes nothing. -/
theorem run_lost (h : (e.run c op).loadFailed = true) :
    (e.run c op).attempts = [] ∧ (e.run c op).news = [] := by
  rcases run_tries e c op with ⟨⟨u, haccesses⟩, hnews⟩
    | ⟨loads, saves, haccesses, hloads, hsaves⟩
  · refine ⟨?_, hnews⟩
    rw [Outcome.attempts, haccesses]
    rfl
  · rw [Outcome.loadFailed, haccesses] at h
    rcases hloads with rfl | ⟨u, rfl⟩ <;> rcases hsaves with rfl | ⟨j, succeeded, rfl⟩ <;> cases h

theorem run_settled {answer : Except Refusal Answer}
    (hplan : op.plan e.catalog c.now = .settled answer) :
    e.run c op = ⟨e, [], [], answer.mapError .refused⟩ := by
  simp only [run, hplan]

theorem run_absent {u : String} (h : (e.run c (.evict u)).answer = .ok (.changed false)) :
    (e.run c (.evict u)).engine = e ∧ (e.run c (.evict u)).accesses = []
      ∧ (e.run c (.evict u)).news = [] := by
  have hanswer : ((e.store.evict c u).result.mapError EngineError.storage).map Answer.changed
      = .ok (.changed false) := h
  have hnobody : (e.store.evict c u).result = .ok false := by
    cases hresult : (e.store.evict c u).result with
    | error err =>
        rw [hresult] at hanswer
        cases hanswer
    | ok flag =>
        rw [hresult] at hanswer
        cases hanswer
        rfl
  obtain ⟨hstore, haccesses⟩ := Store.evict_absent hnobody
  refine ⟨?_, haccesses, rfl⟩
  show { e with store := (e.store.evict c u).store } = e
  rw [hstore]

/-- The answer of an operation is idle exactly if its ruling is no commit. -/
theorem run_reports (hplan : op.plan e.catalog c.now = .consult username rule) {j : Journal}
    (hfound : (e.store.fetch c username).result = .ok j) :
    let o := e.run c op
    (op.idles j o.answer = true ∧ o.attempts = [] ∧ o.news = []
        ∧ o.engine.store.repository = e.store.repository
        ∧ ∃ i, (o.engine.store.fetch c username).result = .ok i
          ∧ (i = j ∨ (op.stimulus? e.catalog j).isSome = true ∧ j.Filled e.catalog c.now i))
      ∨ (op.idles j o.answer = false
        ∧ o.attempts = [((rule j).journal j).touch c.savedAt]
        ∧ (o.engine.store.fetch c username).result
          = .ok (((rule j).journal j).touch c.savedAt)) := by
  have hreported := Operation.commitReported hplan j
  have hsaved : ∀ accesses : List Access,
      accesses = [] ∨ accesses = [.load username true] →
        accesses.filterMap Access.attempt? = [] := by
    rintro _ (rfl | rfl) <;> rfl
  -- an answer that reports a change is the answer of a commit
  have hfree : ∀ i answer, (rule j = .look answer ∧ i = j ∨ rule j = .handle i answer) →
      op.idles j (e.run c op).answer = true ∧ (e.run c op).attempts = [] ∧ (e.run c op).news = []
        ∧ (e.run c op).engine.store.repository = e.store.repository
        ∧ ((e.run c op).engine.store.fetch c username).result = .ok i := by
    intro i answer hrule
    obtain ⟨haccesses, hnews, hanswer, hrepository, hkept⟩ := run_free hplan hfound hrule
    refine ⟨?_, hsaved _ haccesses, hnews, hrepository, hkept⟩
    rw [hanswer]
    cases answer with
    | error refusal => rfl
    | ok a =>
        cases hreports : op.reports j a with
        | false => exact congrArg not hreports
        | true =>
            have hruled : (rule j).answer = .ok a := by
              rcases hrule with ⟨hlook, -⟩ | hhandle
              · rw [hlook]
                rfl
              · rw [hhandle]
                rfl
            obtain ⟨i', news, hcommit⟩ := Operation.commit_of_reports hplan hruled hreports
            rw [hcommit] at hrule
            rcases hrule with ⟨hlook, -⟩ | hhandle
            · cases hlook
            · cases hhandle
  cases hrule : rule j with
  | look answer =>
      obtain ⟨hidle, hattempts, hnews, hrepository, hkept⟩ := hfree j answer (Or.inl ⟨hrule, rfl⟩)
      exact Or.inl ⟨hidle, hattempts, hnews, hrepository, j, hkept, Or.inl rfl⟩
  | handle i answer =>
      obtain ⟨hidle, hattempts, hnews, hrepository, hkept⟩ := hfree i answer (Or.inr hrule)
      exact Or.inl ⟨hidle, hattempts, hnews, hrepository, i, hkept,
        hreported.handle i answer hrule⟩
  | commit i news answer =>
      obtain ⟨⟨loads, succeeded, haccesses, hloads⟩, hanswer, hkept⟩ :=
        run_commit hplan hfound hrule
      have hreports := hreported.commit i news answer hrule
      refine Or.inr ⟨?_, ?_, hkept⟩
      · rcases hanswer with hok | ⟨err, hfailed⟩
        · rw [hok]
          exact congrArg not hreports
        · rw [hfailed]
          rfl
      · rw [Outcome.attempts, haccesses, List.filterMap_append, hsaved loads hloads]
        rfl

end Engine

/-- **Idle operations write nothing, and all others once.** An operation loads at most one journal,
and if that fails, tries no write and publishes nothing; nor does one that the catalog alone
settles, or an eviction without a journal in use, access or change anything. Where the journal is
found, whatever entries it lacks: if the operation is idle, it tries no write, publishes nothing and
leaves the journal as it is, but for entries filled in for an event, a poll or a talk; and else,
unless it is an eviction, it tries one write, which is of the journal that it leaves. -/
theorem written_once (e : Engine ρ) (c : Circumstances) (op : Operation) :
    let o := e.run c op
    o.loads ≤ 1
    ∧ (o.loadFailed = true → o.attempts = [] ∧ o.news = [])
    ∧ ((∃ answer, op.plan e.catalog c.now = .settled answer)
        ∨ (∃ u, op = .evict u) ∧ o.answer = .ok (.changed false) →
      o.engine = e ∧ o.accesses = [] ∧ o.news = [])
    ∧ ∀ j, (∀ u, op ≠ .evict u) → (e.store.fetch c op.username).result = .ok j →
      (op.idles j o.answer = true →
        o.attempts = [] ∧ o.news = [] ∧ o.engine.store.repository = e.store.repository
        ∧ ∃ i, (o.engine.store.fetch c op.username).result = .ok i
          ∧ (i = j ∨ (op.stimulus? e.catalog j).isSome = true ∧ j.Filled e.catalog c.now i))
      ∧ (op.idles j o.answer = false →
        ∃ rule, op.plan e.catalog c.now = .consult op.username rule
          ∧ let i := ((rule j).journal j).touch c.savedAt
            o.attempts = [i] ∧ (o.engine.store.fetch c op.username).result = .ok i) := by
  intro o
  refine ⟨Engine.run_loads e c op, Engine.run_lost, ?_, fun j hstays hfound => ?_⟩
  · rintro (⟨answer, hplan⟩ | ⟨⟨u, rfl⟩, hanswer⟩)
    · have hrun : o = _ := Engine.run_settled hplan
      rw [hrun]
      exact ⟨rfl, rfl, rfl⟩
    · exact Engine.run_absent hanswer
  · cases hplan : op.plan e.catalog c.now with
    | settled answer =>
        have hrun : o = _ := Engine.run_settled hplan
        have hidle := Operation.idles_settled hplan j
        rw [hrun]
        refine ⟨fun _ => ⟨rfl, rfl, rfl, j, hfound, Or.inl rfl⟩, fun h => ?_⟩
        rw [hidle] at h
        cases h
    | evict username =>
        obtain ⟨u, hu⟩ := Operation.isEvict_of_plan hplan
        exact absurd hu (hstays u)
    | consult username rule =>
        obtain rfl := Operation.username_of_plan hplan
        rcases Engine.run_reports hplan hfound with ⟨hidle, hfree⟩ | ⟨hbusy, hwritten⟩
        · refine ⟨fun _ => hfree, fun h => ?_⟩
          rw [hidle] at h
          cases h
        · refine ⟨fun h => ?_, fun _ => ⟨rule, rfl, hwritten⟩⟩
          rw [hbusy] at h
          cases h

/-- In a journal that lacks the entries of its step, a dead cat fills them in and nothing is
written; a dead rat is written once, though in vain. -/
theorem written_once_ratHunt :
    let bare : Activation := ⟨"rats", "cull", .epoch, ∅, ∅⟩
    let j := { Journal.empty "Ann" .epoch with active := [bare] }
    let e := Engine.new (Catalog.ofQuests [ratHunt]) (MemoryRepository.ofJournals [j]) 5000
    let cat := Operation.ingest "ann" (.npcDeath "cat")
    let rat := Operation.ingest "ann" (.npcDeath "rat")
    (e.store.fetch unsaved cat.username).result = .ok j
      ∧ cat.idles j (e.run unsaved cat).answer = true
      ∧ rat.idles j (e.run unsaved rat).answer = false
      ∧ (e.run unsaved cat).attempts = [] ∧ (e.run unsaved cat).news = []
      ∧ (∃ i, ((e.run unsaved cat).engine.store.fetch unsaved cat.username).result = .ok i
        ∧ i ≠ j ∧ j.Filled e.catalog unsaved.now i)
      ∧ ∃ i, (e.run unsaved rat).attempts = [i]
        ∧ ((e.run unsaved rat).engine.store.fetch unsaved rat.username).result = .ok i := by
  intro bare j e cat rat
  have hfound : (e.store.fetch unsaved cat.username).result = .ok j := by decide +kernel
  have hidle : cat.idles j (e.run unsaved cat).answer = true := by decide +kernel
  have hbusy : rat.idles j (e.run unsaved rat).answer = false := by decide +kernel
  have hchanged : ((e.run unsaved cat).engine.store.fetch unsaved cat.username).result ≠ .ok j := by
    decide +kernel
  obtain ⟨-, -, -, hcat⟩ := written_once e unsaved cat
  obtain ⟨-, -, -, hrat⟩ := written_once e unsaved rat
  obtain ⟨hsaved, hnews, -, i, hi, hkept⟩ := (hcat j nofun hfound).1 hidle
  obtain ⟨rule, -, hwritten, hi'⟩ := (hrat j nofun hfound).2 hbusy
  have hne : i ≠ j := by
    rintro rfl
    exact hchanged hi
  have hfilled : j.Filled e.catalog unsaved.now i := (hkept.resolve_left hne).2
  exact ⟨hfound, hidle, hbusy, hsaved, hnews, ⟨i, hi, hne, hfilled⟩, _, hwritten, hi'⟩

end Questline
