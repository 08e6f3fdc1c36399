import Mathlib.Data.List.TakeWhile
import Questline.Proofs.Levels
import Questline.Proofs.Portions

/-!
# Repeated polls

A poll offers objectives `Amount.observed` only (`Objective.polledAmount?_observed`), and a counter
that has observed an amount is not moved by it again, whatever it observes in between
(`Counter.Absorbs`). So a poll is idempotent on a step that it does not complete
(`Rules.offer_again`), even where objectives share a counter.

Only a quest that has just entered a step can be moved by the next poll, and then it has one step
less ahead of it. The largest number of steps that a quest has ahead bounds the polls that move
anything (`polling_settles`); it is the parameter of the invariant `Engine.PollInvariant`, which a
poll decreases (`Engine.PollInvariant.look`).
-/

namespace Questline

/-! ## Counters that have observed an amount -/

namespace Counter

/-- `Counter.observe` on this amount leaves the counter as it is: it is complete, or has reached as
much. -/
def Absorbs (n : UInt32) (c : Counter) : Prop := c.completed = true ∨ min n c.target ≤ c.current

variable {c : Counter} {n : UInt32}

theorem observe_of_absorbs (h : c.Absorbs n) : c.observe n = (c, false, false) := by
  unfold observe
  by_cases hcompleted : c.completed = true
  · rw [if_pos hcompleted]
  · rw [if_neg hcompleted]
    exact if_pos (h.resolve_left hcompleted)

theorem observe_of_not_absorbs (h : ¬ c.Absorbs n) :
    ∃ completed, (c.observe n).1 = ⟨min n c.target, c.target, completed⟩ := by
  obtain ⟨hopen, hmore⟩ := not_or.mp h
  simp only [observe, if_neg hopen, if_neg hmore, settle]
  split
  · exact ⟨true, rfl⟩
  · exact ⟨c.completed, rfl⟩

theorem absorbs_observe (c : Counter) (n : UInt32) : (c.observe n).1.Absorbs n := by
  by_cases h : c.Absorbs n
  · rw [observe_of_absorbs h]
    exact h
  · obtain ⟨completed, hafter⟩ := observe_of_not_absorbs h
    rw [hafter]
    exact Or.inr (UInt32.le_refl _)

/-- `Absorbs` is stable under further observations. -/
theorem Absorbs.observe {m : UInt32} (h : c.Absorbs m) (n : UInt32) :
    (c.observe n).1.Absorbs m := by
  by_cases hn : c.Absorbs n
  · rw [observe_of_absorbs hn]
    exact h
  · obtain ⟨completed, hafter⟩ := observe_of_not_absorbs hn
    obtain ⟨hopen, hmore⟩ := not_or.mp hn
    rw [hafter]
    exact Or.inr (UInt32.le_trans (h.resolve_left hopen)
      (UInt32.le_of_lt (UInt32.not_le.mp hmore)))

end Counter

/-- The counter under an id is recorded and absorbs an amount. -/
def StepProgress.Shown (p : StepProgress) (id : String) (n : UInt32) : Prop :=
  ∃ c, p.counters.get? id = some c ∧ c.Absorbs n

theorem StepProgress.Shown.setCounter {p : StepProgress} {id : String} {n : UInt32}
    (h : p.Shown id n) (other : String) (required m : UInt32) :
    (p.setCounter other ((p.counter other required).observe m).1).Shown id n := by
  obtain ⟨c, hc, habsorbs⟩ := h
  unfold Shown StepProgress.setCounter
  rw [Dict.get?_insert]
  split
  · rename_i hid
    have hcounter : p.counter other required = c := by
      rw [hid, counter, hc, Option.getD_some]
    exact ⟨_, rfl, hcounter ▸ habsorbs.observe m⟩
  · exact ⟨c, hc, habsorbs⟩

/-- A poll offers observed amounts only. -/
theorem Objective.polledAmount?_observed (p : Player) (o : Objective) (amount : Amount)
    (h : o.polledAmount? p = some amount) : ∃ n, amount = .observed n := by
  unfold polledAmount? at h
  split at h
  · cases h
    exact ⟨_, rfl⟩
  · split at h
    · cases h
      exact ⟨_, rfl⟩
    · cases h
  · split at h
    · cases h
      exact ⟨_, rfl⟩
    · cases h
  · cases h

namespace Rules

variable {amount? : Objective → Option Amount}
  (hlook : ∀ o amount, amount? o = some amount → ∃ n, amount = .observed n)

include hlook

theorem shown_offer {objectives : List Objective} {p : StepProgress} {id : String} {n : UInt32}
    (h : p.Shown id n) : (offer amount? objectives p).1.Shown id n := by
  induction objectives generalizing p with
  | nil => exact h
  | cons o rest ih =>
      rw [offer_cons]
      cases hamount : amount? o with
      | none => exact ih h
      | some amount =>
          obtain ⟨m, rfl⟩ := hlook o amount hamount
          exact ih (h.setCounter o.id o.requiredCount m)

/-- After `Rules.offer`, the counter of every objective absorbs the amount that it was offered. -/
theorem shown_of_offered {objectives : List Objective} {p : StepProgress} {o : Objective}
    (ho : o ∈ objectives) {n : UInt32} (hn : amount? o = some (.observed n)) :
    (offer amount? objectives p).1.Shown o.id n := by
  induction objectives generalizing p with
  | nil => cases ho
  | cons b rest ih =>
      rw [offer_cons]
      rcases List.mem_cons.mp ho with rfl | ho
      · rw [hn]
        refine shown_offer hlook ?_
        unfold StepProgress.Shown StepProgress.setCounter
        rw [Dict.get?_insert, if_pos rfl]
        exact ⟨_, rfl, Counter.absorbs_observe _ n⟩
      · exact ih ho

/-- Where the counters absorb the amounts that are offered, `Rules.offer` moves nothing. -/
theorem offer_of_shown {objectives : List Objective} {p : StepProgress}
    (h : ∀ o ∈ objectives, ∀ n, amount? o = some (.observed n) → p.Shown o.id n) :
    offer amount? objectives p = (p, [], false) := by
  induction objectives with
  | nil => rfl
  | cons o rest ih =>
      have hrest := ih fun x hx => h x (List.mem_cons_of_mem _ hx)
      cases hamount : amount? o with
      | none =>
          simp only [offer, hamount]
          exact hrest
      | some amount =>
          obtain ⟨n, rfl⟩ := hlook o amount hamount
          obtain ⟨c, hc, habsorbs⟩ := h o List.mem_cons_self n hamount
          have hcounter : p.counter o.id o.requiredCount = c := by
            rw [StepProgress.counter, hc, Option.getD_some]
          simp only [offer, hamount, hcounter, Counter.apply, Counter.observe_of_absorbs habsorbs,
            StepProgress.setCounter_self hc, hrest, Bool.false_eq_true, if_false]

/-- `Rules.offer` is idempotent on observed amounts, even where objectives share a counter. -/
theorem offer_again (objectives : List Objective) (p : StepProgress) :
    let p' := (offer amount? objectives p).1
    offer amount? objectives p' = (p', [], false) :=
  offer_of_shown hlook fun _ ho _ hn => shown_of_offered hlook ho hn

end Rules

/-! ## Steps ahead -/

/-- The number of steps of a quest from a step to the last, both included. -/
def Quest.stepsFrom (q : Quest) (id : String) : Nat := (q.steps.dropWhile (·.id ≠ id)).length

/-- The number of steps that an active quest has ahead of it, the current one included. -/
def Activation.stepsAhead (c : Catalog) (a : Activation) : Nat :=
  ((c.get? a.quest).map (·.stepsFrom a.step)).getD 0

/-- The most steps that an active quest has ahead of it. -/
def Journal.stepsAhead (c : Catalog) (j : Journal) : Nat :=
  (j.active.map (·.stepsAhead c)).foldr max 0

theorem Journal.stepsAhead_le {j : Journal} {a : Activation} (ha : a ∈ j.active) (c : Catalog) :
    a.stepsAhead c ≤ j.stepsAhead c := by
  unfold stepsAhead
  revert ha
  induction j.active with
  | nil => exact fun h => absurd h List.not_mem_nil
  | cons b rest ih =>
      intro ha
      rw [List.map_cons, List.foldr_cons]
      rcases List.mem_cons.mp ha with rfl | ha
      · exact Nat.le_max_left _ _
      · exact Nat.le_trans (ih ha) (Nat.le_max_right _ _)

namespace Quest

variable {q : Quest} {id : String}

theorem stepsFrom_pos {s : Step} (h : q.step? id = some s) : 0 < q.stepsFrom id := by
  refine List.length_pos_iff.mpr fun hnone => ?_
  have hskipped := List.dropWhile_eq_nil_iff.mp hnone s (List.mem_of_find?_eq_some h)
  exact (of_decide_eq_true hskipped) (id_of_step? h)

theorem Valid.stepsFrom_next (hq : q.Valid) {next : Step} (h : q.nextStep? id = some next) :
    q.stepsFrom next.id + 1 = q.stepsFrom id := by
  have hnodup : (q.steps.map (·.id)).Nodup := hq.stepIds_nodup
  unfold stepsFrom
  unfold nextStep? at h
  revert h hnodup
  induction q.steps with
  | nil => exact fun h => by cases h
  | cons s rest ih =>
      intro h hnodup
      obtain ⟨hs, hrest⟩ := List.nodup_cons.mp hnodup
      have hskip : ∀ x ∈ rest,
          (s :: rest).dropWhile (·.id ≠ x.id) = rest.dropWhile (·.id ≠ x.id) := by
        intro x hx
        refine List.dropWhile_cons_of_pos (decide_eq_true fun heq => hs ?_)
        exact List.mem_map.mpr ⟨x, hx, heq.symm⟩
      simp only [stepAfter?] at h
      split at h
      · rename_i hid
        obtain ⟨later, rfl⟩ : ∃ later, rest = next :: later := by
          cases rest with
          | nil => cases h
          | cons first later =>
              cases h
              exact ⟨later, rfl⟩
        rw [hskip next List.mem_cons_self, List.dropWhile_cons_of_neg (by simp),
          List.dropWhile_cons_of_neg (by simp [hid])]
        rfl
      · rename_i hid
        have hnext : next ∈ rest := mem_of_nextStep? (q := { q with steps := rest }) h
        have hcurrent : (s :: rest).dropWhile (·.id ≠ id) = rest.dropWhile (·.id ≠ id) :=
          List.dropWhile_cons_of_pos (decide_eq_true hid)
        rw [hskip next hnext, hcurrent]
        exact ih h hrest

end Quest

/-! ## A poll of one quest -/

/-- A poll of the player moves a counter of the step that the quest is on. -/
def Activation.Moves (c : Catalog) (p : Player) (a : Activation) : Prop :=
  ∃ q s b, c.get? a.quest = some q ∧ q.step? a.step = some s ∧ a.progress.get? a.step = some b
    ∧ (Rules.offer (Objective.polledAmount? p) s.objectives b).2.1 ≠ []

theorem Activation.moves_iff {c : Catalog} {p : Player} {a : Activation} {q : Quest} {s : Step}
    {b : StepProgress} (hq : c.get? a.quest = some q) (hs : q.step? a.step = some s)
    (hb : a.progress.get? a.step = some b) :
    a.Moves c p ↔ (Rules.offer (Objective.polledAmount? p) s.objectives b).2.1 ≠ [] := by
  refine ⟨?_, fun h => ⟨q, s, b, hq, hs, hb, h⟩⟩
  rintro ⟨q', s', b', hq', hs', hb', h⟩
  cases hq.symm.trans hq'
  cases hs.symm.trans hs'
  cases hb.symm.trans hb'
  exact h

namespace Rules

theorem stride_update (q : Quest) (s : Step) (username : String) (count : UInt32)
    (amount? : Objective → Option Amount) (now : Instant) (a : Activation)
    (hopen : (a.currentProgress s now).completed = false) :
    let o := offer amount? s.objectives (a.currentProgress s now)
    let r := stride q s username count amount? now a
    (o.2.1 = [] → r.update = none)
    ∧ (o.2.1 ≠ [] → ∃ u, r.update = some u ∧ u.stepCompleted = (o.2.2 && o.1.isSatisfied s)) := by
  rcases hoffer : offer amount? s.objectives (a.currentProgress s now) with
    ⟨after, moved, anyCompleted⟩
  simp only [stride, hopen, hoffer]
  cases moved with
  | nil => exact ⟨fun _ => rfl, fun h => absurd rfl h⟩
  | cons m rest =>
      refine ⟨fun h => absurd h (List.cons_ne_nil m rest), fun _ => ?_⟩
      cases anyCompleted && after.isSatisfied s with
      | false => exact ⟨_, rfl, rfl⟩
      | true => cases q.nextStep? s.id <;> exact ⟨_, rfl, rfl⟩

/-- The next poll moves a quest only if this `Rules.stride` has completed its step. -/
theorem stride_look {c : Catalog} (p : Player) {q : Quest} {s : Step} (username : String)
    (count : UInt32) (now : Instant) {a : Activation} {b : StepProgress} (hvalid : q.Valid)
    (hq : c.get? a.quest = some q) (hs : q.step? a.step = some s)
    (hb : a.progress.get? a.step = some b) (hopen : b.completed = false) :
    let r := stride q s username count (Objective.polledAmount? p) now a
    (r.update = none ↔ ¬ a.Moves c p)
    ∧ (r.finished = false → r.activation.Moves c p →
      a.Moves c p ∧ r.activation.stepsAhead c + 1 = a.stepsAhead c
        ∧ ∃ u, r.update = some u ∧ u.stepCompleted = true) := by
  intro r
  have hbefore : a.currentProgress s now = b := Activation.currentProgress_of_recorded hb s now
  have hopen' : (a.currentProgress s now).completed = false := hbefore ▸ hopen
  have hmoves := Activation.moves_iff (p := p) hq hs hb
  obtain ⟨hstill, hmoved⟩ :=
    stride_update q s username count (Objective.polledAmount? p) now a hopen'
  obtain ⟨after, moved, anyCompleted, hoffer, hcases⟩ :=
    stride_cases q s username count (Objective.polledAmount? p) now a hopen'
  have hfinal := offer_moved (Objective.polledAmount? p) s.objectives b
  rw [hbefore] at hoffer hstill hmoved
  simp only [hoffer] at hmoves hstill hmoved hfinal
  refine ⟨⟨fun hnone hmove => ?_, fun hrest => ?_⟩, fun hstays hagain => ?_⟩
  · obtain ⟨u, hu, -⟩ := hmoved (hmoves.mp hmove)
    cases hnone.symm.trans hu
  · exact hstill (Decidable.of_not_not fun hne => hrest (hmoves.mpr hne))
  · rcases hcases with ⟨-, hactivation, -⟩ | ⟨hdone, t, hnext, hactivation, -⟩
      | ⟨-, -, hfinished, -⟩
    · -- the step stays, and its counters have been shown everything
      have hafter : (offer (Objective.polledAmount? p) s.objectives b).1 = after := by rw [hoffer]
      have hrest := offer_again (Objective.polledAmount?_observed p) s.objectives b
      have hp : (a.setCurrentProgress after).progress.get? a.step = some after := by
        simp [Activation.setCurrentProgress]
      rw [hactivation] at hagain
      refine absurd ?_ ((Activation.moves_iff (a := a.setCurrentProgress after) hq hs hp).mp hagain)
      rw [← hafter, hrest]
    · have hany : anyCompleted = true := (Bool.and_eq_true_iff.mp hdone).1
      obtain ⟨u, hu, hcompleted⟩ := hmoved (hfinal hany)
      have hid : q.nextStep? a.step = some t := Quest.id_of_step? hs ▸ hnext
      refine ⟨hmoves.mpr (hfinal hany), ?_, u, hu, hcompleted.trans hdone⟩
      rw [hactivation]
      simp only [Activation.stepsAhead, Activation.enter, Activation.setCurrentProgress, hq,
        Option.map_some, Option.getD_some]
      exact hvalid.stepsFrom_next hid
    · rw [hfinished] at hstays
      cases hstays

/-! ## A poll of a journal -/

variable {c : Catalog} {j : Journal}

/-- In an unfinished journal, the portion of every active quest is its stride on its current step.
-/
theorem portion_of_active (username : String) (amount? : Objective → Option Amount) (now : Instant)
    (hj : j.log.Unfinished c) {a : Activation} (ha : a ∈ j.active) :
    ∃ q s b count, c.get? a.quest = some q ∧ q.step? a.step = some s
      ∧ a.progress.get? a.step = some b ∧ b.completed = false
      ∧ let r := stride q s username count amount? now a
        let portion := (progress c username amount? now j).portion a.quest
        portion.activation = (if r.finished then none else some r.activation)
          ∧ portion.updates = r.update.toList := by
  obtain ⟨q, s, b, hq, hs, hb, hopen, -⟩ := hj.journal a ha
  have hactive := Journal.activation?_of_mem hj.orderly.distinct ha
  have hstride : (j.thread a.quest).stride? c username amount? now a.quest
      = some (stride q s username ((j.thread a.quest).count.getD 0 + 1) amount? now a) := by
    rw [Thread.stride?, Thread.position?_of_known hq hactive hs, Option.map_some]
  have hportion := portion_progress c username amount? now
    (QuestLog.distinct_iff.mp hj.orderly.distinct a.quest)
  rw [Portion.offered_of_some hstride] at hportion
  refine ⟨q, s, b, (j.thread a.quest).count.getD 0 + 1, hq, hs, hb, hopen, ?_⟩
  rw [hportion]
  exact ⟨rfl, rfl⟩

/-- The updates of a poll are about the quests that it moves, and the next poll moves a quest only
if this one has completed its step. -/
theorem progress_look (hc : c.Valid) (hj : j.log.Unfinished c) (p : Player) (now : Instant) :
    let t := progress c p.username (Objective.polledAmount? p) now j
    (t.updates = [] ↔ ∀ a ∈ j.active, ¬ a.Moves c p)
    ∧ ∀ b ∈ t.journal.active, b.Moves c p →
      (∃ a ∈ j.active, a.Moves c p ∧ b.stepsAhead c + 1 = a.stepsAhead c)
        ∧ ∃ u ∈ t.updates, u.stepCompleted = true := by
  intro t
  have hd := hj.orderly.distinct
  obtain ⟨hupdates, -⟩ := outputs_progress c p.username (Objective.polledAmount? p) now hd
  have hactive := active_progress c p.username (Objective.polledAmount? p) now hd
  refine ⟨?_, fun b hb hmoves => ?_⟩
  · rw [hupdates, List.flatMap_eq_nil_iff]
    refine forall₂_congr fun a ha => ?_
    obtain ⟨q, s, b, count, hq, hs, hb, hopen, -, hportion⟩ :=
      portion_of_active p.username (Objective.polledAmount? p) now hj ha
    obtain ⟨hstill, -⟩ := stride_look p p.username count now (hc _ _ hq) hq hs hb hopen
    rw [hportion, Option.toList_eq_nil_iff]
    exact hstill
  · rw [hactive] at hb
    obtain ⟨a, ha, hab⟩ := List.mem_filterMap.mp hb
    obtain ⟨q, s, b', count, hq, hs, hb', hopen, hactivation, hportion⟩ :=
      portion_of_active p.username (Objective.polledAmount? p) now hj ha
    obtain ⟨-, hnext⟩ := stride_look p p.username count now (hc _ _ hq) hq hs hb' hopen
    rw [hactivation] at hab
    split at hab
    · cases hab
    · rename_i hstays
      obtain rfl := Option.some.inj hab
      obtain ⟨hmoved, hahead, u, hu, hcompleted⟩ := hnext (Bool.eq_false_iff.mpr hstays) hmoves
      refine ⟨⟨a, ha, hmoved, hahead⟩, u, ?_, hcompleted⟩
      rw [hupdates]
      refine List.mem_flatMap.mpr ⟨a, ha, ?_⟩
      rw [hportion, hu]
      exact List.mem_singleton.mpr rfl

end Rules

/-- The quests that a poll would move have at most `n` steps ahead of them. -/
def QuestLog.Within (c : Catalog) (p : Player) (n : Nat) (l : QuestLog) : Prop :=
  ∀ a ∈ l.active, a.Moves c p → a.stepsAhead c ≤ n

theorem QuestLog.Within.none {c : Catalog} {p : Player} {l : QuestLog} (h : l.Within c p 0) :
    ∀ a ∈ l.active, ¬ a.Moves c p := by
  intro a ha hmoves
  have hnone := h a ha hmoves
  obtain ⟨q, s, b, hq, hs, -⟩ := hmoves
  have hsome := Quest.stepsFrom_pos hs
  rw [Activation.stepsAhead, hq, Option.map_some, Option.getD_some] at hnone
  omega

/-! ## Runs -/

variable {ρ : Type} [Repository ρ]

theorem Store.fetch_faultless [TableRepository ρ] (s : Store ρ) {c : Circumstances}
    (hc : c.Faultless) (username : String) :
    (s.fetch c username).result = .ok (s.opened c username) := by
  rcases s.fetch_cases c username with ⟨fault, hfault, -, -⟩ | ⟨s', accesses, hfetch, -⟩
  · rw [hc.load] at hfault
    cases hfault
  · rw [hfetch]

namespace Engine

/-- The engine after a number of polls of a player, one after another. -/
def polled (p : Player) (e : Engine ρ) (cs : Nat → Circumstances) : Nat → Engine ρ
  | 0 => e
  | n + 1 => ((e.run (cs 0) (.poll p)).engine).polled p (fun i => cs (i + 1)) n

/-- A poll of the player changes nothing: it answers no update, publishes and writes nothing, and
the journal that it finds stays in use as it is. -/
structure PollFixpoint (e : Engine ρ) (c : Circumstances) (p : Player) : Prop where
  answer : (e.run c (.poll p)).answer = .ok (.updates [])
  news : (e.run c (.poll p)).news = []
  attempts : (e.run c (.poll p)).attempts = []
  repository : (e.run c (.poll p)).engine.store.repository = e.store.repository
  journal : ∃ j, (e.store.fetch c p.username).result = .ok j
    ∧ ∀ d, ((e.run c (.poll p)).engine.store.fetch d p.username).result = .ok j

/-- A journal that a rule handles without a change is what the next access finds. -/
theorem fetch_of_handle {e : Engine ρ} {c : Circumstances} {op : Operation} {username : String}
    {rule : Journal → Ruling Answer} (hplan : op.plan e.catalog c.now = .consult username rule)
    {j i : Journal} (hfound : (e.store.fetch c username).result = .ok j)
    {answer : Except Refusal Answer} (hrule : rule j = .handle i answer) (d : Circumstances) :
    ((e.run c op).engine.store.fetch d username).result = .ok i := by
  obtain ⟨s, accesses, dirty, hfetch, -⟩ := Store.fetch_found hfound
  have hrevised : (s.revise username i).slot? username = some (.loaded i true) :=
    s.slot?_setSlot username _
  simp only [run, hplan, consult, hfetch, hrule]
  rw [Store.fetch_loaded hrevised]

theorem pollFixpoint_of_found {e : Engine ρ} {c : Circumstances} {p : Player} {j : Journal}
    (hfound : (e.store.fetch c p.username).result = .ok j) (hj : j.log.Unfinished e.catalog)
    (hupdates : (Rules.progress e.catalog p.username (Objective.polledAmount? p) c.now j).updates
      = []) :
    e.PollFixpoint c p := by
  have hplan := Operation.plan_poll e.catalog c.now p
  have hrule : (Rules.poll e.catalog p c.now j).map .updates
      = .handle j (.ok (Answer.updates [])) := by
    rw [Rules.poll, Rules.Transition.ruling, hupdates, Rules.progress_unmoved hj hupdates]
    rfl
  obtain ⟨haccesses, hnews, hanswer, hrepository, -⟩ := run_free hplan hfound (Or.inr hrule)
  refine ⟨hanswer, hnews, ?_, hrepository, j, hfound, fetch_of_handle hplan hfound hrule⟩
  rcases haccesses with h | h <;> rw [Outcome.attempts, h] <;> rfl

variable [TableRepository ρ]

/-- The answer and the journal of a poll where nothing fails. -/
theorem run_look {e : Engine ρ} (hs : e.store.Sound) {c : Circumstances} (hc : c.Faultless)
    (p : Player) :
    let o := e.run c (.poll p)
    let t := Rules.progress e.catalog p.username (Objective.polledAmount? p) c.now
      (e.store.opened c p.username)
    o.answer = .ok (.updates t.updates)
      ∧ (o.engine.store.place (playerKey p.username)).log = t.journal.log
      ∧ ∃ j, j.log = t.journal.log ∧ ∀ d, (o.engine.store.fetch d p.username).result = .ok j := by
  intro o t
  have hplan := Operation.plan_poll e.catalog c.now p
  have h := run_faultless hs hc hplan
  have hjournal : ∀ i, ((Rules.poll e.catalog p c.now i).map Answer.updates).journal i
      = (Rules.progress e.catalog p.username (Objective.polledAmount? p) c.now i).journal := by
    intro i
    rw [Ruling.journal_map, Rules.poll, Rules.Transition.journal_ruling]
  refine ⟨?_, ?_, _, ?_, h.fetched⟩
  · rw [h.answer, Rules.answer_poll]
    rfl
  · rw [h.log, hjournal]
  · rw [Ruling.log_found, hjournal]

/-- The invariant of repeated polls: `RunInvariant`, and a poll would move only quests with at most
`n` steps ahead of them. -/
structure PollInvariant (catalog : Catalog) (p : Player) (n : Nat) (e : Engine ρ) : Prop where
  settled : e.RunInvariant catalog
  unfinished : (e.store.place (playerKey p.username)).All (·.Unfinished catalog)
  within : (e.store.place (playerKey p.username)).log.Within catalog p n

section Look

variable {catalog : Catalog} (hvalid : catalog.Valid) {p : Player} {e : Engine ρ} {n : Nat}
  {c : Circumstances}

include hvalid

theorem PollInvariant.look (h : e.PollInvariant catalog p n) (hc : c.Faultless) :
    (e.run c (.poll p)).engine.PollInvariant catalog p (n - 1) where
  settled := h.settled.take hvalid (t := .perform c (.poll p)) trivial
  unfinished := take_unfinished hvalid h.settled h.unfinished (.perform c (.poll p))
  within := by
    obtain ⟨rfl, hs, -, -⟩ := h.settled
    have hj : (e.store.opened c p.username).log.Unfinished e.catalog := by
      rw [Store.log_opened]
      exact h.unfinished.log
    obtain ⟨-, hlog, -⟩ := run_look hs hc p
    obtain ⟨-, hnext⟩ := Rules.progress_look hvalid hj p c.now
    rw [hlog]
    intro b hb hmoves
    obtain ⟨⟨a, ha, hmoved, hahead⟩, -⟩ := hnext b hb hmoves
    have hactive : a ∈ (e.store.place (playerKey p.username)).log.active := by
      rw [← Store.log_opened (c := c)]
      exact ha
    have hbound := h.within a hactive hmoved
    omega

/-- Where a poll would move no quest, it changes nothing. -/
theorem PollInvariant.pollFixpoint (h : e.PollInvariant catalog p 0) {j : Journal}
    (hfound : (e.store.fetch c p.username).result = .ok j) : e.PollFixpoint c p := by
  obtain ⟨rfl, -, -, -⟩ := h.settled
  obtain rfl := fetch_result_eq_opened hfound
  have hlog := Store.log_opened e.store c p.username
  have hj : (e.store.opened c p.username).log.Unfinished e.catalog := hlog ▸ h.unfinished.log
  obtain ⟨hnone, -⟩ := Rules.progress_look hvalid hj p c.now
  refine pollFixpoint_of_found hfound hj (hnone.mpr fun a ha => h.within.none a ?_)
  rw [← hlog]
  exact ha

/-- A poll that completes no step is the last one that moves anything. -/
theorem PollInvariant.look_of_open (h : e.PollInvariant catalog p n) (hc : c.Faultless)
    {us : List Update}
    (hanswer : (e.run c (.poll p)).answer = .ok (.updates us))
    (hopen : ∀ u ∈ us, u.stepCompleted = false) :
    (e.run c (.poll p)).engine.PollInvariant catalog p 0 where
  settled := (h.look hvalid hc).settled
  unfinished := (h.look hvalid hc).unfinished
  within := by
    obtain ⟨rfl, hs, -, -⟩ := h.settled
    have hj : (e.store.opened c p.username).log.Unfinished e.catalog := by
      rw [Store.log_opened]
      exact h.unfinished.log
    obtain ⟨hanswer', hlog, -⟩ := run_look hs hc p
    obtain ⟨-, hnext⟩ := Rules.progress_look hvalid hj p c.now
    cases hanswer.symm.trans hanswer'
    rw [hlog]
    intro b hb hmoves
    obtain ⟨-, u, hu, hcompleted⟩ := hnext b hb hmoves
    rw [hopen u hu] at hcompleted
    cases hcompleted

/-- Where a poll answers no update, none moves anything. -/
theorem PollInvariant.of_still (h : e.PollInvariant catalog p n) (hc : c.Faultless)
    (hanswer : (e.run c (.poll p)).answer = .ok (.updates [])) : e.PollInvariant catalog p 0 where
  settled := h.settled
  unfinished := h.unfinished
  within := by
    obtain ⟨rfl, hs, -, -⟩ := h.settled
    have hlog := Store.log_opened e.store c p.username
    obtain ⟨hanswer', -⟩ := run_look hs hc p
    have hj : (e.store.opened c p.username).log.Unfinished e.catalog := hlog ▸ h.unfinished.log
    obtain ⟨hnone, -⟩ := Rules.progress_look hvalid hj p c.now
    have hupdates := Answer.updates.inj (Except.ok.inj (hanswer'.symm.trans hanswer))
    intro a ha hmoves
    refine absurd hmoves (hnone.mp hupdates a ?_)
    rw [← hlog] at ha
    exact ha

/-- Run lemma: once a poll would move no quest, no later one does. -/
theorem PollInvariant.resting {cs : Nat → Circumstances} (hcs : ∀ i, (cs i).Faultless)
    (h : e.PollInvariant catalog p 0) (i : Nat) : (e.polled p cs i).PollFixpoint (cs i) p := by
  induction i generalizing e cs with
  | zero => exact h.pollFixpoint hvalid (Store.fetch_faultless e.store (hcs 0) p.username)
  | succ i ih => exact ih (fun i => hcs (i + 1)) (h.look hvalid (hcs 0))

/-- Run lemma, by induction on the bound: polls move something up to a point, and nothing from there
on. -/
theorem PollInvariant.settles {cs : Nat → Circumstances} (hcs : ∀ i, (cs i).Faultless)
    (h : e.PollInvariant catalog p n) :
    ∃ k ≤ n, ∀ i,
      (i < k → ∃ us, us ≠ []
        ∧ ((e.polled p cs i).run (cs i) (.poll p)).answer = .ok (.updates us))
      ∧ (k ≤ i → (e.polled p cs i).PollFixpoint (cs i) p) := by
  induction n generalizing e cs with
  | zero =>
      exact ⟨0, Nat.le_refl 0, fun i =>
        ⟨fun hi => absurd hi (Nat.not_lt_zero i), fun _ => h.resting hvalid hcs i⟩⟩
  | succ n ih =>
      obtain ⟨hanswer, -⟩ := run_look h.settled.sound (hcs 0) p
      generalize (Rules.progress e.catalog p.username (Objective.polledAmount? p) (cs 0).now
        (e.store.opened (cs 0) p.username)).updates = us at hanswer
      by_cases hnone : us = []
      · have hrest := (h.of_still hvalid (hcs 0) (hnone ▸ hanswer)).resting hvalid hcs
        exact ⟨0, Nat.zero_le _, fun i =>
          ⟨fun hi => absurd hi (Nat.not_lt_zero i), fun _ => hrest i⟩⟩
      · obtain ⟨k, hk, hlater⟩ := ih (fun i => hcs (i + 1)) (h.look hvalid (hcs 0))
        refine ⟨k + 1, Nat.succ_le_succ hk, fun i => ?_⟩
        cases i with
        | zero =>
            exact ⟨fun _ => ⟨us, hnone, hanswer⟩, fun hi => absurd hi (Nat.not_succ_le_zero k)⟩
        | succ i =>
            obtain ⟨hmoves, hrests⟩ := hlater i
            exact ⟨fun hi => hmoves (Nat.lt_of_succ_lt_succ hi),
              fun hi => hrests (Nat.le_of_succ_le_succ hi)⟩

end Look

end Engine

variable [TableRepository ρ]

/-- **Polling is idempotent on a step and settles.** In a run over an empty repository under a
catalog of valid quests, whatever has failed before: a poll where nothing fails is answered, and if
its updates complete no step, the same poll again moves nothing. The same poll repeated, where
nothing fails, moves something every time at first, at most as often as a quest of the player has
steps ahead of it, and then never again. A poll that moves nothing answers no update, publishes
nothing, tries no write, and leaves the journal as it was found. -/
theorem polling_settles (catalog : Catalog) (hvalid : catalog.Valid) (repository : ρ)
    (hempty : TableRepository.records repository = ∅) (limit : Nat) (turns : List Turn)
    (hkeep : ∀ t ∈ turns, t.Keeps catalog) (p : Player) :
    let e := (Engine.new catalog repository limit).after turns
    (∀ c : Circumstances, c.Faultless →
      ∃ us, (e.run c (.poll p)).answer = .ok (.updates us)
        ∧ ((∀ u ∈ us, u.stepCompleted = false) →
          ∀ c', (e.run c (.poll p)).engine.PollFixpoint c' p))
    ∧ ∀ cs : Nat → Circumstances, (∀ i, (cs i).Faultless) →
      ∀ j, (e.store.fetch (cs 0) p.username).result = .ok j →
      ∃ k ≤ j.stepsAhead catalog, ∀ i,
        (i < k → ∃ us, us ≠ []
          ∧ ((e.polled p cs i).run (cs i) (.poll p)).answer = .ok (.updates us))
        ∧ (k ≤ i → (e.polled p cs i).PollFixpoint (cs i) p) := by
  intro e
  have hnew := Engine.runInvariant_new catalog hempty limit
  have hsettled : e.RunInvariant catalog := hnew.after hvalid hkeep
  have hall : (e.store.place (playerKey p.username)).All (·.Unfinished catalog) :=
    Engine.after_unfinished hvalid hnew
      (Engine.all_new QuestLog.Unfinished.blank catalog hempty limit _) hkeep
  have hinvariant : ∀ c, e.PollInvariant catalog p
    ((e.store.opened c p.username).stepsAhead catalog) := by
    intro c
    refine ⟨hsettled, hall, fun a ha _ => Journal.stepsAhead_le ?_ catalog⟩
    rw [← Store.log_opened e.store c p.username] at ha
    exact ha
  refine ⟨fun c hc => ?_, fun cs hcs j hfound => ?_⟩
  · obtain ⟨hanswer, -, j, -, hfetched⟩ := Engine.run_look hsettled.sound hc p
    refine ⟨_, hanswer, fun hopen c' => ?_⟩
    exact ((hinvariant c).look_of_open hvalid hc hanswer hopen).pollFixpoint hvalid (hfetched c')
  · rw [Engine.fetch_result_eq_opened hfound]
    exact (hinvariant (cs 0)).settles hvalid hcs

/-- One of two keys is observed once. A level that is enough for both steps is observed twice, as
there are two steps. -/
theorem polling_settles_ascent :
    let turns := [Turn.perform (.calm .epoch) (.start (.named "Ann" 1) "ascent" false none)]
    let catalog := Catalog.ofQuests [ascent]
    let e := (Engine.new catalog MemoryRepository.empty 5000).after turns
    let c := Circumstances.calm .epoch
    let keeper := (Player.named "Ann" 3).withItem "key" 1
    let climber := Player.named "Ann" 9
    let j := e.store.opened c "Ann"
    catalog.Valid ∧ TableRepository.records MemoryRepository.empty = ∅
      ∧ (∀ t ∈ turns, t.Keeps catalog) ∧ c.Faultless
      ∧ (e.run c (.poll keeper)).answer = .ok (.updates
        [⟨"ascent", "foot", [⟨"key", 1, 2, false⟩], false, false, none, false, none⟩])
      ∧ (e.run c (.poll keeper)).engine.PollFixpoint c keeper
      ∧ (e.store.fetch c "Ann").result = .ok j ∧ j.stepsAhead catalog = 2
      ∧ ((e.polled climber (fun _ => c) 1).run c (.poll climber)).answer ≠ .ok (.updates [])
      ∧ (e.polled climber (fun _ => c) 2).PollFixpoint c climber := by
  intro turns catalog e c keeper climber j
  have hvalid : catalog.Valid := Catalog.valid_ofQuests fun q hq => by
    rw [List.mem_singleton.mp hq]
    decide
  have hkeep : ∀ t ∈ turns, t.Keeps catalog := by simp [turns, Turn.Keeps]
  have hc : c.Faultless := Circumstances.faultless_calm _
  have hfound : (e.store.fetch c "Ann").result = .ok j := by rfl
  have hahead : j.stepsAhead catalog = 2 := by rfl
  have hkey : (e.run c (.poll keeper)).answer = .ok (.updates
      [⟨"ascent", "foot", [⟨"key", 1, 2, false⟩], false, false, none, false, none⟩]) := by
    decide +kernel
  obtain ⟨hkeeper, -⟩ :=
    polling_settles catalog hvalid MemoryRepository.empty rfl 5000 turns hkeep keeper
  obtain ⟨-, hclimber⟩ :=
    polling_settles catalog hvalid MemoryRepository.empty rfl 5000 turns hkeep climber
  obtain ⟨us, hanswer, hrest⟩ := hkeeper c hc
  cases hkey.symm.trans hanswer
  obtain ⟨k, hk, hlooks⟩ := hclimber (fun _ => c) (fun _ => hc) j hfound
  exact ⟨hvalid, rfl, hkeep, hc, hkey, hrest (by simp) c, hfound, hahead, by decide +kernel,
    (hlooks 2).2 (hahead ▸ hk)⟩

end Questline
