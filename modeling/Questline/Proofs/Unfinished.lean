import Questline.Proofs.Holdings
import Questline.Proofs.Replica
import Questline.Proofs.Tally

/-!
# No quest is stuck on a finished step

`Rules.stride` tests the policy of a step only if it completes one of its objectives. No quest gets
stuck by that: as long as one catalog is in place, the step that an active quest is on is still to
be finished (`unfinished_held`), for a step that is entered has nothing complete, and amounts that
complete no objective leave it as complete as it was (`Rules.isDone_offer`). So the amounts that
make the policy of a step true are those by which it is left.
-/

namespace Questline

/-! ## Steps that are still to be finished -/

/-- A counter that does not complete just now is as complete as it was. -/
theorem Counter.completed_apply (c : Counter) (amount : Amount)
    (h : (c.apply amount).2.2 = false) : (c.apply amount).1.completed = c.completed := by
  have hsettle : ∀ d : Counter, (settle d).2 = false → (settle d).1.completed = d.completed := by
    intro d hd
    unfold settle at hd ⊢
    split at hd
    · cases hd
    · rename_i hshort
      rw [if_neg hshort]
  cases amount with
  | increment n =>
      simp only [apply, add] at h ⊢
      split
      · rfl
      · rename_i hopen
        rw [if_neg hopen, if_neg hopen] at h
        exact hsettle { c with current := c.raised n } h
  | observed n =>
      simp only [apply, observe] at h ⊢
      split
      · rfl
      · rename_i hopen
        rw [if_neg hopen] at h
        split
        · rfl
        · rename_i hmore
          rw [if_neg hmore] at h
          exact hsettle _ h

/-- Every objective of the step is recorded, and if there are any, not enough are complete. -/
structure StepProgress.Pending (p : StepProgress) (s : Step) : Prop where
  recorded : ∀ o ∈ s.objectives, ∃ c, p.counters.get? o.id = some c
  unsatisfied : s.objectives ≠ [] → p.isSatisfied s = false

namespace StepProgress

variable {p p' : StepProgress}

theorem isSatisfied_congr (h : ∀ o, p'.isDone o = p.isDone o) (s : Step) :
    p'.isSatisfied s = p.isSatisfied s := by
  unfold isSatisfied
  rw [funext h]

theorem isDone_setCounter (p : StepProgress) (id : String) (c : Counter) (o : Objective) :
    (p.setCounter id c).isDone o = if id = o.id then c.completed else p.isDone o := by
  unfold isDone setCounter
  rw [Dict.get?_insert]
  by_cases h : id = o.id
  · rw [if_pos h, if_pos h]
  · rw [if_neg h, if_neg h]

theorem completed_counter (p : StepProgress) (o : Objective) (required : UInt32) :
    (p.counter o.id required).completed = p.isDone o := by
  unfold counter isDone
  cases p.counters.get? o.id <;> rfl

/-- Nothing is complete in a step that is just entered. -/
theorem isDone_start (s : Step) (now : Instant) (o : Objective) :
    (start s now).isDone o = false := by
  have hview := view_start s now o.id
  unfold view at hview
  unfold isDone
  cases hc : (start s now).counters.get? o.id with
  | none => rfl
  | some c =>
      rw [hc] at hview
      exact congrArg Prod.snd hview

theorem pending_start (s : Step) (now : Instant) : (start s now).Pending s where
  recorded o ho := by
    have hentry : (o.id, Counter.fresh o.requiredCount)
        ∈ (s.objectives.map fun o => (o.id, Counter.fresh o.requiredCount)).reverse :=
      List.mem_reverse.mpr (List.mem_map.mpr ⟨o, ho, rfl⟩)
    have hsome : (start s now).counters.get? o.id ≠ none := by
      unfold start
      rw [Dict.get?_ofList]
      exact findValue?_ne_none hentry
    exact Option.ne_none_iff_exists'.mp hsome
  unsatisfied hne := by
    obtain ⟨o, rest, hobjectives⟩ := List.exists_cons_of_ne_nil hne
    unfold isSatisfied
    split
    · rw [hobjectives, List.all_cons, isDone_start, Bool.false_and]
    · rw [List.any_eq_false]
      intro b _
      rw [isDone_start]
      exact Bool.false_ne_true

end StepProgress

namespace Rules

variable (amount? : Objective → Option Amount)

/-- Amounts that complete no objective leave every objective as complete as it was. -/
theorem isDone_offer (objectives : List Objective) (p : StepProgress)
    (h : (offer amount? objectives p).2.2 = false) (x : Objective) :
    (offer amount? objectives p).1.isDone x = p.isDone x := by
  induction objectives generalizing p with
  | nil => rfl
  | cons o rest ih =>
      cases hamount : amount? o with
      | none =>
          simp only [offer, hamount] at h ⊢
          exact ih p h
      | some amount =>
          -- the counter of `o` is as complete as before, whether it has moved or not
          let c := p.counter o.id o.requiredCount
          have hkept : (c.apply amount).1.completed = c.completed →
              (p.setCounter o.id (c.apply amount).1).isDone x = p.isDone x := by
            intro hsame
            rw [StepProgress.isDone_setCounter]
            split
            · rename_i hid
              rw [hsame, StepProgress.completed_counter]
              unfold StepProgress.isDone
              rw [hid]
            · rfl
          simp only [offer, hamount] at h ⊢
          cases hchanged : (c.apply amount).2.1 with
          | true =>
              simp only [c, hchanged, if_true, Bool.or_eq_false_iff] at h ⊢
              exact (ih _ h.2).trans (hkept (c.completed_apply amount h.1))
          | false =>
              have hsame := congrArg Counter.completed (c.apply_unchanged amount hchanged)
              simp only [c, hchanged, Bool.false_eq_true, if_false] at h ⊢
              exact (ih _ h).trans (hkept hsame)

theorem recorded_offer (objectives : List Objective) (p : StepProgress) {id : String}
    (h : ∃ c, p.counters.get? id = some c) :
    ∃ c, (offer amount? objectives p).1.counters.get? id = some c := by
  induction objectives generalizing p with
  | nil => exact h
  | cons o rest ih =>
      rw [offer_cons]
      cases amount? o with
      | none => exact ih p h
      | some amount =>
          refine ih _ ?_
          simp only [StepProgress.setCounter, Dict.get?_insert]
          split
          · exact ⟨_, rfl⟩
          · exact h

end Rules

/-! ## One transition -/

section Moves

variable {c : Catalog} {username : String} {now : Instant} {quest : String} {t t' : Thread}
  {news : List Notification}

namespace Offering

variable {amount? : Objective → Option Amount} {a : Activation}

theorem after_eq (o : Offering c amount? quest a) :
    o.after = (Rules.offer amount? o.s.objectives o.before).1 := by
  rw [o.offered]

/-- If the policy of a pending step holds after `Rules.offer`, an objective was completed, and so
the step is. -/
theorem completesStep_of_satisfied (o : Offering c amount? quest a) (h : o.before.Pending o.s)
    (hne : o.s.objectives ≠ []) (hsatisfied : o.after.isSatisfied o.s = true) :
    o.completesStep = true := by
  unfold completesStep
  rw [hsatisfied, Bool.and_true]
  cases hany : o.anyCompleted with
  | true => rfl
  | false =>
      have hflag : (Rules.offer amount? o.s.objectives o.before).2.2 = false := by
        rw [o.offered]
        exact hany
      have hsame : o.after.isSatisfied o.s = o.before.isSatisfied o.s := by
        rw [o.after_eq]
        exact StepProgress.isSatisfied_congr (Rules.isDone_offer _ _ _ hflag) o.s
      rw [hsame, h.unsatisfied hne] at hsatisfied
      cases hsatisfied

theorem pending_after (o : Offering c amount? quest a) (h : o.before.Pending o.s)
    (hcompletesStep : o.completesStep = false) : o.after.Pending o.s where
  recorded x hx := by
    rw [o.after_eq]
    exact Rules.recorded_offer _ _ _ (h.recorded x hx)
  unsatisfied hne := by
    refine Bool.eq_false_iff.mpr fun hsatisfied => ?_
    rw [o.completesStep_of_satisfied h hne hsatisfied] at hcompletesStep
    cases hcompletesStep

end Offering

/-- The step that the quest is on is still to be finished. -/
def Thread.Pending (c : Catalog) (quest : String) (t : Thread) : Prop :=
  ∀ q a s p, t.position? c quest = some (q, a, s) → a.progress.get? a.step = some p →
    p.Pending s

namespace Thread

theorem pending_of_inactive (count : Option UInt32) : Pending c quest ⟨none, count⟩ := by
  intro q a s p hposition
  rw [position?_of_inactive c quest rfl] at hposition
  cases hposition

theorem pending_of_recorded {q : Quest} {a : Activation} {s : Step} {p : StepProgress}
    (hq : c.get? quest = some q) (hs : q.step? a.step = some s)
    (hp : a.progress.get? a.step = some p) (h : p.Pending s) (count : Option UInt32) :
    Pending c quest ⟨some a, count⟩ := by
  intro q' a' s' p' hposition hp'
  obtain ⟨rfl, rfl⟩ := recorded_unique hq hs hp hposition hp'
  exact h

theorem pending_entered {q : Quest} {s : Step} (hq : c.get? quest = some q)
    (hs : q.step? s.id = some s) {a : Activation} (hstep : a.step = s.id)
    (hp : a.progress.get? s.id = some (StepProgress.start s now)) (count : Option UInt32) :
    Pending c quest ⟨some a, count⟩ := by
  rw [← hstep] at hs hp
  exact pending_of_recorded hq hs hp (StepProgress.pending_start s now) count

theorem Pending.before {amount? : Objective → Option Amount} {a : Activation}
    {count : Option UInt32} (h : Pending c quest ⟨some a, count⟩)
    (o : Offering c amount? quest a) : o.before.Pending o.s :=
  h o.q a o.s o.before (position?_of_known o.known rfl o.onStep) o.recorded

end Thread

theorem QuestStride.pending (hc : c.Valid) {amount? : Objective → Option Amount}
    (h : QuestStride c username now quest amount? t news t') (ht : t.Pending c quest) :
    t'.Pending c quest := by
  cases h with
  | idle => exact ht
  | @update a count o hcompletesStep =>
      have hafter : (a.setCurrentProgress o.after).progress.get? a.step = some o.after := by
        simp [Activation.setCurrentProgress]
      exact Thread.pending_of_recorded (a := a.setCurrentProgress o.after) o.known o.onStep hafter
        (o.pending_after (ht.before o) hcompletesStep) count
  | @advance a count o _ next hnext =>
      have hs := (hc _ _ o.known).step?_of_nextStep? hnext
      have hp : ((a.setCurrentProgress (o.after.complete now)).enter next now).progress.get? next.id
          = some (StepProgress.start next now) := by simp [Activation.enter]
      exact Thread.pending_entered o.known hs rfl hp count
  | complete => exact Thread.pending_of_inactive _

/-- Step lemma: after a transition, the current step is still to be finished. -/
theorem QuestTransition.pending (hc : c.Valid) {stimulus? : Option Stimulus} {target? : Option Step}
    (h : QuestTransition c username now quest stimulus? target? t news t')
    (ht : t.Pending c quest) :
    t'.Pending c quest := by
  cases h with
  | stay => exact ht
  | @start q s count hq hs =>
      have hp : (Activation.start q s now).progress.get? s.id
          = some (StepProgress.start s now) := by simp [Activation.start]
      exact Thread.pending_entered hq hs rfl hp count
  | abandon => exact Thread.pending_of_inactive _
  | complete => exact Thread.pending_of_inactive _
  | fail => exact Thread.pending_of_inactive _
  | @setVariable a count key value =>
      intro q' a' s' p' hposition hp'
      obtain ⟨hq', ha', hs'⟩ := Thread.position?_eq_some.mp hposition
      cases ha'
      exact ht q' a s' p' (Thread.position?_of_known hq' rfl hs') hp'
  | meet hstride => exact hstride.pending hc ht
  | branch hq htarget =>
      exact Thread.pending_entered hq htarget (step_branch ..) (Thread.progress_branch ..) _
  | talk hq htarget =>
      exact Thread.pending_entered hq htarget (step_branch ..) (Thread.progress_branch ..) _

/-- The news says that a step was left by completing it, and if no step follows, that the quest was
completed. -/
structure Leaves (username quest : String) (q : Quest) (s : Step) (news : List Notification)
    (t' : Thread) : Prop where
  left : ∃ actions, Notification.stepCompleted username quest s.id ((q.nextStep? s.id).map (·.id))
    actions ∈ news
  ended : q.nextStep? s.id = none → t'.current = none
    ∧ ∃ count, Notification.completed username quest count q.rewards ∈ news

/-- A quest leaves its step if the stimulus makes the policy of the step true. -/
theorem QuestStride.leaves {amount? : Objective → Option Amount}
    (h : QuestStride c username now quest amount? t news t') (ht : t.Pending c quest) {q : Quest}
    {a : Activation} {s : Step} {p : StepProgress}
    (hposition : t.position? c quest = some (q, a, s))
    (hp : a.progress.get? a.step = some p) (hne : s.objectives ≠ [])
    (hsatisfied : (Rules.offer amount? s.objectives p).1.isSatisfied s = true) :
    Leaves username quest q s news t' := by
  have hsame : ∀ {b : Activation} {count : Option UInt32} (o : Offering c amount? quest b),
      t = ⟨some b, count⟩ → q = o.q ∧ s = o.s ∧ o.completesStep = true := by
    rintro b count o rfl
    obtain ⟨hq, hb, -⟩ := Thread.position?_eq_some.mp hposition
    cases o.known.symm.trans hq
    obtain ⟨rfl, rfl⟩ := Thread.recorded_unique o.known o.onStep o.recorded hposition hp
    refine ⟨rfl, rfl, o.completesStep_of_satisfied (ht.before o) hne ?_⟩
    rw [o.after_eq]
    exact hsatisfied
  cases h with
  | idle hnone =>
      rw [hnone] at hposition
      cases hposition
  | update o hcompletesStep =>
      obtain ⟨-, -, hcompletesStep'⟩ := hsame o rfl
      rw [hcompletesStep'] at hcompletesStep
      cases hcompletesStep
  | @advance b count o _ next hnext =>
      obtain ⟨rfl, rfl, -⟩ := hsame o rfl
      refine ⟨⟨o.s.onComplete ++ next.onStart, ?_⟩, fun hend => ?_⟩
      · rw [hnext]
        exact List.mem_append_right _ (List.mem_singleton.mpr rfl)
      · rw [hnext] at hend
        cases hend
  | @complete b count o _ hnext =>
      obtain ⟨rfl, rfl, -⟩ := hsame o rfl
      refine ⟨⟨o.s.onComplete, ?_⟩, fun _ => ⟨rfl, count.getD 0 + 1, ?_⟩⟩
      · rw [hnext]
        exact List.mem_append_right _ List.mem_cons_self
      · exact List.mem_append_right _ (List.mem_cons_of_mem _ (List.mem_singleton.mpr rfl))

theorem QuestTransition.leaves {met : Stimulus} {target? : Option Step}
    (h : QuestTransition c username now quest (some met) target? t news t') (ht : t.Pending c quest)
    {q : Quest} {a : Activation} {s : Step} {p : StepProgress}
    (hposition : t.position? c quest = some (q, a, s)) (hp : a.progress.get? a.step = some p)
    (hne : s.objectives ≠ [])
    (hsatisfied : (Rules.offer met.amount? s.objectives p).1.isSatisfied s = true) :
    Leaves username quest q s news t' := by
  cases h with
  | meet hstride => exact hstride.leaves ht hposition hp hne hsatisfied
  | talk _ _ hstride =>
      obtain ⟨⟨actions, hleft⟩, hended⟩ := hstride.leaves ht hposition hp hne hsatisfied
      refine ⟨⟨actions, List.mem_append_left _ hleft⟩, fun hend => ?_⟩
      -- the talk has left the quest active, so that it had a step to go to
      obtain ⟨hcurrent, -⟩ := hended hend
      cases hcurrent

end Moves

/-! ## Runs -/

/-- The step that every active quest is on is known, recorded and still to be finished. -/
def Journal.Unfinished (c : Catalog) (j : Journal) : Prop :=
  ∀ a ∈ j.active, ∃ q s p, c.get? a.quest = some q ∧ q.step? a.step = some s
    ∧ a.progress.get? a.step = some p ∧ p.completed = false
    ∧ (∀ o ∈ s.objectives, ∃ counter, p.counters.get? o.id = some counter)
    ∧ (s.objectives ≠ [] → p.isSatisfied s = false)

structure QuestLog.Unfinished (c : Catalog) (l : QuestLog) : Prop where
  orderly : l.Orderly
  known : ∀ quest, (l.thread quest).Known c quest
  pending : ∀ quest, (l.thread quest).Pending c quest

namespace QuestLog.Unfinished

variable {c : Catalog}

theorem blank : QuestLog.blank.Unfinished c where
  orderly := orderly_blank
  known _ _ h := by cases h
  pending _ := Thread.pending_of_inactive none

theorem plan (hc : c.Valid) {now : Instant} {op : Operation} {username : String}
    {rule : Journal → Ruling Answer} (hplan : op.plan c now = .consult username rule)
    {j : Journal} (h : j.log.Unfinished c) : ((rule j).journal j).log.Unfinished c where
  orderly := Operation.orderly_plan hplan h.orderly
  known quest := (Operation.transition hplan (h.orderly.at quest)).known hc (h.known quest)
  pending quest := (Operation.transition hplan (h.orderly.at quest)).pending hc (h.pending quest)

theorem journal {j : Journal} (h : j.log.Unfinished c) : j.Unfinished c := by
  intro a ha
  have hcurrent : (j.log.thread a.quest).current = some a :=
    Journal.activation?_of_mem h.orderly.distinct ha
  obtain ⟨q, s, hposition⟩ := h.known a.quest a hcurrent
  obtain ⟨hq, -, hs⟩ := Thread.position?_eq_some.mp hposition
  obtain ⟨p, hp, hopen⟩ := h.orderly.opened a.quest a hcurrent
  obtain ⟨hrecorded, hunsatisfied⟩ := h.pending a.quest q a s p hposition hp
  exact ⟨q, s, p, hq, hs, hp, hopen, hrecorded, hunsatisfied⟩

end QuestLog.Unfinished

variable {ρ : Type} [Repository ρ] [TableRepository ρ]

namespace Engine

theorem take_unfinished {catalog : Catalog} (hc : catalog.Valid) {e : Engine ρ}
    (h : e.RunInvariant catalog) {key : String}
    (hall : (e.store.place key).All (·.Unfinished catalog)) (t : Turn) :
    ((e.take t).engine.store.place key).All (·.Unfinished catalog) := by
  obtain ⟨rfl, hs, -, -⟩ := h
  refine take_all hs t hall (fun _ hl => hl) ?_
  intro c op username rule j _ hplan _ hj _
  have hbefore : j.log.Unfinished e.catalog := hj ▸ hall.log
  exact hbefore.plan hc hplan

theorem after_unfinished {catalog : Catalog} (hc : catalog.Valid) {e : Engine ρ}
    (h : e.RunInvariant catalog) {key : String}
    (hall : (e.store.place key).All (·.Unfinished catalog)) {turns : List Turn}
    (hkeep : ∀ t ∈ turns, t.Keeps catalog) :
    ((e.after turns).store.place key).All (·.Unfinished catalog) := by
  have htake : ∀ (e : Engine ρ) t,
      e.RunInvariant catalog ∧ (e.store.place key).All (·.Unfinished catalog) → t.Keeps catalog →
      (e.take t).engine.RunInvariant catalog
        ∧ ((e.take t).engine.store.place key).All (·.Unfinished catalog) := by
    rintro e t ⟨hsettled, hbefore⟩ ht
    exact ⟨hsettled.take hc ht, take_unfinished hc hsettled hbefore t⟩
  exact (after_of_take htake ⟨h, hall⟩ hkeep).2

/-- An operation by which the policy of a step is fulfilled has the quest leave that step, and
end if no step follows. -/
theorem run_leaves {e : Engine ρ} (hs : e.store.Sound) {c : Circumstances} {op : Operation}
    {username : String} {j : Journal} {met : Stimulus}
    (h : (e.store.place (playerKey username)).log.Unfinished e.catalog)
    (hreached : e.reached? (playerKey username) (.perform c op) = some j)
    (hmet : op.stimulus? e.catalog j = some met) {a : Activation} (ha : a ∈ j.active) {q : Quest}
    {s : Step} {p : StepProgress} (hq : e.catalog.get? a.quest = some q)
    (hs' : q.step? a.step = some s) (hp : a.progress.get? a.step = some p)
    (hne : s.objectives ≠ [])
    (hsatisfied : (Rules.offer met.amount? s.objectives p).1.isSatisfied s = true) :
    ∃ name, playerKey name = playerKey username
      ∧ Leaves name a.quest q s (e.run c op).news
        (((e.run c op).engine.store.place (playerKey username)).log.thread a.quest) := by
  rcases take_cases hs (.perform c op) (playerKey username) with ⟨-, -, hnone⟩
    | ⟨c', op', name, rule, i, hturn, hplan, hname, hreached', hlog, hafter, hnews⟩
  · rw [hreached] at hnone
    cases hnone
  cases hturn
  cases hreached.symm.trans hreached'
  rw [← hlog] at h
  have htransition := Operation.transition hplan (h.orderly.at a.quest)
  rw [hmet] at htransition
  have hcurrent : (j.log.thread a.quest).current = some a :=
    Journal.activation?_of_mem h.orderly.distinct ha
  obtain ⟨⟨actions, hleft⟩, hended⟩ := htransition.leaves (h.pending a.quest)
    (Thread.position?_of_known hq hcurrent hs') hp hne hsatisfied
  have hheard : ∀ n, n ∈ (rule j).news.filter (·.quest = a.quest) → n ∈ (e.run c op).news :=
    fun n hn => hnews ▸ (List.mem_filter.mp hn).1
  refine ⟨name, hname, ⟨actions, hheard _ hleft⟩, fun hend => ?_⟩
  obtain ⟨hinactive, count, hcompleted⟩ := hended hend
  refine ⟨?_, count, hheard _ hcompleted⟩
  have hthread : ((e.run c op).engine.store.place (playerKey username)).log.thread a.quest
      = ((rule j).journal j).thread a.quest := congrArg (·.thread a.quest) hafter
  rw [hthread]
  exact hinactive

end Engine

/-- **No quest is stuck on a finished step.** In a run over an empty repository under a catalog
of valid quests, whatever fails, the current step of every active quest of every journal in use
or stored is a step of its definition, is recorded with all its objectives and not completed,
and if it has objectives, its policy does not hold. By whatever makes the policy true, the step
is left in the same operation, or the quest completed if no step follows. -/
theorem unfinished_held (catalog : Catalog) (hvalid : catalog.Valid) (repository : ρ)
    (hempty : TableRepository.records repository = ∅) (limit : Nat) (turns : List Turn)
    (hkeep : ∀ t ∈ turns, t.Keeps catalog) :
    let e := (Engine.new catalog repository limit).after turns
    (∀ key j, e.store.Holds key j → j.Unfinished catalog)
    ∧ ∀ c op username j met, e.reached? (playerKey username) (.perform c op) = some j →
      op.stimulus? catalog j = some met →
      ∀ a ∈ j.active, ∀ q s p, catalog.get? a.quest = some q → q.step? a.step = some s →
        a.progress.get? a.step = some p → s.objectives ≠ [] →
        (Rules.offer met.amount? s.objectives p).1.isSatisfied s = true →
        ∃ name, playerKey name = playerKey username
          ∧ (∃ actions, .stepCompleted name a.quest s.id ((q.nextStep? s.id).map (·.id)) actions
            ∈ (e.run c op).news)
          ∧ (q.nextStep? s.id = none →
            (∃ count, .completed name a.quest count q.rewards ∈ (e.run c op).news)
            ∧ ∀ c' j', ((e.run c op).engine.store.fetch c' username).result = .ok j' →
              j'.isActive a.quest = false) := by
  intro e
  have hnew := Engine.runInvariant_new catalog hempty limit
  have hsettled : e.RunInvariant catalog := hnew.after hvalid hkeep
  have hall : ∀ key, (e.store.place key).All (·.Unfinished catalog) := fun key =>
    Engine.after_unfinished hvalid hnew
      (Engine.all_new QuestLog.Unfinished.blank catalog hempty limit key) hkeep
  refine ⟨fun key j hj => (Store.all_of_holds (hall key) hj).journal, ?_⟩
  intro c op username j met hreached hmet a ha q s p hq hs hp hne hsatisfied
  obtain ⟨hcatalog, hsound, -, -⟩ := hsettled
  obtain ⟨name, hname, hleft, hended⟩ := Engine.run_leaves hsound
    (hcatalog.symm ▸ (hall (playerKey username)).log) hreached (hcatalog.symm ▸ hmet) ha
    (hcatalog.symm ▸ hq) hs hp hne hsatisfied
  refine ⟨name, hname, hleft, fun hend => ?_⟩
  obtain ⟨hinactive, hcompleted⟩ := hended hend
  refine ⟨hcompleted, fun c' j' hfound => ?_⟩
  show (j'.log.thread a.quest).current.isSome = false
  rw [Engine.fetch_result_eq_opened hfound, Store.log_opened, hinactive]
  rfl

/-- The second of two rats: the step is left for the next one. -/
theorem unfinished_held_ratHunt :
    let e := (Engine.new (Catalog.ofQuests [ratHunt]) MemoryRepository.empty 5000).after
      (ratHuntTurns.take 5)
    let op := Operation.ingest "ann" (.npcDeath "rat")
    let j := e.store.opened (.calm .epoch) "ann"
    let a := j.active.head (by decide +kernel)
    let s := ratHunt.steps.head (by decide)
    (Catalog.ofQuests [ratHunt]).Valid ∧ TableRepository.records MemoryRepository.empty = ∅
      ∧ (∀ t ∈ ratHuntTurns.take 5, t.Keeps (Catalog.ofQuests [ratHunt]))
      ∧ e.store.Holds "ann" j ∧ j.Unfinished (Catalog.ofQuests [ratHunt])
      ∧ e.reached? "ann" (.perform (.calm .epoch) op) = some j ∧ a ∈ j.active
      ∧ ∃ name, playerKey name = "ann"
        ∧ (∃ actions, .stepCompleted name a.quest s.id ((ratHunt.nextStep? s.id).map (·.id)) actions
          ∈ (e.run (.calm .epoch) op).news) := by
  intro e op j a s
  have hkeep : ∀ t ∈ ratHuntTurns.take 5, t.Keeps (Catalog.ofQuests [ratHunt]) := by
    simp [ratHuntTurns, Turn.Keeps]
  have hheld : e.store.Holds "ann" j := Or.inr (by decide +kernel)
  have hreached : e.reached? (playerKey "ann") (.perform (.calm .epoch) op) = some j := by
    decide +kernel
  obtain ⟨hunfinished, hleaves⟩ := unfinished_held (Catalog.ofQuests [ratHunt]) valid_ratHunt
    MemoryRepository.empty rfl 5000 (ratHuntTurns.take 5) hkeep
  obtain ⟨name, hname, hleft, -⟩ := hleaves (.calm .epoch) op "ann" j
    (.event EventName.npcDeath (GameEvent.npcDeath "rat").payload) hreached (by rfl) a
    (List.head_mem _) ratHunt s _ (by decide +kernel) (by decide +kernel) (by rfl) (by decide)
    (by decide +kernel)
  exact ⟨valid_ratHunt, rfl, hkeep, hheld, hunfinished "ann" j hheld, hreached, List.head_mem _,
    name, hname, hleft⟩

end Questline
