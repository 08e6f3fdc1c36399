import Mathlib.Data.List.Forall2
import Questline.Proofs.Portions
import Questline.Proofs.Walk

/-!
# Updates and notifications agree

`Rules.progress` returns updates for the caller and news for the listeners, and a host may act on
either. `Rules.StrideMatches` says when an update and a segment of the news carry the same
information: which objectives have moved, whether the step is completed and what follows it, and
whether the quest is completed and what it pays.

A `Rules.stride` with an update publishes one such segment (`Rules.strideMatches_stride`), and one
without an update publishes nothing (`Rules.stride_silent`). So the updates of all quests and the
news fall into pairs, one for each quest that has moved (`Rules.paired_progress`).
-/

namespace Questline

/-! ## Which objectives have been completed -/

namespace Counter

theorem settle_completed {c : Counter} (h : c.completed = false) :
    c.settle.1.completed = c.settle.2 := by
  unfold settle
  split
  · rfl
  · exact h

/-- A counter that moves is complete afterwards exactly if it has just been completed. -/
theorem apply_completed (c : Counter) (amount : Amount) (h : (c.apply amount).2.1 = true) :
    (c.apply amount).1.completed = (c.apply amount).2.2 := by
  cases hcompleted : c.completed with
  | true =>
      -- a counter that is complete does not move
      cases amount with
      | increment n => simp [apply, hcompleted] at h
      | observed n => simp [apply, observe, hcompleted] at h
  | false =>
      cases amount with
      | increment n =>
          simp only [apply, add, hcompleted, Bool.false_eq_true, if_false]
          exact settle_completed rfl
      | observed n =>
          simp only [apply, observe, hcompleted, Bool.false_eq_true, if_false] at h ⊢
          split
          · rename_i hreached
            rw [if_pos hreached] at h
            cases h
          · exact settle_completed rfl

end Counter

namespace Rules

/-- Some objective has just been completed exactly if one that moved is complete. -/
theorem offer_completed (amount? : Objective → Option Amount) (objectives : List Objective)
    (p : StepProgress) :
    (offer amount? objectives p).2.2 = (offer amount? objectives p).2.1.any (·.completed) := by
  induction objectives generalizing p with
  | nil => rfl
  | cons o rest ih =>
      simp only [offer]
      split
      · exact ih p
      · rename_i amount _
        have hcompleted := (p.counter o.id o.requiredCount).apply_completed amount
        split
        · rename_i hchanged
          rw [List.any_cons, ih, hcompleted hchanged]
        · exact ih _

/-! ## One quest -/

/-- An update of a quest on its step at position `k` and the news of the stride carry the same
information. -/
structure StrideMatches (q : Quest) (k : Nat) (s : Step) (username : String) (count : UInt32)
    (u : Update) (news : List Notification) : Prop where
  step : u.step = s.id
  news : news = u.objectives.map (Notification.objectiveUpdated username u.quest u.step)
    ++ (if u.stepCompleted then
        [.stepCompleted username u.quest u.step u.nextStep (leavingActions s q.steps[k + 1]?)]
      else [])
    ++ (if u.questCompleted then [.completed username u.quest count u.rewards] else [])
  moved : u.objectives ≠ []
  objectiveCompleted : u.objectiveCompleted = true ↔ ∃ m ∈ u.objectives, m.completed = true
  stepCompleted : u.stepCompleted = true → u.objectiveCompleted = true
  nextStep : ∀ id, u.nextStep = some id ↔ u.stepCompleted = true ∧ q.stepIds[k + 1]? = some id
  questCompleted : u.questCompleted = true ↔ u.stepCompleted = true ∧ k + 1 = q.steps.length
  rewards : u.rewards = if u.questCompleted then q.rewards else none

section Strides

variable {q : Quest} {k : Nat} {s : Step}

theorem lt_length_of_getElem? (hs : q.steps[k]? = some s) : k < q.steps.length :=
  (List.getElem?_eq_some_iff.mp hs).1

/-- The update and the news of `Rules.stride` agree. -/
theorem strideMatches_stride (hq : q.Valid) (hs : q.steps[k]? = some s) (username : String)
    (count : UInt32) (amount? : Objective → Option Amount) (now : Instant) (a : Activation)
    {u : Update} (hu : (stride q s username count amount? now a).update = some u) :
    StrideMatches q k s username count u (stride q s username count amount? now a).news := by
  have hnext := hq.nextStep?_of_getElem? hs
  have hlt := lt_length_of_getElem? hs
  cases hopen : (a.currentProgress s now).completed with
  | true =>
      simp only [stride, hopen, if_true] at hu
      cases hu
  | false =>
      rcases hoffer : offer amount? s.objectives (a.currentProgress s now) with
        ⟨p, moved, anyCompleted⟩
      have hcompleted := offer_completed amount? s.objectives (a.currentProgress s now)
      simp only [hoffer] at hcompleted
      have hany : anyCompleted = true ↔ ∃ m ∈ moved, m.completed = true := by
        rw [hcompleted, List.any_eq_true]
      simp only [stride, hopen, hoffer, Bool.false_eq_true, if_false] at hu ⊢
      cases moved with
      | nil => cases hu
      | cons m rest =>
          cases hdone : anyCompleted && p.isSatisfied s with
          | false =>
              rw [hdone] at hu
              cases hu
              refine ⟨rfl, ?_, List.cons_ne_nil _ _, hany, fun h => ?_, fun id => ?_, ?_, rfl⟩
              · simp
              · cases h
              · simp
              · simp
          | true =>
              have hstep : anyCompleted = true := (Bool.and_eq_true_iff.mp hdone).1
              rw [hdone] at hu
              rw [hnext] at hu ⊢
              cases hafter : q.steps[k + 1]? with
              | some t =>
                  have hmore : k + 1 < q.steps.length := lt_length_of_getElem? hafter
                  rw [hafter] at hu
                  cases hu
                  refine ⟨rfl, ?_, List.cons_ne_nil _ _, hany, fun _ => hstep, fun id => ?_, ?_,
                    rfl⟩
                  · simp [hafter]
                  · simp [Quest.stepIds, hafter]
                  · simp
                    omega
              | none =>
                  have hlast : q.steps.length ≤ k + 1 := List.getElem?_eq_none_iff.mp hafter
                  rw [hafter] at hu
                  cases hu
                  refine ⟨rfl, ?_, List.cons_ne_nil _ _, hany, fun _ => hstep, fun id => ?_, ?_,
                    rfl⟩
                  · simp [hafter]
                  · simp [Quest.stepIds, hafter]
                  · simp
                    omega

end Strides

/-! ## All quests -/

/-- An update and a segment of the news agree about a quest that is active in a journal. -/
def UpdateMatches (c : Catalog) (username : String) (j : Journal) (u : Update)
    (news : List Notification) : Prop :=
  ∃ q a k s, c.get? u.quest = some q ∧ j.activation? u.quest = some a ∧ q.steps[k]? = some s
    ∧ a.step = s.id ∧ StrideMatches q k s username (nextCount u.quest j) u news

variable {c : Catalog} {j : Journal}

/-- The portion of a quest has one update, which agrees with its news, or neither update nor news.
-/
theorem paired_portion (hc : c.Valid) (hd : j.log.Distinct) (username : String)
    (amount? : Objective → Option Amount) (now : Instant) (quest : String) :
    let portion := (progress c username amount? now j).portion quest
    (portion.updates = [] ∧ portion.news = [])
      ∨ ∃ u, portion.updates = [u] ∧ u.quest = quest
        ∧ UpdateMatches c username j u portion.news := by
  intro portion
  have hportion : portion = _ :=
    portion_progress c username amount? now (QuestLog.distinct_iff.mp hd quest)
  rw [hportion]
  cases hstride : (j.thread quest).stride? c username amount? now quest with
  | none =>
      rw [Portion.offered_of_none hstride]
      exact Or.inl ⟨rfl, rfl⟩
  | some r =>
      rw [Portion.offered_of_some hstride]
      obtain ⟨⟨q, a, s⟩, hposition, rfl⟩ := Option.map_eq_some_iff.mp hstride
      obtain ⟨hq, ha, hs⟩ := Thread.position?_eq_some.mp hposition
      have hquest : a.quest = quest := Journal.quest_of_activation? ha
      obtain ⟨k, hk⟩ := List.getElem?_of_mem (List.mem_of_find?_eq_some hs)
      cases hu : (stride q s username ((j.thread quest).count.getD 0 + 1) amount? now
          a).update with
      | none =>
          refine Or.inl ⟨?_, stride_silent _ _ _ _ _ _ _ hu⟩
          simp only [Portion.ofStride, hu, Option.toList_none]
      | some u =>
          have hsame : u.quest = quest := (quest_of_update hu).trans hquest
          refine Or.inr ⟨u, ?_, hsame, q, a, k, s, hsame ▸ hq, hsame ▸ ha, hk, ?_, ?_⟩
          · simp only [Portion.ofStride, hu, Option.toList_some]
          · exact (Quest.id_of_step? hs).symm
          · have hmatches := strideMatches_stride (hc _ _ hq) hk username
              ((j.thread quest).count.getD 0 + 1)
              amount? now a hu
            rw [hsame]
            exact hmatches

/-- Two `flatMap`s over one list are paired if their parts are pairs or both empty. -/
theorem forall₂_flatMap {α β γ : Type} {R : β → List γ → Prop} {f : α → List β}
    {g : α → List γ} {l : List α}
    (h : ∀ a ∈ l, f a = [] ∧ g a = [] ∨ ∃ b, f a = [b] ∧ R b (g a)) :
    ∃ segments, l.flatMap g = segments.flatten ∧ List.Forall₂ R (l.flatMap f) segments := by
  induction l with
  | nil => exact ⟨[], rfl, .nil⟩
  | cons a rest ih =>
      obtain ⟨segments, hflatten, hpairs⟩ := ih fun b hb => h b (List.mem_cons_of_mem _ hb)
      simp only [List.flatMap_cons, hflatten]
      rcases h a List.mem_cons_self with ⟨hf, hg⟩ | ⟨b, hf, hb⟩
      · rw [hf, hg]
        exact ⟨segments, rfl, hpairs⟩
      · rw [hf]
        exact ⟨g a :: segments, rfl, .cons hb hpairs⟩

/-- If every part of a `flatMap` is empty or one value under the key of its element, the keys of the
values are a sublist of those of the elements. -/
theorem sublist_map_flatMap {α β : Type} {key : α → String} {key' : β → String} {f : α → List β}
    {l : List α} (h : ∀ a ∈ l, f a = [] ∨ ∃ b, f a = [b] ∧ key' b = key a) :
    ((l.flatMap f).map key').Sublist (l.map key) := by
  induction l with
  | nil => exact List.Sublist.refl _
  | cons a rest ih =>
      have hrest := ih fun b hb => h b (List.mem_cons_of_mem _ hb)
      rcases h a List.mem_cons_self with hf | ⟨b, hf, hb⟩
      · rw [List.flatMap_cons, hf]
        exact hrest.cons _
      · rw [List.flatMap_cons, hf, List.map_append, List.map_singleton, hb]
        exact hrest.cons_cons _

theorem paired_progress (hc : c.Valid) (hd : j.log.Distinct) (username : String)
    (amount? : Objective → Option Amount) (now : Instant) :
    let t := progress c username amount? now j
    (∃ segments, t.news = segments.flatten
        ∧ List.Forall₂ (UpdateMatches c username j) t.updates segments)
      ∧ (t.updates.map (·.quest)).Nodup := by
  intro t
  obtain ⟨hupdates, hnews⟩ := outputs_progress c username amount? now hd
  have hpaired := paired_portion hc hd username amount? now
  have hpairs : ∃ segments,
      j.active.flatMap (fun a => (t.portion a.quest).news) = segments.flatten
        ∧ List.Forall₂ (UpdateMatches c username j)
          (j.active.flatMap fun a => (t.portion a.quest).updates) segments := by
    refine forall₂_flatMap fun a _ => (hpaired a.quest).imp_right ?_
    rintro ⟨u, hu, -, hmatch⟩
    exact ⟨u, hu, hmatch⟩
  have hkeys : ((j.active.flatMap fun a => (t.portion a.quest).updates).map (·.quest)).Sublist
      (j.active.map (·.quest)) := by
    refine sublist_map_flatMap fun a _ => (hpaired a.quest).imp And.left ?_
    rintro ⟨u, hu, hquest, -⟩
    exact ⟨u, hu, hquest⟩
  rw [← hupdates] at hpairs hkeys
  rw [← hnews] at hpairs
  exact ⟨hpairs, hkeys.nodup hd⟩

end Rules

/-- **Updates and news agree.** Under a catalog of valid quests, in a journal where no quest is
active twice, an event and a poll answer a list of updates and publish the segments of news that
agree with them, one for one and in order (`Rules.UpdateMatches`); and no quest has two updates. -/
theorem told_alike {c : Catalog} (hc : c.Valid) {j : Journal}
    (hdistinct : (j.active.map (·.quest)).Nodup) (username : String) (now : Instant)
    (r : Ruling (List Update))
    (hr : (∃ event payload, r = Rules.report c username event payload now j)
      ∨ ∃ p : Player, p.username = username ∧ r = Rules.poll c p now j) :
    ∃ updates segments, r.answer = .ok updates ∧ r.news = segments.flatten
      ∧ List.Forall₂ (Rules.UpdateMatches c username j) updates segments
      ∧ (updates.map (·.quest)).Nodup := by
  obtain ⟨amount?, rfl⟩ : ∃ amount?, r = (Rules.progress c username amount? now j).ruling
      (Rules.progress c username amount? now j).updates := by
    rcases hr with ⟨event, payload, rfl⟩ | ⟨p, rfl, rfl⟩
    · exact ⟨Objective.eventAmount? event payload, rfl⟩
    · exact ⟨Objective.polledAmount? p, rfl⟩
  obtain ⟨⟨segments, hnews, hpairs⟩, hnodup⟩ :=
    Rules.paired_progress hc hdistinct username amount? now
  refine ⟨_, segments, Rules.Transition.answer_ruling _ _, ?_, hpairs, hnodup⟩
  rw [Rules.news_ruling_progress, hnews]

/-- The second rat completes the step, in the update as in the news. -/
theorem told_alike_ratHunt :
    let catalog := Catalog.ofQuests [ratHunt]
    let death := GameEvent.npcDeath "rat"
    let kill := Rules.report catalog "Ann" death.name death.payload .epoch
    let blank := Journal.empty "Ann" .epoch
    let started := (Rules.start ratHunt (.named "Ann" 1) false none .epoch blank).journal blank
    let j := (kill started).journal started
    let u : Update :=
      ⟨"rats", "cull", [⟨"kills", 2, 2, true⟩], true, true, some "tell", false, none⟩
    catalog.Valid ∧ (j.active.map (·.quest)).Nodup ∧ (kill j).answer = .ok [u]
      ∧ Rules.UpdateMatches catalog "Ann" j u (kill j).news := by
  intro catalog death kill blank started j u
  have hactive : (j.active.map (·.quest)).Nodup := by decide +kernel
  have hanswer : (kill j).answer = .ok [u] := by decide +kernel
  obtain ⟨updates, segments, hupdates, hnews, hpairs, -⟩ :=
    told_alike valid_ratHunt hactive "Ann" .epoch (kill j) (Or.inl ⟨_, _, rfl⟩)
  obtain rfl : updates = [u] := Except.ok.inj (hupdates.symm.trans hanswer)
  obtain ⟨news, rest, hmatch, hrest, rfl⟩ := List.forall₂_cons_left_iff.mp hpairs
  rw [List.forall₂_nil_left_iff.mp hrest, List.flatten_singleton] at hnews
  exact ⟨valid_ratHunt, hactive, hanswer, hnews ▸ hmatch⟩

end Questline
