import Questline.Proofs.QuestTransition

/-!
# The result of `Rules.progress`, quest by quest

`Rules.progress` folds `Rules.advanceQuest` over the active quests, on one journal and into one list
of updates and one list of news. The *portion* of a quest in the result is its new state, its
completions and the updates and the news about it. It is a function of the quest's own state
(`Portion.offered`).

That is because `Rules.advanceQuest` on one quest leaves the portions of the others idle
(`Rules.portion_advanceQuest`). By induction every quest gets its own portion from the whole
(`Rules.portion_progress`), and the whole is the concatenation of the portions, in the order of the
active quests (`Rules.outputs_progress`, `Rules.active_progress`).
-/

namespace Questline

/-- The state of one quest after a transition, with the updates and the news about it. -/
structure Portion where
  activation : Option Activation
  completion : Option Completion
  updates : List Update
  news : List Notification
  deriving DecidableEq, Repr

/-- The portion of one quest in a transition. -/
def Rules.Transition.portion (t : Transition) (quest : String) : Portion :=
  ⟨t.journal.activation? quest, t.journal.completion? quest, t.updates.filter (·.quest = quest),
    t.news.filter (·.quest = quest)⟩

namespace Portion

/-- The portion of a quest that keeps its state and has neither updates nor news. -/
def idle (current : Option Activation) (last : Option Completion) : Portion :=
  ⟨current, last, [], []⟩

/-- The portion of the quest of a stride. -/
def ofStride (quest : String) (now : Instant) (last : Option Completion) (r : Rules.Stride) :
    Portion where
  activation := if r.finished then none else some r.activation
  completion :=
    if r.finished then some ⟨quest, now, (last.map (·.count)).getD 0 + 1⟩ else last
  updates := r.update.toList
  news := r.news

/-- The portion of a quest whose objectives are offered amounts, by its own state alone. -/
def offered (c : Catalog) (username : String) (amount? : Objective → Option Amount)
    (now : Instant) (quest : String) (current : Option Activation) (last : Option Completion) :
    Portion :=
  match Thread.stride? c username amount? now quest ⟨current, last.map (·.count)⟩ with
  | none => idle current last
  | some r => ofStride quest now last r

section Offered

variable {c : Catalog} {username : String} {amount? : Objective → Option Amount} {now : Instant}
  {quest : String}

theorem offered_of_none {j : Journal}
    (h : (j.thread quest).stride? c username amount? now quest = none) :
    offered c username amount? now quest (j.activation? quest) (j.completion? quest)
      = idle (j.activation? quest) (j.completion? quest) := by
  have hstride : Thread.stride? c username amount? now quest
      ⟨j.activation? quest, (j.completion? quest).map (·.count)⟩ = none := h
  simp only [offered, hstride]

theorem offered_of_some {j : Journal} {r : Rules.Stride}
    (h : (j.thread quest).stride? c username amount? now quest = some r) :
    offered c username amount? now quest (j.activation? quest) (j.completion? quest)
      = ofStride quest now (j.completion? quest) r := by
  have hstride : Thread.stride? c username amount? now quest
      ⟨j.activation? quest, (j.completion? quest).map (·.count)⟩ = some r := h
  simp only [offered, hstride]

/-- Only what the catalog has of this quest counts. -/
theorem offered_congr {c' : Catalog} (h : c'.get? quest = c.get? quest)
    (current : Option Activation) (last : Option Completion) :
    offered c' username amount? now quest current last
      = offered c username amount? now quest current last := by
  simp only [offered, Thread.stride?, Thread.position?, h]

end Offered

end Portion

/-! ## Completions -/

namespace Journal

theorem find?_countCompletion_eq (quest : String) (now : Instant) (l : List Completion)
    (x : String) :
    (countCompletion quest now l).find? (·.quest = x)
      = if quest = x then
          some ⟨quest, now, ((l.find? (·.quest = quest)).map (·.count)).getD 0 + 1⟩
        else l.find? (·.quest = x) := by
  induction l with
  | nil =>
      by_cases hx : quest = x
      · simp [countCompletion, hx]
      · simp [countCompletion, hx]
  | cons d rest ih =>
      by_cases hq : d.quest = quest
      · subst hq
        by_cases hx : d.quest = x
        · simp [countCompletion, hx]
        · simp [countCompletion, hx]
      · by_cases hx : d.quest = x
        · subst hx
          have hne : ¬ quest = d.quest := fun h => hq h.symm
          simp [countCompletion, hq, hne]
        · simp only [countCompletion, hq, if_false, List.find?_cons, hx, decide_false]
          exact ih

theorem completion?_finish (quest : String) (now : Instant) (j : Journal) (x : String) :
    (Rules.finish quest now j).completion? x
      = if quest = x then some ⟨quest, now, ((j.completion? quest).map (·.count)).getD 0 + 1⟩
        else j.completion? x :=
  find?_countCompletion_eq quest now j.completed x

end Journal

namespace Rules

/-- The update of `Rules.stride` is about its quest. -/
theorem quest_of_update {q : Quest} {s : Step} {username : String} {count : UInt32}
    {amount? : Objective → Option Amount} {now : Instant} {a : Activation} {u : Update}
    (h : (stride q s username count amount? now a).update = some u) : u.quest = a.quest := by
  simp only [stride] at h
  split at h
  · cases h
  · split at h
    · cases h
    · split at h
      · cases h
        rfl
      · split at h
        · cases h
          rfl
        · cases h
          rfl

variable (c : Catalog) (username : String) (amount? : Objective → Option Amount)
  (now : Instant)

/-! ## One quest after another -/

section Strides

variable {j : Journal}

/-- The stride of a quest in `advanceQuest` is about that quest. -/
theorem about_stride? {quest : String} {r : Stride}
    (h : (j.thread quest).stride? c username amount? now quest = some r) :
    r.activation.quest = quest ∧ (∀ u ∈ r.update.toList, u.quest = quest)
      ∧ ∀ n ∈ r.news, n.quest = quest := by
  obtain ⟨⟨q, a, s⟩, hposition, rfl⟩ := Option.map_eq_some_iff.mp h
  obtain ⟨-, ha, -⟩ := Thread.position?_eq_some.mp hposition
  have hquest : a.quest = quest := Journal.quest_of_activation? ha
  refine ⟨(stride_quest ..).trans hquest, fun u hu => ?_, fun n hn => ?_⟩
  · exact (quest_of_update (Option.mem_toList.mp hu)).trans hquest
  · exact (stride_about _ _ _ _ _ _ _ n hn).2.1.trans hquest

/-- A list that is all about one quest, filtered by a quest. -/
theorem filter_about {α : Type} {key : α → String} {l : List α} {quest : String}
    (h : ∀ a ∈ l, key a = quest) (x : String) :
    l.filter (key · = x) = if quest = x then l else [] := by
  by_cases hx : quest = x
  · rw [if_pos hx]
    exact List.filter_eq_self.mpr fun a ha => decide_eq_true ((h a ha).trans hx)
  · rw [if_neg hx]
    refine List.filter_eq_nil_iff.mpr fun a ha hkey => hx ?_
    exact (h a ha).symm.trans (of_decide_eq_true hkey)

/-- The state of a quest after `advanceQuest` has recorded a stride. -/
theorem activation?_taken {x : String} (h : j.log.Single x) {a b : Activation}
    (ha : j.activation? b.quest = some a) (finished : Bool) :
    (if finished then finish b.quest now j else j.update b).activation? x
      = if b.quest = x then (if finished then none else some b) else j.activation? x := by
  cases finished with
  | true => exact Journal.find?_eraseP b.quest h
  | false =>
      refine (congrArg Thread.current (Journal.thread_update ha x)).trans ?_
      split <;> rfl

/-- The completions of a quest after `advanceQuest` has recorded a stride. -/
theorem completion?_taken (b : Activation) (finished : Bool) (x : String) :
    (if finished then finish b.quest now j else j.update b).completion? x
      = if b.quest = x then
          (if finished then
            some ⟨b.quest, now, ((j.completion? b.quest).map (·.count)).getD 0 + 1⟩
          else j.completion? b.quest)
        else j.completion? x := by
  cases finished with
  | true => exact Journal.completion?_finish b.quest now j x
  | false =>
      by_cases hx : b.quest = x
      · subst hx
        rw [if_pos rfl]
        rfl
      · rw [if_neg hx]
        rfl

/-- `advanceQuest` gives its quest the portion by its own state, and leaves the others idle. -/
theorem portion_advanceQuest {x : String} (h : j.log.Single x) (quest : String) :
    (advanceQuest c username amount? now j quest).portion x
      = if quest = x then
          Portion.offered c username amount? now x (j.activation? x) (j.completion? x)
        else Portion.idle (j.activation? x) (j.completion? x) := by
  rw [advanceQuest_eq]
  cases hstride : (j.thread quest).stride? c username amount? now quest with
  | none =>
      by_cases hx : quest = x
      · subst hx
        rw [if_pos rfl, Portion.offered_of_none hstride]
        rfl
      · rw [if_neg hx]
        rfl
  | some r =>
      obtain ⟨hquest, hupdates, hnews⟩ := about_stride? c username amount? now hstride
      obtain ⟨⟨q, a, s⟩, hposition, -⟩ := Option.map_eq_some_iff.mp hstride
      obtain ⟨-, ha, -⟩ := Thread.position?_eq_some.mp hposition
      subst hquest
      simp only [Transition.portion, activation?_taken now h ha, completion?_taken,
        filter_about hupdates, filter_about hnews]
      by_cases hx : r.activation.quest = x
      · subst hx
        simp only [if_true, Portion.offered_of_some hstride]
        rfl
      · simp only [hx, if_false]
        rfl

/-- `advanceQuest` leaves the recorded state of other quests as it is. -/
theorem recorded_advanceQuest {x quest : String} (h : j.log.Single x) (hx : quest ≠ x) :
    (advanceQuest c username amount? now j quest).journal.activation? x = j.activation? x
      ∧ (advanceQuest c username amount? now j quest).journal.completion? x
        = j.completion? x := by
  have hidle := portion_advanceQuest c username amount? now h quest
  rw [if_neg hx] at hidle
  exact ⟨congrArg Portion.activation hidle, congrArg Portion.completion hidle⟩

/-- `advanceAll` gives each of its quests the portion by the state that it had before. -/
theorem portion_advanceAll {x : String} {quests : List String} (hcount : quests.count x ≤ 1)
    (h : j.log.Single x) :
    (advanceAll c username amount? now quests j).portion x
      = if x ∈ quests then
          Portion.offered c username amount? now x (j.activation? x) (j.completion? x)
        else Portion.idle (j.activation? x) (j.completion? x) := by
  induction quests generalizing j with
  | nil => rfl
  | cons quest rest ih =>
      have hfirst := portion_advanceQuest c username amount? now h quest
      have hrest : rest.count x ≤ 1 := Nat.le_trans List.count_le_count_cons hcount
      have hlater := ih hrest (single_advanceQuest c username amount? now h quest)
      have happend : (advanceAll c username amount? now (quest :: rest) j).portion x
          = let first := (advanceQuest c username amount? now j quest).portion x
            let later := (advanceAll c username amount? now rest
              (advanceQuest c username amount? now j quest).journal).portion x
            ⟨later.activation, later.completion, first.updates ++ later.updates,
              first.news ++ later.news⟩ := by
        simp only [advanceAll, Transition.portion, List.filter_append]
      rw [happend, hlater]
      by_cases hx : quest = x
      · subst hx
        have hquest : quest ∉ rest := List.count_eq_zero.mp (by
          rw [List.count_cons_self] at hcount
          omega)
        rw [if_neg hquest, if_pos List.mem_cons_self]
        rw [if_pos rfl] at hfirst
        rw [← hfirst]
        simp only [Portion.idle, List.append_nil, Transition.portion]
      · have hne : ¬ x = quest := fun h => hx h.symm
        obtain ⟨hactivation, hcompletion⟩ :=
          recorded_advanceQuest c username amount? now h hx
        rw [hfirst, if_neg hx, hactivation, hcompletion]
        simp only [List.mem_cons, hne, false_or, Portion.idle, List.nil_append]

/-- The outputs of `advanceAll` on different quests are those of each, in order. -/
theorem outputs_advanceAll {quests : List String} (hnodup : quests.Nodup)
    (h : ∀ x ∈ quests, j.log.Single x) :
    (advanceAll c username amount? now quests j).updates = quests.flatMap (fun x =>
        (Portion.offered c username amount? now x (j.activation? x) (j.completion? x)).updates)
      ∧ (advanceAll c username amount? now quests j).news = quests.flatMap (fun x =>
        (Portion.offered c username amount? now x (j.activation? x) (j.completion? x)).news) := by
  induction quests generalizing j with
  | nil => exact ⟨rfl, rfl⟩
  | cons quest rest ih =>
      obtain ⟨hquest, hrest⟩ := List.nodup_cons.mp hnodup
      have hsingle : ∀ x ∈ rest, j.log.Single x := fun x hx => h x (List.mem_cons_of_mem _ hx)
      obtain ⟨hupdates, hnews⟩ := ih hrest fun x hx =>
        single_advanceQuest c username amount? now (hsingle x hx) quest
      -- the quests still to come find what was there before this one
      have hsame : ∀ x ∈ rest, Portion.offered c username amount? now x
            ((advanceQuest c username amount? now j quest).journal.activation? x)
            ((advanceQuest c username amount? now j quest).journal.completion? x)
          = Portion.offered c username amount? now x (j.activation? x) (j.completion? x) := by
        intro x hx
        have hne : quest ≠ x := fun heq => hquest (heq ▸ hx)
        obtain ⟨hactivation, hcompletion⟩ :=
          recorded_advanceQuest c username amount? now (hsingle x hx) hne
        rw [hactivation, hcompletion]
      have hfirst : (advanceQuest c username amount? now j quest).updates
            = (Portion.offered c username amount? now quest (j.activation? quest)
              (j.completion? quest)).updates
          ∧ (advanceQuest c username amount? now j quest).news
            = (Portion.offered c username amount? now quest (j.activation? quest)
              (j.completion? quest)).news := by
        rw [advanceQuest_eq]
        cases hstride : (j.thread quest).stride? c username amount? now quest with
        | none =>
            rw [Portion.offered_of_none hstride]
            exact ⟨rfl, rfl⟩
        | some r =>
            rw [Portion.offered_of_some hstride]
            exact ⟨rfl, rfl⟩
      simp only [advanceAll, List.flatMap_cons]
      rw [hupdates, hnews, hfirst.1, hfirst.2]
      exact ⟨congrArg _ (List.flatMap_congr fun x hx => congrArg Portion.updates (hsame x hx)),
        congrArg _ (List.flatMap_congr fun x hx => congrArg Portion.news (hsame x hx))⟩

/-! ## The active quests -/

/-- `advanceQuest` makes no quest active, and keeps the order of the active ones. -/
theorem quests_advanceQuest (j : Journal) (quest : String) :
    ((advanceQuest c username amount? now j quest).journal.active.map (·.quest)).Sublist
      (j.active.map (·.quest)) := by
  rw [advanceQuest_eq]
  split
  · exact List.Sublist.refl _
  · rename_i r _
    cases r.finished with
    | true => exact List.eraseP_sublist.map _
    | false =>
        have hsame : (j.update r.activation).active.map (·.quest) = j.active.map (·.quest) :=
          Journal.map_quest_replaceFirst r.activation j.active
        exact hsame ▸ List.Sublist.refl _

theorem quests_advanceAll (quests : List String) (j : Journal) :
    ((advanceAll c username amount? now quests j).journal.active.map (·.quest)).Sublist
      (j.active.map (·.quest)) := by
  induction quests generalizing j with
  | nil => exact List.Sublist.refl _
  | cons quest rest ih =>
      exact (ih _).trans (quests_advanceQuest c username amount? now j quest)

end Strides

/-- A list whose quests are among different given ones, in their order, is made of what it has
for each of them. -/
theorem eq_filterMap_of_sublist {l : List Activation} {quests : List String}
    (h : (l.map (·.quest)).Sublist quests) (hnodup : quests.Nodup) :
    l = quests.filterMap fun x => l.find? (·.quest = x) := by
  induction quests generalizing l with
  | nil =>
      rw [List.map_eq_nil_iff.mp (List.sublist_nil.mp h)]
      rfl
  | cons quest rest ih =>
      obtain ⟨hquest, hrest⟩ := List.nodup_cons.mp hnodup
      rcases List.sublist_cons_iff.mp h with hlater | ⟨ids, hids, hlater⟩
      · have hnone : l.find? (·.quest = quest) = none := by
          refine List.find?_eq_none.mpr fun a ha hax => hquest (hlater.subset ?_)
          exact List.mem_map.mpr ⟨a, ha, of_decide_eq_true hax⟩
        rw [List.filterMap_cons, hnone]
        exact ih hlater hrest
      · obtain ⟨a, l', rfl, rfl, rfl⟩ := List.map_eq_cons_iff.mp hids
        have hsome : (a :: l').find? (·.quest = a.quest) = some a := by simp
        have hothers : ∀ x ∈ rest, (a :: l').find? (·.quest = x) = l'.find? (·.quest = x) := by
          intro x hx
          have hne : ¬ a.quest = x := fun heq => hquest (heq ▸ hx)
          simp [hne]
        rw [List.filterMap_cons, hsome, List.filterMap_congr hothers]
        exact congrArg _ (ih hlater hrest)

/-! ## All active quests at once -/

variable {j : Journal}

/-- `progress` gives every quest the portion by its own state. -/
theorem portion_progress {x : String} (h : j.log.Single x) :
    (progress c username amount? now j).portion x
      = Portion.offered c username amount? now x (j.activation? x) (j.completion? x) := by
  have hcount : (j.active.map (·.quest)).count x ≤ 1 := j.log.count_active x ▸ h
  refine (portion_advanceAll c username amount? now hcount h).trans ?_
  by_cases hx : x ∈ j.active.map (·.quest)
  · rw [if_pos hx]
  · rw [if_neg hx]
    exact (Portion.offered_of_none (stride?_of_inactive c username amount? now hx)).symm

theorem outputs_progress (hd : j.log.Distinct) :
    let t := progress c username amount? now j
    t.updates = j.active.flatMap (fun a => (t.portion a.quest).updates)
      ∧ t.news = j.active.flatMap (fun a => (t.portion a.quest).news) := by
  obtain ⟨hupdates, hnews⟩ := outputs_advanceAll c username amount? now hd
    fun x _ => QuestLog.distinct_iff.mp hd x
  simp only [portion_progress c username amount? now (QuestLog.distinct_iff.mp hd _)]
  rw [List.flatMap_map] at hupdates hnews
  exact ⟨hupdates, hnews⟩

theorem active_progress (hd : j.log.Distinct) :
    let t := progress c username amount? now j
    t.journal.active = j.active.filterMap fun a => (t.portion a.quest).activation := by
  have hquests := quests_advanceAll c username amount? now (j.active.map (·.quest)) j
  have heach := eq_filterMap_of_sublist hquests hd
  rw [List.filterMap_map] at heach
  exact heach

end Rules

end Questline
