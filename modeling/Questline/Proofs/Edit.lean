import Mathlib.Logic.Relation
import Questline.Proofs.QuestTransition

/-!
# What a rule can do to a journal

A rule that does not start a quest makes a number of *edits* (`Journal.Edit`): it updates the
activation of an active quest, deactivates it, finishes it or records a failure. `Rules.start` adds
an activation and does nothing else, and only of a quest that is not active and that `refusal?` has
nothing against, unless it is forced. `Operation.edited` says that these are all.

What every edit preserves, every rule preserves. No edit makes a quest active, so a quest
becomes active by a start only (`Operation.start_of_active`).
-/

namespace Questline

namespace Journal

/-- A change of a journal, other than the start of a quest. -/
inductive Edit : Journal → Journal → Prop
  | update (j : Journal) (a : Activation) : Edit j (j.update a)
  | deactivate (j : Journal) (quest : String) : Edit j (j.deactivate quest)
  | finish (j : Journal) (quest : String) (now : Instant) : Edit j (Rules.finish quest now j)
  | fail (j : Journal) (quest : String) (reason : Option String) (now : Instant) :
      Edit j ((j.deactivate quest).recordFailure quest reason now)

/-- A sequence of edits. -/
abbrev Edited : Journal → Journal → Prop := Relation.ReflTransGen Edit

theorem isActive_eq_false_iff {j : Journal} {quest : String} :
    j.isActive quest = false ↔ ∀ a ∈ j.active, a.quest ≠ quest := by
  unfold isActive activation?
  rw [Option.isSome_eq_false_iff, Option.isNone_iff_eq_none, List.find?_eq_none]
  simp only [decide_eq_true_eq]

/-- No edit adds a quest to the active ones. -/
theorem Edit.quest_mem {j i : Journal} (h : Edit j i) {a : Activation} (ha : a ∈ i.active) :
    a.quest ∈ j.active.map (·.quest) := by
  have herase : ∀ quest, a ∈ j.active.eraseP (·.quest = quest) →
      a.quest ∈ j.active.map (·.quest) := by
    intro quest hmem
    exact List.mem_map.mpr ⟨a, List.mem_of_mem_eraseP hmem, rfl⟩
  cases h with
  | update b =>
      rw [← map_quest_replaceFirst b j.active]
      exact List.mem_map.mpr ⟨a, ha, rfl⟩
  | deactivate quest => exact herase quest ha
  | finish quest now => exact herase quest ha
  | fail quest reason now => exact herase quest ha

theorem Edited.inactive {j i : Journal} (h : Edited j i) {quest : String}
    (hj : j.isActive quest = false) : i.isActive quest = false := by
  induction h with
  | refl => exact hj
  | tail _ hedit ih =>
      rw [isActive_eq_false_iff] at ih ⊢
      intro a ha heq
      obtain ⟨b, hb, hquest⟩ := List.mem_map.mp (hedit.quest_mem ha)
      exact ih b hb (hquest.trans heq)

theorem Edited.keeps_single {j i : Journal} (h : Edited j i) {quest : String}
    (hj : j.log.Single quest) : i.log.Single quest := by
  induction h with
  | refl => exact hj
  | tail _ hedit ih =>
      cases hedit with
      | update a => exact single_update ih a
      | deactivate other => exact single_deactivate ih other
      | finish other now => exact single_finish ih other now
      | fail other reason now => exact single_deactivate ih other

/-- A completion is counted in the entry of its quest, or makes one. -/
theorem completions_countCompletion (quest : String) (now : Instant) (l : List Completion) :
    (countCompletion quest now l).map (·.quest)
      = if quest ∈ l.map (·.quest) then l.map (·.quest) else l.map (·.quest) ++ [quest] := by
  induction l with
  | nil => rfl
  | cons d rest ih =>
      by_cases hd : d.quest = quest
      · simp [countCompletion, hd]
      · have hne : ¬ quest = d.quest := fun h => hd h.symm
        simp only [countCompletion, hd, if_false, List.map_cons, ih, List.mem_cons, hne, false_or]
        split <;> rfl

theorem nodup_countCompletion {quest : String} {now : Instant} {l : List Completion}
    (h : (l.map (·.quest)).Nodup) : ((countCompletion quest now l).map (·.quest)).Nodup := by
  rw [completions_countCompletion]
  split
  · exact h
  · rename_i hnew
    refine List.nodup_append.mpr ⟨h, List.pairwise_singleton _ _, fun x hx y hy hxy => ?_⟩
    rw [List.mem_singleton.mp hy] at hxy
    exact hnew (hxy ▸ hx)

/-- No two entries of the history of completions are about one quest. -/
theorem Edited.completions_nodup {j i : Journal} (h : Edited j i)
    (hj : (j.completed.map (·.quest)).Nodup) : (i.completed.map (·.quest)).Nodup := by
  induction h with
  | refl => exact hj
  | tail _ hedit ih =>
      cases hedit with
      | update => exact ih
      | deactivate => exact ih
      | finish quest now => exact nodup_countCompletion ih
      | fail => exact ih

end Journal

open Journal (Edit Edited)

/-! ## Every rule -/

namespace Rules

theorem edited_advanceQuest (c : Catalog) (username : String)
    (amount? : Objective → Option Amount) (now : Instant) (j : Journal) (quest : String) :
    Edited j (advanceQuest c username amount? now j quest).journal := by
  rw [advanceQuest_eq]
  split
  · exact .refl
  · rename_i r _
    cases r.finished with
    | true => exact .single (.finish j quest now)
    | false => exact .single (.update j r.activation)

theorem edited_progress (c : Catalog) (username : String) (amount? : Objective → Option Amount)
    (now : Instant) (j : Journal) :
    Edited j (progress c username amount? now j).journal := by
  unfold progress
  generalize j.active.map (·.quest) = quests
  induction quests generalizing j with
  | nil => exact .refl
  | cons quest rest ih =>
      exact (edited_advanceQuest c username amount? now j quest).trans (ih _)

theorem edited_choose (c : Catalog) (p : Player) (npc quest option : String) (now : Instant)
    (j : Journal) : Edited j ((choose c p npc quest option now j).journal j) := by
  cases hchoice : choice? c p npc quest option j with
  | none =>
      simp only [choose, hchoice]
      exact .refl
  | some r =>
      obtain ⟨q, origin, picked⟩ := r
      have htalk := edited_progress c p.username (Objective.eventAmount? (talk npc option).name
        (talk npc option).payload) now j
      rcases choose_cases now hchoice with ⟨-, answer, hr⟩ | ⟨target, b, answer, -, -, -, hr⟩
      · rw [hr, Transition.journal_ruling]
        exact htalk
      · rw [hr]
        exact htalk.tail (.update _ _)

theorem edited_abandon (username quest : String) (j : Journal) :
    Edited j ((abandon username quest j).journal j) := by
  rw [abandon]
  split
  · exact .single (.deactivate j quest)
  · exact .refl

theorem edited_complete (username quest : String) (rewards : Option Rewards) (now : Instant)
    (j : Journal) : Edited j ((complete username quest rewards now j).journal j) := by
  rw [complete]
  split
  · exact .single (.finish j quest now)
  · exact .refl

theorem edited_fail (username quest : String) (reason : Option String) (now : Instant)
    (j : Journal) : Edited j ((fail username quest reason now j).journal j) := by
  rw [fail]
  split
  · exact .single (.fail j quest reason now)
  · exact .refl

theorem edited_setVariable (quest key : String) (value : Value) (j : Journal) :
    Edited j ((setVariable quest key value j).journal j) := by
  rw [setVariable]
  split
  · exact .single (.update j _)
  · exact .refl

theorem edited_advanceTo (q : Quest) (target : Step) (username : String) (now : Instant)
    (j : Journal) : Edited j ((advanceTo q target username now j).journal j) := by
  rw [advanceTo]
  split
  · exact .refl
  · exact .single (.update j _)

theorem edited_report (c : Catalog) (username event : String) (payload : Payload) (now : Instant)
    (j : Journal) : Edited j ((report c username event payload now j).journal j) := by
  rw [report, Transition.journal_ruling]
  exact edited_progress ..

theorem edited_poll (c : Catalog) (p : Player) (now : Instant) (j : Journal) :
    Edited j ((poll c p now j).journal j) := by
  rw [poll, Transition.journal_ruling]
  exact edited_progress ..

/-- A start is refused, or it makes a quest active that was not, and nothing stood against
it unless it was forced. -/
theorem start_cases (q : Quest) (p : Player) (force : Bool) (step : Option String)
    (now : Instant) (j : Journal) :
    (∃ refusal, start q p force step now j = .look (.error refusal))
    ∨ ∃ s, startingStep? q step = some s ∧ j.isActive q.id = false
      ∧ (force = false → refusal? q p now j = none)
      ∧ start q p force step now j = .commit (j.activate (.start q s now))
        [.started p.username q.id s.id s.onStart] (.start q s now) := by
  unfold start
  split
  · rename_i refusal _
    exact Or.inl ⟨refusal, rfl⟩
  · rename_i hrefusal
    split
    · exact Or.inl ⟨.invalidStep, rfl⟩
    · rename_i s hs
      cases hactive : j.isActive q.id with
      | true => exact Or.inl ⟨.alreadyActive, rfl⟩
      | false =>
          refine Or.inr ⟨s, hs, rfl, ?_, rfl⟩
          rintro rfl
          exact hrefusal

end Rules

namespace Operation

/-- **Inversion of an operation, for the journal as a whole.** Its rule makes a sequence of edits,
or starts a quest. -/
theorem edited {c : Catalog} {now : Instant} {op : Operation} {username : String}
    {rule : Journal → Ruling Answer} (h : op.plan c now = .consult username rule) (j : Journal) :
    Edited j ((rule j).journal j)
    ∨ ∃ p quest force step q s, op = .start p quest force step ∧ c.get? quest = some q
      ∧ Rules.startingStep? q step = some s ∧ j.isActive quest = false
      ∧ (force = false → Rules.refusal? q p now j = none)
      ∧ (rule j).journal j = j.activate (.start q s now) := by
  cases consults_of_plan h with
  | @start p quest force step q hq =>
      have hid : q.id = quest := Catalog.id_of_get? hq
      rw [Ruling.journal_map]
      rcases Rules.start_cases q p force step now j with
        ⟨refusal, hr⟩ | ⟨s, hs, hactive, hallowed, hr⟩
      · rw [hr]
        exact Or.inl .refl
      · rw [hr]
        exact Or.inr ⟨p, quest, force, step, q, s, rfl, hq, hs, hid ▸ hactive, hallowed, rfl⟩
  | abandon _ quest =>
      rw [Ruling.journal_map]
      exact Or.inl (Rules.edited_abandon ..)
  | complete _ quest =>
      rw [Ruling.journal_map]
      exact Or.inl (Rules.edited_complete ..)
  | fail _ quest reason =>
      rw [Ruling.journal_map]
      exact Or.inl (Rules.edited_fail ..)
  | report _ event payload =>
      rw [Ruling.journal_map]
      exact Or.inl (Rules.edited_report ..)
  | poll p =>
      rw [Ruling.journal_map]
      exact Or.inl (Rules.edited_poll ..)
  | advanceTo _ quest step hq htarget =>
      rw [Ruling.journal_map]
      exact Or.inl (Rules.edited_advanceTo ..)
  | setVariable _ quest key value =>
      rw [Ruling.journal_map]
      exact Or.inl (Rules.edited_setVariable ..)
  | choose p npc quest option =>
      rw [Ruling.journal_map]
      exact Or.inl (Rules.edited_choose ..)
  | _ => exact Or.inl .refl

/-- A quest becomes active by a start only. -/
theorem start_of_active {c : Catalog} {now : Instant} {op : Operation} {username : String}
    {rule : Journal → Ruling Answer} (h : op.plan c now = .consult username rule) {j : Journal}
    {quest : String} (hbefore : j.isActive quest = false)
    (hafter : ((rule j).journal j).isActive quest = true) :
    ∃ p force step q, op = .start p quest force step ∧ c.get? quest = some q
      ∧ (force = false → Rules.refusal? q p now j = none) := by
  rcases Operation.edited h j with hedited | ⟨p, id, force, step, q, s, hop, hq, -, -, hallowed, hr⟩
  · have hinactive := hedited.inactive hbefore
    rw [hinactive] at hafter
    cases hafter
  · obtain ⟨a, ha⟩ := current_of_isActive hafter
    -- what is active now was active before or is what was started
    have hid : id = quest := by
      have hmem : a ∈ j.active ++ [Activation.start q s now] := by
        rw [hr] at ha
        exact List.mem_of_find?_eq_some ha
      have hquest := Journal.quest_of_activation? ha
      rcases List.mem_append.mp hmem with hold | hnew
      · exact absurd hquest (Journal.isActive_eq_false_iff.mp hbefore a hold)
      · rw [List.mem_singleton.mp hnew] at hquest
        exact (Catalog.id_of_get? hq).symm.trans hquest
    subst hid
    exact ⟨p, force, step, q, hop, hq, hallowed⟩

/-- Every rule keeps a journal orderly at a quest, whatever there is of others. -/
theorem orderlyAt_plan {c : Catalog} {now : Instant} {op : Operation} {username : String}
    {rule : Journal → Ruling Answer} (h : op.plan c now = .consult username rule) {j : Journal}
    {quest : String} (hj : j.log.OrderlyAt quest) :
    ((rule j).journal j).log.OrderlyAt quest where
  single := by
    rcases Operation.edited h j with hedited | ⟨_, id, _, _, q, s, -, hq, -, hinactive, -, hr⟩
    · exact hedited.keeps_single hj.single
    · have hid : q.id = id := Catalog.id_of_get? hq
      rw [hr]
      exact Journal.single_activate hj.single (show j.isActive q.id = false from hid ▸ hinactive)
  opened := (Operation.transition h hj).opened hj.opened

theorem completions_nodup {c : Catalog} {now : Instant} {op : Operation} {username : String}
    {rule : Journal → Ruling Answer} (h : op.plan c now = .consult username rule) {j : Journal}
    (hj : (j.completed.map (·.quest)).Nodup) :
    (((rule j).journal j).completed.map (·.quest)).Nodup := by
  rcases Operation.edited h j with hedited | ⟨_, _, _, _, _, _, -, -, -, -, -, hr⟩
  · exact hedited.completions_nodup hj
  · rw [hr]
    exact hj

end Operation

end Questline
