import Questline.Proofs.Choosing
import Questline.Proofs.Walk

/-!
# Validation and navigation of quests

`Quest.defect?` looks for a missing step, a repeated step id and a branch to no step, and finds
nothing exactly if there is none of them. The navigation functions rest on that
(`navigation_exact`): `Quest.step?` finds a step by its id, `Quest.nextStep?` is the next in the
list, the walk from the first step is the list, and the target of a dialogue option is always a
step. `Rules.choose` then branches unless the talk has ended the quest.
-/

namespace Questline

namespace Quest

variable {q : Quest}

/-- The branch targets of a step are the targets of the options of its dialogues. -/
theorem mem_branchTargets {s : Step} {target : String} :
    target ∈ s.branchTargets ↔ ∃ npc d, s.dialogues.get? npc = some d
      ∧ ∃ o ∈ d.choices, o.advanceTo = some target := by
  simp only [Step.branchTargets, Dict.values, List.mem_flatMap, List.mem_map, List.mem_filterMap]
  constructor
  · rintro ⟨d, ⟨⟨npc, d'⟩, hentry, rfl⟩, ho⟩
    exact ⟨npc, d', Dict.findValue?_of_mem s.dialogues.sorted hentry, ho⟩
  · rintro ⟨npc, d, hd, ho⟩
    exact ⟨d, ⟨(npc, d), mem_of_findValue? hd, rfl⟩, ho⟩

/-- The step after `k` times `Quest.nextStep?` from the first one. -/
def walk (q : Quest) : Nat → Option Step
  | 0 => q.firstStep?
  | k + 1 => (q.walk k).bind fun s => q.nextStep? s.id

namespace Valid

theorem walk_eq (hq : q.Valid) (k : Nat) : q.walk k = q.steps[k]? := by
  induction k with
  | zero => exact List.head?_eq_getElem?
  | succ k ih =>
    rw [walk, ih]
    cases hs : q.steps[k]? with
    | none =>
      have hend := List.getElem?_eq_none_iff.mp hs
      exact (List.getElem?_eq_none (by omega)).symm
    | some s => exact hq.nextStep?_of_getElem? hs

/-- No step stands at two positions. -/
theorem position_unique (hq : q.Valid) {k l : Nat} {s : Step} (hk : q.steps[k]? = some s)
    (hl : q.steps[l]? = some s) : k = l := by
  have hnodup : q.steps.Nodup := List.Nodup.of_map _ hq.stepIds_nodup
  obtain ⟨hlt, -⟩ := List.getElem?_eq_some_iff.mp hk
  exact (List.getElem?_inj hlt hnodup).mp (hk.trans hl.symm)

/-- A branch target of a step of a valid quest is a step of the quest. -/
theorem step?_of_branchTarget (hq : q.Valid) {s : Step} (hs : s ∈ q.steps) {target : String}
    (htarget : target ∈ s.branchTargets) : ∃ s', q.step? target = some s' ∧ s'.id = target := by
  obtain ⟨s', hs', rfl⟩ := List.mem_map.mp (hq.targets_known s hs target htarget)
  exact ⟨s', hq.step?_of_mem hs', rfl⟩

end Valid

end Quest

/-! ## Picks -/

namespace Rules

variable {c : Catalog} {p : Player} {npc quest option : String} {j : Journal} {q : Quest}
  {origin : String} {picked : Choice}

/-- `Rules.choose` takes the quest to the target of the option, unless the talk has ended it. -/
theorem choose_leads (hq : q.Valid) (now : Instant)
    (h : choice? c p npc quest option j = some (q, origin, picked)) {target : String}
    (htarget : picked.advanceTo = some target) :
    ∃ choosing, (choose c p npc quest option now j).answer = .ok (some choosing)
      ∧ ((talked c p.username npc option now j).journal.isActive quest = true →
        choosing.advancedTo = some target
          ∧ (((choose c p npc quest option now j).journal j).activation? quest).map (·.step)
            = some target)
      ∧ ((talked c p.username npc option now j).journal.isActive quest = false →
        choosing.advancedTo = none) := by
  obtain ⟨s, hs, hbranch⟩ := branchTarget_of_choice? h htarget
  obtain ⟨s', hs', rfl⟩ := hq.step?_of_branchTarget hs hbranch
  simp only [choose, h, htarget, Option.bind_some, hs', talked, Journal.isActive]
  generalize progress c p.username _ now j = t
  cases hb : t.journal.activation? quest with
  | none => exact ⟨_, t.answer_ruling _, fun hactive => (by cases hactive), fun _ => rfl⟩
  | some b =>
    by_cases hthere : b.step = s'.id
    · refine ⟨⟨picked.actions, t.updates, some s'.id⟩, ?_, fun _ => ⟨rfl, ?_⟩,
        fun hgone => (by cases hgone)⟩
      · simp only [if_pos hthere, t.answer_ruling]
      · simp only [if_pos hthere]
        rw [t.journal_ruling, hb]
        exact congrArg some hthere
    · refine ⟨⟨picked.actions, t.updates, some s'.id⟩, ?_, fun _ => ⟨rfl, ?_⟩,
        fun hgone => (by cases hgone)⟩
      · simp only [if_neg hthere, Ruling.answer]
      · have hquest := quest_branch q s' origin p.username now b
        have hmoved := Journal.activation?_update (j := t.journal)
          (a := (branch q s' origin p.username now b).1) (b := b)
          (by rw [hquest, Journal.quest_of_activation? hb, hb])
        rw [hquest, Journal.quest_of_activation? hb] at hmoved
        simp only [if_neg hthere, Ruling.journal, hmoved, Option.map_some, step_branch]

end Rules

/-- **The check of a quest is exact, and the way through the quest follows from it.** Nothing is
found wrong with a quest exactly if it has a step, its step ids are distinct, and every option of
every dialogue of every step that leads anywhere leads to one of its steps. Then the step at each
position is the one that its id finds, and the one after it is the next in the list, or none
exactly at the last; the walk from the first step comes to each step once, in order, and ends; and
a dialogue option always finds the step that it leads to, so that a pick leads the quest there
unless the talk has ended it. -/
theorem navigation_exact (q : Quest) :
    (q.defect? = none ↔ q.steps ≠ [] ∧ q.steps.Pairwise (fun s s' => s.id ≠ s'.id)
      ∧ ∀ s ∈ q.steps, ∀ npc d, s.dialogues.get? npc = some d → ∀ o ∈ d.choices, ∀ target,
        o.advanceTo = some target → ∃ s' ∈ q.steps, s'.id = target)
    ∧ (q.defect? = none →
      (∀ k s, q.steps[k]? = some s → q.step? s.id = some s ∧ q.nextStep? s.id = q.steps[k + 1]?
        ∧ (q.nextStep? s.id = none ↔ k + 1 = q.steps.length))
      ∧ ((∀ k, q.walk k = q.steps[k]?) ∧ (∀ k, q.walk k = none ↔ q.steps.length ≤ k)
        ∧ ∀ s ∈ q.steps, ∃ k, q.walk k = some s ∧ ∀ l, q.walk l = some s → l = k)
      ∧ (∀ s ∈ q.steps, ∀ npc d, s.dialogues.get? npc = some d → ∀ o ∈ d.choices, ∀ target,
        o.advanceTo = some target → ∃ s', q.step? target = some s' ∧ s'.id = target)
      ∧ ∀ c p npc quest option now j origin picked target,
        Rules.choice? c p npc quest option j = some (q, origin, picked) →
        picked.advanceTo = some target →
        let chosen := Rules.choose c p npc quest option now j
        let after := (Rules.talked c p.username npc option now j).journal
        ∃ choosing, chosen.answer = .ok (some choosing)
          ∧ (after.isActive quest = true → choosing.advancedTo = some target
            ∧ ((chosen.journal j).activation? quest).map (·.step) = some target)
          ∧ (after.isActive quest = false → choosing.advancedTo = none)) := by
  refine ⟨?_, fun hdefect => ?_⟩
  · rw [Quest.defect?_eq_none_iff]
    constructor
    · refine fun hq => ⟨hq.steps_ne_nil, List.pairwise_map.mp hq.stepIds_nodup,
        fun s hs npc d hd o ho target htarget => ?_⟩
      exact List.mem_map.mp (hq.targets_known s hs target
        (Quest.mem_branchTargets.mpr ⟨npc, d, hd, o, ho, htarget⟩))
    · rintro ⟨hsteps, hids, htargets⟩
      refine ⟨hsteps, List.pairwise_map.mpr hids, fun s hs target htarget => ?_⟩
      obtain ⟨npc, d, hd, o, ho, htarget⟩ := Quest.mem_branchTargets.mp htarget
      exact List.mem_map.mpr (htargets s hs npc d hd o ho target htarget)
  · have hq := Quest.defect?_eq_none_iff.mp hdefect
    refine ⟨fun k s hs => ?_, ⟨hq.walk_eq, fun k => ?_, fun s hs => ?_⟩,
      fun s hs npc d hd o ho target htarget => ?_,
      fun c p npc quest option now j origin picked target h htarget =>
        Rules.choose_leads hq now h htarget⟩
    · obtain ⟨hlt, -⟩ := List.getElem?_eq_some_iff.mp hs
      have hnext := hq.nextStep?_of_getElem? hs
      refine ⟨hq.step?_of_mem (List.mem_of_getElem? hs), hnext, ?_⟩
      rw [hnext, List.getElem?_eq_none_iff]
      omega
    · rw [hq.walk_eq, List.getElem?_eq_none_iff]
    · obtain ⟨k, hk⟩ := List.mem_iff_getElem?.mp hs
      refine ⟨k, (hq.walk_eq k).trans hk, fun l hl => ?_⟩
      exact hq.position_unique ((hq.walk_eq l).symm.trans hl) hk
    · exact hq.step?_of_branchTarget hs (Quest.mem_branchTargets.mpr ⟨npc, d, hd, o, ho, htarget⟩)

/-- Cat stands before the guard of the vault. -/
def vaultVisit : Journal :=
  { Journal.empty "cat" .epoch with
    active := [.start vault (vault.steps.head (by decide)) .epoch] }

/-- The password leads from the first step of the vault to the last, past the one between. -/
theorem navigation_exact_vault :
    vault.defect? = none ∧ vault.walk 1 = vault.steps[1]? ∧ vault.walk 3 = none
      ∧ ∃ picked choosing,
        Rules.choice? (Catalog.ofQuests [vault]) (.named "cat" 1) "guard" "vault" "password"
          vaultVisit = some (vault, "ask", picked)
        ∧ picked.advanceTo = some "enter"
        ∧ (Rules.choose (Catalog.ofQuests [vault]) (.named "cat" 1) "guard" "vault" "password"
          .epoch vaultVisit).answer = .ok (some choosing)
        ∧ choosing.advancedTo = some "enter" := by
  have hdefect : vault.defect? = none := by decide
  obtain ⟨-, ⟨hwalk, hend, -⟩, -, hpick⟩ := (navigation_exact vault).2 hdefect
  obtain ⟨picked, hchoice, htarget⟩ : ∃ picked,
      Rules.choice? (Catalog.ofQuests [vault]) (.named "cat" 1) "guard" "vault" "password"
        vaultVisit = some (vault, "ask", picked) ∧ picked.advanceTo = some "enter" :=
    ⟨_, rfl, rfl⟩
  obtain ⟨choosing, hanswer, hleads, -⟩ := hpick _ _ _ _ _ .epoch _ _ _ _ hchoice htarget
  exact ⟨hdefect, hwalk 1, (hend 3).mpr (by decide), picked, choosing, hchoice, htarget, hanswer,
    (hleads rfl).1⟩

end Questline
