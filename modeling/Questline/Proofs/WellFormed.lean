import Questline.Proofs.Edit
import Questline.Proofs.Holdings
import Questline.Proofs.Tally

/-!
# Well-formed journals

Whatever is asked of an engine that started over an empty repository, whichever catalogs are
put in place on the way and whatever fails, every journal that it holds, in use or stored, is
well formed (`wellFormed_held`): no quest is active twice, no two completions are about one
quest, the current step of every active quest is recorded and not completed, and every counter
of every step is between nothing and its target, complete exactly at the target.

The proof goes by transitions of one quest: a transition preserves the soundness of all counters of
its thread (`QuestTransition.sound`), and it either publishes no completion and changes no count, or
it publishes one and counts one more (`QuestTransition.completions`). That no two completions are
about one quest is a property of the history as a whole, which the edits of a journal preserve
(`Journal.Edited.completions_nodup`).
-/

namespace Questline

/-! ## Counters -/

namespace Counter

/-- The target is at least one, the current count at most the target, and the counter is complete
exactly when the two are equal. -/
structure Sound (c : Counter) : Prop where
  one_le_target : 1 ≤ c.target
  current_le : c.current ≤ c.target
  completed_iff : c.completed = true ↔ c.current = c.target

theorem sound_fresh (required : UInt32) : (fresh required).Sound where
  one_le_target := Objective.one_le_max_one required
  current_le := by
    rw [UInt32.le_iff_toNat_le]
    exact Nat.zero_le _
  completed_iff := by
    have htarget : 1 ≤ (max required 1).toNat :=
      UInt32.le_iff_toNat_le.mp (Objective.one_le_max_one required)
    refine ⟨fun h => (by cases h), fun h => ?_⟩
    have hzero : (0 : UInt32).toNat = (max required 1).toNat := congrArg UInt32.toNat h
    rw [← hzero] at htarget
    exact absurd htarget (by decide)

/-- Settling completes a counter exactly when its target is reached. -/
theorem sound_settle {c : Counter} (htarget : 1 ≤ c.target) (hle : c.current ≤ c.target)
    (hopen : c.completed = false) : (settle c).1.Sound := by
  unfold settle
  split
  · rename_i hreached
    exact ⟨htarget, hle, fun _ => UInt32.le_antisymm hle hreached, fun _ => rfl⟩
  · rename_i hshort
    refine ⟨htarget, hle, fun h => absurd (hopen.symm.trans h) Bool.false_ne_true, fun heq => ?_⟩
    have hreached : c.target ≤ c.current := by
      rw [show c.current = c.target from heq]
      exact UInt32.le_refl _
    exact absurd hreached hshort

theorem raised_le (c : Counter) (n : UInt32) : c.raised n ≤ c.target := by
  unfold raised
  split
  · exact UInt32.le_refl _
  · rename_i hshort
    have hlt := c.target.toNat_lt
    rw [UInt32.le_iff_toNat_le, UInt32.toNat_add]
    omega

theorem sound_apply {c : Counter} (h : c.Sound) (amount : Amount) : (c.apply amount).1.Sound := by
  cases hcompleted : c.completed with
  | true =>
      have hsame : (c.apply amount).1 = c := by
        cases amount <;> simp only [apply, observe, hcompleted, if_true]
      rw [hsame]
      exact h
  | false =>
      cases amount with
      | increment n =>
          simp only [apply, add, hcompleted, Bool.false_eq_true, if_false]
          exact sound_settle (c := { c with current := c.raised n, completed := false })
            h.one_le_target (c.raised_le n) rfl
      | observed n =>
          simp only [apply, observe, hcompleted, Bool.false_eq_true, if_false]
          split
          · exact h
          · have hle : min n c.target ≤ c.target := by
              rw [UInt32.le_iff_toNat_le, toNat_min]
              omega
            exact sound_settle (c := { c with current := min n c.target, completed := false })
              h.one_le_target hle rfl

end Counter

/-! ## Steps and activations -/

/-- Every counter of a step is sound. -/
def StepProgress.Sound (p : StepProgress) : Prop :=
  ∀ objective c, p.counters.get? objective = some c → c.Sound

/-- Every counter of every step is sound. -/
def Activation.Sound (a : Activation) : Prop := ∀ step p, a.progress.get? step = some p → p.Sound

namespace StepProgress

theorem sound_start (s : Step) (now : Instant) : (start s now).Sound := by
  intro objective c hc
  unfold start at hc
  rw [Dict.get?_ofList] at hc
  obtain ⟨o, -, ho⟩ := List.mem_map.mp (List.mem_reverse.mp (mem_of_findValue? hc))
  cases ho
  exact Counter.sound_fresh _

theorem Sound.counter {p : StepProgress} (h : p.Sound) (objective : String) (required : UInt32) :
    (p.counter objective required).Sound := by
  unfold StepProgress.counter
  cases hc : p.counters.get? objective with
  | none => exact Counter.sound_fresh required
  | some c => exact h objective c hc

theorem Sound.setCounter {p : StepProgress} (h : p.Sound) (objective : String) {c : Counter}
    (hc : c.Sound) : (p.setCounter objective c).Sound := by
  intro other d hd
  simp only [StepProgress.setCounter, Dict.get?_insert] at hd
  split at hd
  · cases hd
    exact hc
  · exact h other d hd

/-- Offering amounts moves sound counters to sound ones. -/
theorem Sound.offer {p : StepProgress} (h : p.Sound) (amount? : Objective → Option Amount)
    (objectives : List Objective) : (Rules.offer amount? objectives p).1.Sound := by
  induction objectives generalizing p with
  | nil => exact h
  | cons o rest ih =>
      rw [Rules.offer_cons]
      cases amount? o with
      | none => exact ih h
      | some amount =>
          have hc := Counter.sound_apply (h.counter o.id o.requiredCount) amount
          exact ih (h.setCounter o.id hc)

end StepProgress

namespace Activation.Sound

variable {a : Activation}

theorem insert (h : a.Sound) (step : String) {p : StepProgress} (hp : p.Sound) :
    ∀ other d, (a.progress.insert step p).get? other = some d → d.Sound := by
  intro other d hd
  rw [Dict.get?_insert] at hd
  split at hd
  · cases hd
    exact hp
  · exact h other d hd

theorem start (q : Quest) (s : Step) (now : Instant) : (Activation.start q s now).Sound := by
  intro step p hp
  simp only [Activation.start, Dict.get?_insert] at hp
  split at hp
  · cases hp
    exact StepProgress.sound_start s now
  · cases hp

theorem enter (h : a.Sound) (s : Step) (now : Instant) : (a.enter s now).Sound :=
  h.insert s.id (StepProgress.sound_start s now)

theorem setCurrentProgress (h : a.Sound) {p : StepProgress} (hp : p.Sound) :
    (a.setCurrentProgress p).Sound := h.insert a.step hp

theorem currentProgress (h : a.Sound) (s : Step) (now : Instant) :
    (a.currentProgress s now).Sound := by
  unfold Activation.currentProgress
  cases hp : a.progress.get? a.step with
  | none => exact StepProgress.sound_start s now
  | some p => exact h a.step p hp

theorem branch (h : a.Sound) (q : Quest) (target : Step) (origin username : String)
    (now : Instant) : (Rules.branch q target origin username now a).1.Sound := by
  simp only [Rules.branch]
  split
  · exact h.enter target now
  · rename_i s _
    have hp := h.currentProgress s now
    split
    · have hleft := h.setCurrentProgress (p := (a.currentProgress s now).complete now) hp
      exact hleft.enter target now
    · exact (h.setCurrentProgress hp).enter target now

end Activation.Sound

/-! ## Transitions of a quest -/

section Moves

variable {c : Catalog} {username : String} {now : Instant} {quest : String} {t t' : Thread}
  {news : List Notification}

/-- Every counter of the activation, if there is one, is sound. -/
def Thread.Sound (t : Thread) : Prop := ∀ a, t.current = some a → a.Sound

theorem Thread.sound_of_inactive (count : Option UInt32) : Thread.Sound ⟨none, count⟩ :=
  fun _ h => by cases h

theorem Thread.sound_some {a : Activation} (h : a.Sound) (count : Option UInt32) :
    Thread.Sound ⟨some a, count⟩ := by
  intro b hb
  cases hb
  exact h

theorem Offering.sound {amount? : Objective → Option Amount} {a : Activation}
    (o : Offering c amount? quest a) (h : a.Sound) : o.after.Sound := by
  have hafter := StepProgress.Sound.offer (h a.step o.before o.recorded) amount? o.s.objectives
  rw [o.offered] at hafter
  exact hafter

theorem QuestStride.sound {amount? : Objective → Option Amount}
    (h : QuestStride c username now quest amount? t news t') (ht : t.Sound) : t'.Sound := by
  cases h with
  | idle => exact ht
  | update o => exact Thread.sound_some ((ht _ rfl).setCurrentProgress (o.sound (ht _ rfl))) _
  | @advance a count o _ next =>
      have hleft := (ht a rfl).setCurrentProgress (p := o.after.complete now) (o.sound (ht a rfl))
      exact Thread.sound_some (hleft.enter next now) _
  | complete => exact Thread.sound_of_inactive _

theorem QuestTransition.sound {stimulus? : Option Stimulus} {target? : Option Step}
    (h : QuestTransition c username now quest stimulus? target? t news t') (ht : t.Sound) :
    t'.Sound := by
  cases h with
  | stay => exact ht
  | @start q s => exact Thread.sound_some (Activation.Sound.start q s now) _
  | abandon => exact Thread.sound_of_inactive _
  | complete => exact Thread.sound_of_inactive _
  | fail => exact Thread.sound_of_inactive _
  | @setVariable a count key value =>
      have hsame : (a.setVariable key value).Sound := ht a rfl
      exact Thread.sound_some hsame _
  | meet hstride => exact hstride.sound ht
  | @branch q target a =>
      exact Thread.sound_some ((ht a rfl).branch q target a.step username now) _
  | @talk _ q target a b _ _ _ _ _ hstride =>
      have hb := hstride.sound ht b rfl
      exact Thread.sound_some (hb.branch q target a.step username now) _

/-! ## Completions -/

namespace Notification

/-- Whether a quest was completed. -/
def isCompletion : Notification → Bool
  | completed _ _ _ _ => true
  | _ => false

/-- Whether the player of a lower-cased name completed a quest. -/
def isCompletionOf (key quest : String) (n : Notification) : Bool :=
  n.isCompletion && n.isAbout key quest

end Notification

/-- The count of a thread and the completions that are published about it: either neither changes,
or the count goes up by one, one completion is published and the quest is not active afterwards. -/
inductive Thread.Completes (t : Thread) (news : List Notification) (t' : Thread) : Prop
  | same (hcount : t'.count = t.count) (hnews : news.countP (·.isCompletion) = 0)
  | increased (hactive : t.current.isSome) (hafter : t' = ⟨none, some (t.count.getD 0 + 1)⟩)
      (hnews : news.countP (·.isCompletion) = 1)

theorem Offering.completions_counterNews {amount? : Objective → Option Amount} {a : Activation}
    (o : Offering c amount? quest a) : (o.counterNews username).countP (·.isCompletion) = 0 := by
  rw [List.countP_eq_zero]
  intro n hn
  obtain ⟨m, -, rfl⟩ := List.mem_map.mp hn
  exact Bool.false_ne_true

theorem QuestStride.completions {amount? : Objective → Option Amount}
    (h : QuestStride c username now quest amount? t news t') : t.Completes news t' := by
  cases h with
  | idle => exact .same rfl rfl
  | update o => exact .same rfl o.completions_counterNews
  | advance o =>
      refine .same rfl ?_
      rw [List.countP_append, o.completions_counterNews]
      rfl
  | complete o =>
      refine .increased rfl rfl ?_
      rw [List.countP_append, o.completions_counterNews]
      rfl

theorem QuestTransition.completions {stimulus? : Option Stimulus} {target? : Option Step}
    (h : QuestTransition c username now quest stimulus? target? t news t') :
    t.Completes news t' := by
  cases h with
  | stay => exact .same rfl rfl
  | start => exact .same rfl rfl
  | abandon => exact .same rfl rfl
  | complete => exact .increased rfl rfl rfl
  | fail => exact .same rfl rfl
  | setVariable => exact .same rfl rfl
  | meet hstride => exact hstride.completions
  | branch => exact .same rfl rfl
  | talk _ _ hstride =>
      rcases hstride.completions with ⟨hcount, hnews⟩ | ⟨-, hafter, -⟩
      · refine .same hcount ?_
        rw [List.countP_append, hnews]
        rfl
      · cases hafter

/-- A recorded count is at least one and at most the number of completions that were published. -/
def Thread.Counted (total : Nat) (t : Thread) : Prop :=
  ∀ count, t.count = some count → ∃ n, 1 ≤ n ∧ n ≤ total ∧ count = UInt32.ofNat n

theorem Thread.Counted.mono {m n : Nat} (h : t.Counted m) (hle : m ≤ n) : t.Counted n := by
  intro count hcount
  obtain ⟨k, hone, hk, heq⟩ := h count hcount
  exact ⟨k, hone, Nat.le_trans hk hle, heq⟩

theorem Thread.Completes.counted {total : Nat} (h : t.Completes news t') (ht : t.Counted total) :
    t'.Counted (total + news.countP (·.isCompletion)) := by
  rcases h with ⟨hcount, -⟩ | ⟨-, hafter, hnews⟩
  · intro count hc
    exact ht.mono (Nat.le_add_right ..) count (hcount ▸ hc)
  · subst hafter
    intro count hc
    rw [hnews]
    cases hc
    cases hbefore : t.count with
    | none => exact ⟨1, Nat.le_refl 1, Nat.le_add_left .., rfl⟩
    | some k =>
        obtain ⟨n, -, hn, rfl⟩ := ht k hbefore
        refine ⟨n + 1, Nat.le_add_left .., Nat.succ_le_succ hn, ?_⟩
        rw [UInt32.ofNat_add]
        rfl

end Moves

/-! ## Quest logs -/

/-- The invariant of every quest log in use or stored, when `total` completions of each quest were
published. -/
structure QuestLog.WellFormed (total : String → Nat) (l : QuestLog) : Prop where
  orderly : l.Orderly
  completions : (l.completed.map (·.quest)).Nodup
  sound : ∀ quest, (l.thread quest).Sound
  counted : ∀ quest, (l.thread quest).Counted (total quest)

namespace QuestLog.WellFormed

theorem blank (total : String → Nat) : QuestLog.blank.WellFormed total where
  orderly := orderly_blank
  completions := List.nodup_nil
  sound _ := Thread.sound_of_inactive none
  counted _ _ h := by cases h

theorem mono {m n : String → Nat} (hle : ∀ quest, m quest ≤ n quest) {l : QuestLog}
    (h : l.WellFormed m) : l.WellFormed n :=
  ⟨h.orderly, h.completions, h.sound, fun quest => (h.counted quest).mono (hle quest)⟩

/-- Every rule preserves it, with the completions of its news added. -/
theorem plan {c : Catalog} {now : Instant} {op : Operation} {username : String}
    {rule : Journal → Ruling Answer} (hplan : op.plan c now = .consult username rule)
    {total : String → Nat} {j : Journal} (h : j.log.WellFormed total) :
    ((rule j).journal j).log.WellFormed fun quest =>
      total quest + ((rule j).news.filter (·.quest = quest)).countP (·.isCompletion) where
  orderly := Operation.orderly_plan hplan h.orderly
  completions := Operation.completions_nodup hplan h.completions
  sound quest := (Operation.transition hplan (h.orderly.at quest)).sound (h.sound quest)
  counted quest :=
    (Operation.transition hplan (h.orderly.at quest)).completions.counted (h.counted quest)

end QuestLog.WellFormed

/-! ## Journals -/

/-- What a journal of a player always is. -/
structure Journal.WellFormed (j : Journal) : Prop where
  active_nodup : (j.active.map (·.quest)).Nodup
  completed_nodup : (j.completed.map (·.quest)).Nodup
  /-- The current step is recorded and not completed. -/
  opened : ∀ a ∈ j.active, ∃ p, a.progress.get? a.step = some p ∧ p.completed = false
  counters : ∀ a ∈ j.active, ∀ step objective c, a.counter? step objective = some c →
    1 ≤ c.target ∧ c.current ≤ c.target ∧ (c.completed = true ↔ c.current = c.target)

theorem QuestLog.WellFormed.journal {total : String → Nat} {j : Journal}
    (h : j.log.WellFormed total) : j.WellFormed where
  active_nodup := h.orderly.distinct
  completed_nodup := h.completions
  opened a ha := h.orderly.opened a.quest a (Journal.activation?_of_mem h.orderly.distinct ha)
  counters a ha step objective c hc := by
    have hsound := h.sound a.quest a (Journal.activation?_of_mem h.orderly.distinct ha)
    obtain ⟨p, hp, hc⟩ := Option.bind_eq_some_iff.mp hc
    obtain ⟨hone, hle, hcompleted⟩ := hsound step p hp objective c hc
    exact ⟨hone, hle, hcompleted⟩

theorem Journal.completion?_of_mem {j : Journal} (h : (j.completed.map (·.quest)).Nodup)
    {d : Completion} (hd : d ∈ j.completed) : j.completion? d.quest = some d :=
  find?_of_nodup h hd

theorem Journal.count_of_mem {j : Journal} (h : (j.completed.map (·.quest)).Nodup)
    {d : Completion} (hd : d ∈ j.completed) : (j.thread d.quest).count = some d.count := by
  show (j.completion? d.quest).map (·.count) = some d.count
  rw [completion?_of_mem h hd]
  rfl

/-! ## Runs -/

variable {ρ : Type} [Repository ρ] [TableRepository ρ]

/-- Of the news of a ruling on the journal of a player, what is about a quest of that player
is what is about the quest. -/
theorem Operation.countP_news {c : Catalog} {now : Instant} {op : Operation} {username : String}
    {rule : Journal → Ruling Answer} (h : op.plan c now = .consult username rule) (j : Journal)
    (quest : String) :
    (rule j).news.countP (·.isCompletionOf (playerKey username) quest)
      = ((rule j).news.filter (·.quest = quest)).countP (·.isCompletion) := by
  rw [List.countP_filter]
  refine List.countP_congr fun n hn => ?_
  have hname := (Operation.faithful h j).named n hn
  simp only [Notification.isCompletionOf, Notification.isAbout, hname, decide_true, Bool.true_and]

namespace Engine

/-- A turn preserves well-formedness, wherever a journal is held. -/
theorem take_wellFormed {e : Engine ρ} (hs : e.store.Sound) {key : String}
    {total : String → Nat} (h : (e.store.place key).All (·.WellFormed total)) (t : Turn) :
    ((e.take t).engine.store.place key).All (·.WellFormed fun quest =>
      total quest + (e.take t).news.countP (·.isCompletionOf key quest)) := by
  refine take_all hs t h (fun l hl => hl.mono fun _ => Nat.le_add_right ..) ?_
  rintro c op username rule j - hplan rfl hj hnews
  have hafter := QuestLog.WellFormed.plan hplan (j := j) (hj ▸ h.log)
  simp only [hnews, Operation.countP_news hplan]
  exact hafter

theorem after_wellFormed {e : Engine ρ} (hs : e.store.Sound) {key : String}
    {total : String → Nat} (h : (e.store.place key).All (·.WellFormed total))
    (turns : List Turn) :
    ((e.after turns).store.place key).All (·.WellFormed fun quest =>
      total quest + (e.published turns).countP (·.isCompletionOf key quest)) := by
  induction turns generalizing e total with
  | nil => exact h
  | cons t turns ih =>
      have hlater := ih (take_sound hs t) (take_wellFormed hs h t)
      simp only [published, List.countP_append, ← Nat.add_assoc]
      exact hlater

end Engine

/-- **Every journal is well formed.** In a run over an empty repository, whatever is asked,
whichever catalogs are put in place and whatever fails, so is every journal in use and every
stored one, and the quests in its history have been completed, as long as they were not so
often that the count overflows. -/
theorem wellFormed_held (catalog : Catalog) (repository : ρ)
    (hempty : TableRepository.records repository = ∅) (limit : Nat) (turns : List Turn)
    (key : String) (j : Journal)
    (hheld : ((Engine.new catalog repository limit).after turns).store.Holds key j) :
    j.WellFormed ∧ ∀ d ∈ j.completed,
      ((Engine.new catalog repository limit).published turns).countP
        (·.isCompletionOf key d.quest) < UInt32.size → 1 ≤ d.count := by
  have hs := Engine.sound_new catalog hempty limit
  have hnew := Engine.all_new (QuestLog.WellFormed.blank fun _ => 0) catalog hempty limit key
  have hlog := Store.all_of_holds (Engine.after_wellFormed hs hnew turns) hheld
  refine ⟨hlog.journal, fun d hd hfew => ?_⟩
  have hcount := Journal.count_of_mem hlog.completions hd
  obtain ⟨n, hone, hn, hd⟩ := hlog.counted d.quest d.count hcount
  simp only [Nat.zero_add] at hn
  -- so few completions were published that the count has not wrapped around
  have hcount' : (UInt32.ofNat n).toNat = n :=
    UInt32.toNat_ofNat_of_lt (Nat.lt_of_le_of_lt hn hfew)
  rw [hd, UInt32.le_iff_toNat_le, hcount']
  exact hone

/-- A hunt that was completed while no catalog knew it, and is on again by force. -/
theorem wellFormed_held_ratHunt :
    let e := Engine.new (Catalog.ofQuests [ratHunt]) MemoryRepository.empty 5000
    let turns := ratHuntTurns ++ [.reload ∅, .perform (.calm .epoch) (.complete "ann" "rats"),
      .reload (Catalog.ofQuests [ratHunt]),
      .perform unsaved (.start (.named "ann" 1) "rats" true (some "tell"))]
    let j := (e.after turns).store.opened (.calm .epoch) "ann"
    TableRepository.records MemoryRepository.empty = ∅
      ∧ (e.after turns).store.Holds "ann" j
      ∧ j.isActive "rats" = true ∧ j.completionCount "rats" = 1
      ∧ j.WellFormed ∧ ∀ d ∈ j.completed,
        (e.published turns).countP (·.isCompletionOf "ann" d.quest) < UInt32.size →
          1 ≤ d.count := by
  intro e turns j
  have hheld : (e.after turns).store.Holds "ann" j := Or.inl ⟨true, by decide +kernel⟩
  exact ⟨rfl, hheld, by decide +kernel, by decide +kernel,
    wellFormed_held (Catalog.ofQuests [ratHunt]) MemoryRepository.empty rfl 5000 turns "ann" j
      hheld⟩

end Questline
