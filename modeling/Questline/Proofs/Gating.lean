import Questline.Proofs.WellFormed

/-!
# When a quest can be started

A start that is not forced goes by `Quest.Startable`: the quest is not active, every
prerequisite is met, and a quest that was completed before is repeatable and its cooldown is
over. The check reports the first thing that is wrong, and nothing exactly if all is well
(`Rules.refusal?_eq_none_iff`). A forced start skips all that, but not that the quest must not
be active.

Over a whole run (`starts_gated`) this means that a quest that is not repeatable and is never
started by force is completed at most once: once it is, it cannot become active again.
-/

namespace Questline

/-! ## Requirements -/

structure Requirements.Met (r : Requirements) (p : Player) : Prop where
  minLevel : ∀ n, r.minLevel = some n → n ≤ p.level
  maxLevel : ∀ n, r.maxLevel = some n → p.level ≤ n
  className : ∀ name, r.className = some name → isNamed p.className name = true
  race : ∀ name, r.race = some name → isNamed p.race name = true
  questFlags : ∀ f ∈ r.questFlags, p.questFlags.contains f = true
  flags : ∀ f ∈ r.flags, p.flags.contains f = true

/-- The requirements are met, and the history holds the quests it must and none it must not. -/
structure Prerequisites.Met (r : Prerequisites) (p : Player) (j : Journal) : Prop where
  shared : r.toRequirements.Met p
  completed : ∀ quest ∈ r.questsCompleted, j.isCompleted quest = true
  notCompleted : ∀ quest ∈ r.questsNotCompleted, j.isCompleted quest = false

section Gates

variable {p : Player}

theorem Requirements.shortfall?_eq_none_iff {r : Requirements} :
    r.shortfall? p = .none ↔ r.Met p := by
  unfold Requirements.shortfall?
  simp only [Option.or_eq_none_iff, Option.bind_eq_none_iff, Option.map_eq_none_iff,
    List.find?_eq_none, Bool.not_eq_true', Bool.not_eq_false, ite_eq_right_iff, ite_eq_left_iff,
    reduceCtorEq, imp_false, Decidable.not_not, UInt32.not_lt, and_assoc]
  constructor
  · rintro ⟨hmin, hmax, hclass, hrace, hquestFlags, hflags⟩
    exact ⟨hmin, hmax, hclass, hrace, hquestFlags, hflags⟩
  · rintro ⟨hmin, hmax, hclass, hrace, hquestFlags, hflags⟩
    exact ⟨hmin, hmax, hclass, hrace, hquestFlags, hflags⟩

theorem Prerequisites.shortfall?_eq_none_iff {r : Prerequisites} {j : Journal} :
    r.shortfall? p j = .none ↔ r.Met p j := by
  unfold Prerequisites.shortfall?
  simp only [Option.or_eq_none_iff, Option.map_eq_none_iff, List.find?_eq_none,
    Requirements.shortfall?_eq_none_iff, Bool.not_eq_true', Bool.not_eq_false, Bool.not_eq_true,
    and_assoc]
  constructor
  · rintro ⟨hshared, hcompleted, hnot⟩
    exact ⟨hshared, hcompleted, hnot⟩
  · rintro ⟨hshared, hcompleted, hnot⟩
    exact ⟨hshared, hcompleted, hnot⟩

end Gates

/-! ## The check -/

/-- The conditions of a start that is not forced. -/
structure Quest.Startable (q : Quest) (p : Player) (now : Instant) (j : Journal) : Prop where
  inactive : j.isActive q.id = false
  prerequisites : q.prerequisites.Met p j
  repeats : ∀ d, j.completion? q.id = some d → q.repeatable = true
    ∧ ∀ cooldown, q.cooldown = some cooldown →
      cooldown.toInt ≤ now.secondsSince d.completedAt

namespace Rules

variable {q : Quest} {p : Player} {now : Instant} {j : Journal}

theorem cooldownLeft?_eq_none_iff {completedAt : Instant} :
    cooldownLeft? q completedAt now = none
      ↔ ∀ cooldown, q.cooldown = some cooldown →
        cooldown.toInt ≤ now.secondsSince completedAt := by
  unfold cooldownLeft?
  simp only [Option.bind_eq_none_iff, ite_eq_right_iff, reduceCtorEq, imp_false, Int.not_lt]

theorem repeatRefusal?_eq_none_iff {done : Completion} :
    repeatRefusal? q done now = none
      ↔ q.repeatable = true ∧ ∀ cooldown, q.cooldown = some cooldown →
        cooldown.toInt ≤ now.secondsSince done.completedAt := by
  unfold repeatRefusal?
  cases q.repeatable with
  | false => simp
  | true => simp [cooldownLeft?_eq_none_iff]

theorem refusal?_eq_none_iff : refusal? q p now j = none ↔ q.Startable p now j := by
  unfold refusal?
  constructor
  · intro h
    split at h
    · cases h
    · rename_i hinactive
      obtain ⟨hrepeats, hmet⟩ := Option.or_eq_none_iff.mp h
      refine ⟨Bool.eq_false_iff.mpr hinactive, ?_, fun d hd => ?_⟩
      · exact Prerequisites.shortfall?_eq_none_iff.mp (Option.map_eq_none_iff.mp hmet)
      · exact repeatRefusal?_eq_none_iff.mp (Option.bind_eq_none_iff.mp hrepeats d hd)
  · rintro ⟨hinactive, hmet, hrepeats⟩
    rw [hinactive, if_neg Bool.false_ne_true, Option.or_eq_none_iff, Option.map_eq_none_iff]
    refine ⟨Option.bind_eq_none_iff.mpr fun d hd => ?_, ?_⟩
    · exact repeatRefusal?_eq_none_iff.mpr (hrepeats d hd)
    · exact Prerequisites.shortfall?_eq_none_iff.mpr hmet

end Rules

/-! ## At most once -/

/-- No completion was published and none is recorded, or one was, one is recorded, and the quest is
not active. -/
inductive Thread.Once : Nat → Thread → Prop
  | never {t : Thread} (hcount : t.count = none) : Once 0 t
  | once {t : Thread} (hcount : t.count = some 1) (hended : t.current = none) : Once 1 t

theorem Thread.Once.le_one {total : Nat} {t : Thread} (h : t.Once total) : total ≤ 1 := by
  cases h with
  | never => exact Nat.zero_le 1
  | once => exact Nat.le_refl 1

/-- `Once` in terms of the journal: not both active and completed, and completed at most once. -/
theorem Thread.Once.journal {j : Journal} {quest : String} {total : Nat}
    (h : (j.log.thread quest).Once total) (hnodup : (j.completed.map (·.quest)).Nodup) :
    (j.isActive quest = true → j.isCompleted quest = false)
      ∧ ∀ d ∈ j.completed, d.quest = quest → d.count ≤ 1 := by
  cases h with
  | never hcount =>
      have hnone : j.completion? quest = none := Option.map_eq_none_iff.mp hcount
      refine ⟨fun _ => ?_, fun d hd hquest => ?_⟩
      · unfold Journal.isCompleted
        rw [hnone]
        rfl
      · have hsome := Journal.completion?_of_mem hnodup hd
        rw [hquest, hnone] at hsome
        cases hsome
  | once hcount hended =>
      refine ⟨fun hactive => ?_, fun d hd hquest => ?_⟩
      · have hcurrent : (j.log.thread quest).current.isSome = true := hactive
        rw [hended] at hcurrent
        cases hcurrent
      · subst hquest
        have hone : d.count = 1 :=
          Option.some.inj ((Journal.count_of_mem hnodup hd).symm.trans hcount)
        rw [hone]
        exact UInt32.le_refl 1

/-- Whether a turn is a forced start of a quest. -/
def Turn.Forces (quest : String) : Turn → Prop
  | perform _ (.start _ id force _) => id = quest ∧ force = true
  | _ => False

/-- A quest that is not repeatable cannot become active once it has been completed. -/
theorem Operation.stays_ended {c : Catalog} {now : Instant} {op : Operation} {username : String}
    {rule : Journal → Ruling Answer} (hplan : op.plan c now = .consult username rule)
    {quest : String} {q : Quest} (hq : c.get? quest = some q) (hrepeat : q.repeatable = false)
    (hunforced : ∀ p step, op ≠ .start p quest true step) {j : Journal} {n : UInt32}
    (hcount : (j.thread quest).count = some n) (hended : (j.thread quest).current = none) :
    (((rule j).journal j).thread quest).current = none := by
  have hbefore : j.isActive quest = false := by
    show (j.thread quest).current.isSome = false
    rw [hended]
    rfl
  rw [← Option.isNone_iff_eq_none, ← Option.isSome_eq_false_iff]
  refine Bool.eq_false_iff.mpr fun hafter => ?_
  obtain ⟨p, force, step, q', rfl, hq', hallowed⟩ :=
    Operation.start_of_active hplan hbefore hafter
  cases hq.symm.trans hq'
  cases force with
  | true => exact hunforced p step rfl
  | false =>
      obtain ⟨d, hd, -⟩ := Option.map_eq_some_iff.mp hcount
      have hdone : j.completion? q.id = some d := Catalog.id_of_get? hq ▸ hd
      have hstartable := Rules.refusal?_eq_none_iff.mp (hallowed rfl)
      obtain ⟨hrepeatable, -⟩ := hstartable.repeats d hdone
      rw [hrepeat] at hrepeatable
      cases hrepeatable

theorem Operation.once {c : Catalog} {now : Instant} {op : Operation} {username : String}
    {rule : Journal → Ruling Answer} (hplan : op.plan c now = .consult username rule)
    {quest : String} {q : Quest} (hq : c.get? quest = some q) (hrepeat : q.repeatable = false)
    (hunforced : ∀ p step, op ≠ .start p quest true step) {j : Journal} (hj : j.log.Orderly)
    {total : Nat} (h : (j.thread quest).Once total) :
    (((rule j).journal j).thread quest).Once
      (total + ((rule j).news.filter (·.quest = quest)).countP (·.isCompletion)) := by
  rcases (Operation.transition hplan (hj.at quest)).completions with
    ⟨hsame, hnews⟩ | ⟨hactive, hafter, hnews⟩
  · rw [hnews]
    cases h with
    | never hcount => exact .never (hsame.trans hcount)
    | once hcount hended =>
        exact .once (hsame.trans hcount)
          (Operation.stays_ended hplan hq hrepeat hunforced hcount hended)
  · rw [hnews]
    cases h with
    | never hcount =>
        rw [hafter, hcount]
        exact .once rfl rfl
    | once _ hended =>
        -- only an active quest is completed
        rw [hended] at hactive
        cases hactive

/-! ## Runs -/

variable {ρ : Type} [Repository ρ] [TableRepository ρ]

namespace Engine

/-- A start that succeeds or publishes anything finds the quest in the catalog and not active, and
unless it is forced, startable. -/
theorem run_start {e : Engine ρ} (hs : e.store.Sound) {c : Circumstances} {p : Player}
    {quest : String} {force : Bool} {step : Option String}
    (h : (∃ a, (e.run c (.start p quest force step)).answer = .ok (.started a))
      ∨ (e.run c (.start p quest force step)).news ≠ []) :
    ∃ q j, e.catalog.get? quest = some q ∧ (e.store.fetch c p.username).result = .ok j
      ∧ j.isActive quest = false ∧ (force = false → q.Startable p c.now j) := by
  -- an outcome without news whose answer is an error is none of a start that did anything
  have hvoid : ∀ {err : EngineError}, (e.run c (.start p quest force step)).news = [] →
      (e.run c (.start p quest force step)).answer = .error err → False := by
    intro err hnews hanswer
    rcases h with ⟨a, hok⟩ | hheard
    · rw [hok] at hanswer
      cases hanswer
    · exact hheard hnews
  cases hq : e.catalog.get? quest with
  | none =>
      have hrun : e.run c (.start p quest force step)
          = ⟨e, [], [], .error (.refused .notFound)⟩ := by
        simp only [run, Operation.plan, hq]
        rfl
      exact absurd (by rw [hrun]) (hvoid (by rw [hrun]))
  | some q =>
      have hplan : (Operation.start p quest force step).plan e.catalog c.now = .consult p.username
          fun j => (Rules.start q p force step c.now j).map .started := by
        simp only [Operation.plan, hq]
      rcases run_cases hs c (.start p quest force step) with
        ⟨hquiet, -, hlost⟩ | ⟨username, rule, hplan', hfetch, hdone⟩
      · obtain ⟨-, fault, -, -, hanswer⟩ := hlost _ _ hplan
        exact (hvoid hquiet.news hanswer).elim
      · cases hplan.symm.trans hplan'
        refine ⟨q, _, rfl, hfetch, ?_⟩
        rcases Rules.start_cases q p force step c.now (e.store.opened c p.username) with
          ⟨refusal, hr⟩ | ⟨s, -, hinactive, hallowed, -⟩
        · have hlook : (Rules.start q p force step c.now (e.store.opened c p.username)).map
              Answer.started = .look (.error refusal) := by
            rw [hr]
            rfl
          have hanswer := answer_of_look hplan hfetch hlook
          have hnews := hdone.news
          simp only [Ruling.news_map, hr] at hnews
          exact (hvoid hnews hanswer).elim
        · exact ⟨Catalog.id_of_get? hq ▸ hinactive,
            fun hforce => Rules.refusal?_eq_none_iff.mp (hallowed hforce)⟩

variable {quest : String} {q : Quest}

theorem take_once {e : Engine ρ} (hs : e.store.Sound) (ho : e.Orderly)
    (hq : e.catalog.get? quest = some q) (hrepeat : q.repeatable = false) {t : Turn}
    (hunforced : ¬ t.Forces quest) {key : String} {total : Nat}
    (h : ((e.store.place key).log.thread quest).Once total) :
    (((e.take t).engine.store.place key).log.thread quest).Once
      (total + (e.take t).news.countP (·.isCompletionOf key quest)) := by
  rcases take_cases hs t key with ⟨hlog, hnews, -⟩
    | ⟨c, op, username, rule, j, rfl, hplan, rfl, -, hj, hlog, hnews⟩
  · have hnone : (e.take t).news.countP (·.isCompletionOf key quest) = 0 := by
      rw [List.countP_eq_zero]
      intro n hn hcompletion
      have habout := (Bool.and_eq_true_iff.mp hcompletion).2
      exact hnews n hn (of_decide_eq_true (Bool.and_eq_true_iff.mp habout).1)
    rw [hlog, hnone]
    exact h
  · have hop : ∀ p step, op ≠ .start p quest true step := by
      rintro p step rfl
      exact hunforced ⟨rfl, rfl⟩
    have hbefore : (j.thread quest).Once total := by
      unfold Journal.thread
      rw [hj]
      exact h
    rw [hlog, hnews, Operation.countP_news hplan]
    exact Operation.once hplan hq hrepeat hop (hj ▸ ho _) hbefore

theorem after_once {catalog : Catalog} (hq : catalog.get? quest = some q)
    (hrepeat : q.repeatable = false) {e : Engine ρ} (hcatalog : e.catalog = catalog)
    (hs : e.store.Sound) (ho : e.Orderly) {key : String} {total : Nat}
    (h : ((e.store.place key).log.thread quest).Once total)
    (hall : (e.store.place key).All fun l => ∃ n, (l.thread quest).Once n) {turns : List Turn}
    (hkeep : ∀ t ∈ turns, t.Keeps catalog) (hunforced : ∀ t ∈ turns, ¬ t.Forces quest) :
    (((e.after turns).store.place key).log.thread quest).Once
        (total + (e.published turns).countP (·.isCompletionOf key quest))
      ∧ ((e.after turns).store.place key).All fun l => ∃ n, (l.thread quest).Once n := by
  induction turns generalizing e total with
  | nil => exact ⟨h, hall⟩
  | cons t turns ih =>
      subst hcatalog
      have htaken := take_once hs ho hq hrepeat (hunforced t List.mem_cons_self) h
      have hallTaken := take_all_of_log hs t hall (fun _ hl => hl) ⟨_, htaken⟩
      simp only [published, List.countP_append, ← Nat.add_assoc]
      exact ih (take_catalog hs (hkeep t List.mem_cons_self)) (take_sound hs t)
        (take_orderly hs ho t) htaken hallTaken
        (fun t' ht' => hkeep t' (List.mem_cons_of_mem _ ht'))
        fun t' ht' => hunforced t' (List.mem_cons_of_mem _ ht')

end Engine

/-- **Starts are gated.** In a run over an empty repository under one catalog, whatever the
clock shows and whatever fails: a start that does anything finds its quest not active, and unless
it is forced, the prerequisites are met and a completed quest is repeatable and no longer on
cooldown; no quest is ever active twice; and a quest that is not repeatable and was not started by
force is never both active and completed, and its completion is counted and published at most once
for each player. -/
theorem starts_gated (catalog : Catalog) (repository : ρ)
    (hempty : TableRepository.records repository = ∅) (limit : Nat) (turns : List Turn)
    (hkeep : ∀ t ∈ turns, t.Keeps catalog) :
    let e := (Engine.new catalog repository limit).after turns
    (∀ c p quest force step,
      (∃ a, (e.run c (.start p quest force step)).answer = .ok (.started a))
        ∨ (e.run c (.start p quest force step)).news ≠ [] →
      ∃ q j, catalog.get? quest = some q ∧ (e.store.fetch c p.username).result = .ok j
        ∧ j.isActive quest = false ∧ (force = false → q.Startable p c.now j))
    ∧ (∀ key j, e.store.Holds key j → (j.active.map (·.quest)).Nodup)
    ∧ ∀ quest q, catalog.get? quest = some q → q.repeatable = false →
      (∀ t ∈ turns, ¬ t.Forces quest) → ∀ key,
        (∀ j, e.store.Holds key j → (j.isActive quest = true → j.isCompleted quest = false)
          ∧ ∀ d ∈ j.completed, d.quest = quest → d.count ≤ 1)
        ∧ ((Engine.new catalog repository limit).published turns).countP
          (·.isCompletionOf key quest) ≤ 1 := by
  intro e
  have hs := Engine.sound_new catalog hempty limit
  have ho := Engine.orderly_new catalog hempty limit
  have hcatalog : e.catalog = catalog := Engine.after_catalog hs hkeep
  have hwell : ∀ key, ((e.store.place key).All (·.WellFormed _)) := fun key =>
    Engine.after_wellFormed hs
      (Engine.all_new (QuestLog.WellFormed.blank fun _ => 0) catalog hempty limit key) turns
  refine ⟨?_, fun key j hj => (Store.all_of_holds (hwell key) hj).orderly.distinct, ?_⟩
  · intro c p quest force step hstarted
    obtain ⟨q, j, hq, hstart⟩ := Engine.run_start (Engine.after_sound hs turns) hstarted
    exact ⟨q, j, hcatalog ▸ hq, hstart⟩
  · intro quest q hq hrepeat hunforced key
    have hblank : (QuestLog.blank.thread quest).Once 0 := .never rfl
    have hlog : ((((Engine.new catalog repository limit).store.place key).log).thread quest).Once
        0 := by
      rw [Engine.log_new hempty]
      exact hblank
    obtain ⟨honce, hall⟩ := Engine.after_once hq hrepeat rfl hs ho hlog
      (Engine.all_new ⟨0, hblank⟩ catalog hempty limit key) hkeep hunforced
    refine ⟨fun j hj => ?_, ?_⟩
    · -- a record can be older than the journal in use, so it has a number of its own
      obtain ⟨n, hn⟩ := Store.all_of_holds hall hj
      exact hn.journal (Store.all_of_holds (hwell key) hj).completions
    · rw [Nat.zero_add] at honce
      exact honce.le_one

/-- A hunt for players of some experience who have hunted no dragons, and only once. -/
def trophyHunt : Quest :=
  { ratHunt with
    repeatable := false
    prerequisites :=
      { Prerequisites.none with minLevel := some 3, questsNotCompleted := ["dragons"] } }

/-- The hunt is started and completed, and only by force can it be started again. -/
theorem starts_gated_trophyHunt :
    let catalog := Catalog.ofQuests [trophyHunt]
    let e := Engine.new catalog MemoryRepository.empty 5000
    let p := Player.named "Ann" 5
    let turns := [Turn.perform unsaved (.start p "rats" false none),
      .perform (.calm .epoch) (.complete "ann" "rats"),
      .perform (.calm .epoch) (.start p "rats" false none)]
    let j := (e.after turns).store.opened (.calm .epoch) "ann"
    TableRepository.records MemoryRepository.empty = ∅
      ∧ (∀ t ∈ turns, t.Keeps catalog) ∧ (∀ t ∈ turns, ¬ t.Forces "rats")
      ∧ (∃ q i, catalog.get? "rats" = some q
        ∧ (e.store.fetch unsaved p.username).result = .ok i ∧ q.Startable p unsaved.now i)
      ∧ (e.after turns).store.Holds "ann" j ∧ j.isCompleted "rats" = true
      ∧ j.isActive "rats" = false ∧ (∀ d ∈ j.completed, d.quest = "rats" → d.count ≤ 1)
      ∧ (e.published turns).countP (·.isCompletionOf "ann" "rats") = 1
      ∧ ∃ q i, catalog.get? "rats" = some q
        ∧ ((e.after turns).store.fetch (.calm .epoch) p.username).result = .ok i
        ∧ i.isActive "rats" = false := by
  intro catalog e p turns j
  have hkeep : ∀ t ∈ turns, t.Keeps catalog := by simp [turns, Turn.Keeps]
  have hunforced : ∀ t ∈ turns, ¬ t.Forces "rats" := by simp [turns, Turn.Forces]
  have hheld : (e.after turns).store.Holds "ann" j := Or.inr (by decide +kernel)
  have hrepeat : trophyHunt.repeatable = false := by rfl
  obtain ⟨hfirst, -, -⟩ := starts_gated catalog MemoryRepository.empty rfl 5000 [] (by simp)
  obtain ⟨hagain, -, honce⟩ := starts_gated catalog MemoryRepository.empty rfl 5000 turns hkeep
  have hallowed : (e.run unsaved (.start p "rats" false none)).news ≠ [] := by decide +kernel
  have hforced : ((e.after turns).run (.calm .epoch) (.start p "rats" true none)).news ≠ [] := by
    decide +kernel
  obtain ⟨q, i, hq, hi, -, hstartable⟩ := hfirst unsaved p "rats" false none (Or.inr hallowed)
  obtain ⟨q', i', hq', hi', hinactive, -⟩ :=
    hagain (.calm .epoch) p "rats" true none (Or.inr hforced)
  obtain ⟨hheldOnce, -⟩ := honce "rats" trophyHunt (by decide +kernel) hrepeat hunforced "ann"
  obtain ⟨-, hcount⟩ := hheldOnce j hheld
  exact ⟨rfl, hkeep, hunforced, ⟨q, i, hq, hi, hstartable rfl⟩, hheld, by decide +kernel,
    by decide +kernel, hcount, by decide +kernel, q', i', hq', hi', hinactive⟩

end Questline
