import Questline.Host.Reply
import Questline.Proofs.Gating

/-!
# One verdict on every start

A player can ask whether a quest can be started, can ask for all quests that can be, and can
try. The three go by one verdict, `Rules.verdict?`: the quest is unknown, or it is refused by
the check of `Questline.Rules.Eligibility`, or nothing stands against it.

The check alone does not settle a start, which also looks for the first step and once more for
the quest among the active ones. In a valid quest there is a first step, and the check has already
found that the quest is not active; so neither can fail once the check has passed
(`Rules.start_of_verdict`), and the verdict is the whole truth (`admission_agrees`).
-/

namespace Questline

namespace Catalog

variable {c : Catalog}

theorem mem_quests {q : Quest} : q ∈ c.quests ↔ c.get? q.id = some q := by
  constructor
  · intro h
    obtain ⟨⟨id, r⟩, hentry, rfl⟩ := List.mem_map.mp h
    have hget : c.get? id = some r := Dict.findValue?_of_mem c.table.sorted hentry
    rw [Catalog.id_of_get? hget]
    exact hget
  · intro h
    exact List.mem_map.mpr ⟨(q.id, q), mem_of_findValue? h, rfl⟩

/-- The quests are listed by increasing id, so each is listed once. -/
theorem quests_sorted (c : Catalog) : c.quests.Pairwise fun q r => q.id < r.id := by
  refine List.pairwise_map.mpr (c.table.sorted.imp_of_mem ?_)
  intro a b ha hb hlt
  have hida : a.2.id = a.1 := c.keyed a.1 a.2 (Dict.findValue?_of_mem c.table.sorted ha)
  have hidb : b.2.id = b.1 := c.keyed b.1 b.2 (Dict.findValue?_of_mem c.table.sorted hb)
  rw [hida, hidb]
  exact hlt

end Catalog

namespace Rules

/-- The refusal of a plain start of a quest of the catalog, if there is one. -/
def verdict? (c : Catalog) (p : Player) (quest : String) (now : Instant) (j : Journal) :
    Option Refusal :=
  match c.get? quest with
  | none => some .notFound
  | some q => refusal? q p now j

/-- `Rules.start` of a valid quest on its first step is refused exactly with the refusal of the
check. -/
theorem start_of_verdict {q : Quest} (hq : q.Valid) (p : Player) (now : Instant) (j : Journal) :
    (∃ refusal, refusal? q p now j = some refusal
      ∧ start q p false none now j = .look (.error refusal))
    ∨ refusal? q p now j = none ∧ ∃ s, q.firstStep? = some s
      ∧ start q p false none now j = .commit (j.activate (.start q s now))
        [.started p.username q.id s.id s.onStart] (.start q s now) := by
  obtain ⟨s, rest, hsteps⟩ := List.exists_cons_of_ne_nil hq.steps_ne_nil
  have hfirst : q.firstStep? = some s := by
    rw [Quest.firstStep?, hsteps]
    rfl
  cases hrefusal : refusal? q p now j with
  | some refusal =>
      refine Or.inl ⟨refusal, rfl, ?_⟩
      simp only [start, Bool.false_eq_true, if_false, hrefusal]
  | none =>
      have hinactive : j.isActive q.id = false := (refusal?_eq_none_iff.mp hrefusal).inactive
      refine Or.inr ⟨rfl, s, hfirst, ?_⟩
      simp only [start, Bool.false_eq_true, if_false, hrefusal, startingStep?, hfirst, hinactive]

end Rules

namespace Engine

variable {ρ : Type} [Repository ρ] {e : Engine ρ} {c : Circumstances} {p : Player} {j : Journal}

/-- The check answers with the verdict. A quest that is not in the catalog is answered for
without a look at the journal. -/
theorem answer_canStart (hfound : (e.store.fetch c p.username).result = .ok j) (quest : String) :
    (e.run c (.canStart p quest)).answer
      = .ok (.eligibility (Rules.verdict? e.catalog p quest c.now j)) := by
  cases hq : e.catalog.get? quest with
  | none =>
      simp only [run, Operation.plan, hq, Rules.verdict?]
      rfl
  | some q =>
      have hplan : (Operation.canStart p quest).plan e.catalog c.now = .consult p.username
          fun j => (Rules.canStart q p c.now j).map .eligibility := by
        simp only [Operation.plan, hq]
      refine (answer_of_look hplan hfound rfl).trans ?_
      simp only [Rules.verdict?, hq]
      rfl

/-- A start is refused with the verdict; if there is none, it starts the quest, and only the
storage can still fail. -/
theorem answer_start (hvalid : e.catalog.Valid)
    (hfound : (e.store.fetch c p.username).result = .ok j) (quest : String) :
    match Rules.verdict? e.catalog p quest c.now j with
    | some refusal =>
      (e.run c (.start p quest false none)).answer = .error (.refused refusal)
    | none => (∃ a, a.quest = quest
          ∧ (e.run c (.start p quest false none)).answer = .ok (.started a))
        ∨ ∃ cause, (e.run c (.start p quest false none)).answer = .error (.storage cause) := by
  cases hq : e.catalog.get? quest with
  | none =>
      simp only [run, Operation.plan, hq, Rules.verdict?]
      rfl
  | some q =>
      have hplan : (Operation.start p quest false none).plan e.catalog c.now
          = .consult p.username fun j => (Rules.start q p false none c.now j).map .started := by
        simp only [Operation.plan, hq]
      simp only [Rules.verdict?, hq]
      rcases Rules.start_of_verdict (hvalid quest q hq) p c.now j with
        ⟨refusal, hrefusal, hstart⟩ | ⟨hrefusal, s, -, hstart⟩
      · rw [hrefusal]
        have hlook : (Rules.start q p false none c.now j).map Answer.started
            = .look (.error refusal) := by
          rw [hstart]
          rfl
        exact answer_of_look hplan hfound hlook
      · rw [hrefusal]
        rcases hfetch : e.store.fetch c p.username with ⟨s', accesses, result⟩
        rw [hfetch] at hfound
        cases hfound
        have hanswer : (e.run c (.start p quest false none)).answer
            = (((s'.revise p.username (j.activate (.start q s c.now))).persist c
                p.username).result.mapError .storage).map
              fun _ => .started (.start q s c.now) := by
          simp only [run, hplan, consult, hfetch, hstart, Ruling.map]
        cases hsaved : ((s'.revise p.username (j.activate (.start q s c.now))).persist c
            p.username).result with
        | error cause =>
            rw [hsaved] at hanswer
            exact Or.inr ⟨cause, hanswer⟩
        | ok _ =>
            rw [hsaved] at hanswer
            exact Or.inl ⟨.start q s c.now, Catalog.id_of_get? hq, hanswer⟩

theorem answer_available (hfound : (e.store.fetch c p.username).result = .ok j) :
    (e.run c (.available p)).answer
      = .ok (.available
        (e.catalog.quests.filter fun q => (Rules.refusal? q p c.now j).isNone)) := by
  have hplan : (Operation.available p).plan e.catalog c.now = .consult p.username
      fun j => (Rules.available e.catalog p c.now j).map .available := rfl
  exact answer_of_look hplan hfound rfl

omit [Repository ρ] in
/-- A quest is listed if it is in the catalog and nothing stands against it. -/
theorem mem_available (q : Quest) :
    q ∈ e.catalog.quests.filter (fun q => (Rules.refusal? q p c.now j).isNone)
      ↔ e.catalog.get? q.id = some q
        ∧ Rules.verdict? e.catalog p q.id c.now j = none := by
  rw [List.mem_filter, Catalog.mem_quests]
  refine and_congr_right fun hq => ?_
  simp only [Rules.verdict?, hq]
  exact Option.isNone_iff_eq_none

end Engine

variable {ρ : Type} [Repository ρ]

/-- **The ways to learn whether a quest can be started agree.** Under a catalog of valid quests,
on the journal that is found for a player and at one time: the check of a quest has a verdict,
which is empty exactly if a plain start fails for no other reason than the storage; a verdict that
is not empty is the refusal that the start meets, and the host is told that refusal in the words
that the start is refused with; and the quests listed as available are those of the catalog with
an empty verdict, each once, by increasing id. -/
theorem admission_agrees {e : Engine ρ} (hvalid : e.catalog.Valid) (c : Circumstances) (p : Player)
    {j : Journal} (hfound : (e.store.fetch c p.username).result = .ok j) :
    (∀ quest, ∃ verdict,
      (e.run c (.canStart p quest)).answer = .ok (.eligibility verdict)
      ∧ (verdict = none ↔ ∀ err, (e.run c (.start p quest false none)).answer = .error err →
          ∃ cause, err = .storage cause)
      ∧ (verdict = none → (∃ a, a.quest = quest
            ∧ (e.run c (.start p quest false none)).answer = .ok (.started a))
          ∨ ∃ cause, (e.run c (.start p quest false none)).answer = .error (.storage cause))
      ∧ (verdict = none →
          Host.Reply.ofOutcome (e.run c (.canStart p quest)).answer = .eligibility true none)
      ∧ ∀ refusal, verdict = some refusal →
          (e.run c (.start p quest false none)).answer = .error (.refused refusal)
          ∧ Host.Reply.ofOutcome (e.run c (.canStart p quest)).answer
            = .eligibility false (some (EngineError.refused refusal).message))
    ∧ ∃ quests, (e.run c (.available p)).answer = .ok (.available quests)
      ∧ quests.Pairwise (fun q r => q.id < r.id)
      ∧ ∀ q, q ∈ quests ↔ e.catalog.get? q.id = some q
        ∧ (e.run c (.canStart p q.id)).answer = .ok (.eligibility none) := by
  constructor
  · intro quest
    have hcheck := Engine.answer_canStart hfound quest
    have hstart := Engine.answer_start hvalid hfound quest
    refine ⟨_, hcheck, ?_⟩
    rw [hcheck]
    cases hverdict : Rules.verdict? e.catalog p quest c.now j with
    | none =>
        rw [hverdict] at hstart
        refine ⟨⟨fun _ err herr => ?_, fun _ => rfl⟩, fun _ => hstart, fun _ => rfl, nofun⟩
        rcases hstart with ⟨a, -, hok⟩ | ⟨cause, hfailed⟩
        · cases hok.symm.trans herr
        · cases hfailed.symm.trans herr
          exact ⟨cause, rfl⟩
    | some refusal =>
        rw [hverdict] at hstart
        refine ⟨⟨nofun, fun h => ?_⟩, nofun, nofun, ?_⟩
        · obtain ⟨cause, hcause⟩ := h _ hstart
          cases hcause
        · intro refusal' h
          cases h
          exact ⟨hstart, rfl⟩
  · refine ⟨_, Engine.answer_available hfound, (Catalog.quests_sorted _).filter _, fun q => ?_⟩
    rw [Engine.mem_available, Engine.answer_canStart hfound]
    refine and_congr_right fun _ => ⟨fun h => by rw [h], fun h => ?_⟩
    injection h with h
    injection h with h

/-- A beginner is told why the hunt cannot be started, and is refused in the same words; to a
player of some experience it is listed. -/
theorem admission_agrees_trophyHunt :
    let e := Engine.new (Catalog.ofQuests [trophyHunt]) MemoryRepository.empty 5000
    let beginner := Player.named "Ann" 2
    let hunter := Player.named "Bob" 5
    let refusal := Refusal.prerequisitesNotMet (.levelTooLow 3)
    e.catalog.Valid
      ∧ (e.store.fetch unsaved beginner.username).result = .ok (.empty "Ann" unsaved.openedAt)
      ∧ (e.store.fetch unsaved hunter.username).result = .ok (.empty "Bob" unsaved.openedAt)
      ∧ (e.run unsaved (.canStart beginner "rats")).answer = .ok (.eligibility (some refusal))
      ∧ (e.run unsaved (.start beginner "rats" false none)).answer = .error (.refused refusal)
      ∧ Host.Reply.ofOutcome (e.run unsaved (.canStart beginner "rats")).answer
        = .eligibility false (some "Prerequisites not met.")
      ∧ ∃ quests, (e.run unsaved (.available hunter)).answer = .ok (.available quests)
        ∧ trophyHunt ∈ quests := by
  intro e beginner hunter refusal
  have hvalid : e.catalog.Valid := Catalog.valid_ofQuests fun q hq => by
    rw [List.mem_singleton.mp hq]
    decide
  have hbeginner : (e.store.fetch unsaved beginner.username).result
      = .ok (.empty "Ann" unsaved.openedAt) := by rfl
  have hhunter : (e.store.fetch unsaved hunter.username).result
      = .ok (.empty "Bob" unsaved.openedAt) := by rfl
  obtain ⟨verdict, hcheck, -, -, -, hrefused⟩ :=
    (admission_agrees hvalid unsaved beginner hbeginner).1 "rats"
  obtain ⟨quests, hlisted, -, hmem⟩ := (admission_agrees hvalid unsaved hunter hhunter).2
  have hverdict : verdict = some refusal := by
    have hlow : (e.run unsaved (.canStart beginner "rats")).answer
        = .ok (.eligibility (some refusal)) := by decide +kernel
    rw [hcheck] at hlow
    injection hlow with hlow
    injection hlow with hlow
  obtain ⟨hstart, hreply⟩ := hrefused refusal hverdict
  have hlists : trophyHunt ∈ quests :=
    (hmem trophyHunt).mpr ⟨by decide +kernel, by decide +kernel⟩
  exact ⟨hvalid, hbeginner, hhunter, hverdict ▸ hcheck, hstart, hreply, quests, hlisted, hlists⟩

end Questline
