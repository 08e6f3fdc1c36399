import Questline.Channel
import Questline.Proofs.Course
import Questline.Proofs.Verdicts

/-!
# In the order of the lock

The lock of a slot is given back (`Stage.leaving`) before the news is published
(`Stage.publishing`), so nothing but the clients themselves decides whose news comes first. Every
client publishes its own news completely and in order (`SharedEngine.publishedBy_run`). But a client
that is held up between the two stages is overtaken by the next one, and then the listeners get an
update of an objective before the start of the quest (`heard_out_of_order`).

What is published of a player is in the order of the lock as long as no rule makes news of the
player while a client has older news of the player to publish (`SharedEngine.Prompt`); then a
listener that misses no notification gets the start of every activation before the rest of it
(`heard_in_order`). The invariant of that is `SharedEngine.PublishedOrPending`.
-/

namespace Questline

/-! ## Streams of notifications about one quest -/

namespace Notification

/-- Whether a notification bears, up to lower-casing, the name of a player. -/
def isOf (key : String) (n : Notification) : Bool := playerKey n.username = key

/-- Whether a notification is a `quest:started`. -/
def isStart : Notification → Bool
  | started _ _ _ _ => true
  | _ => false

/-- Whether a notification starts or ends an activation. -/
def isActivationBoundary : Notification → Bool
  | started _ _ _ _ | abandoned _ _ | completed _ _ _ _ | failed _ _ _ => true
  | stepCompleted _ _ _ _ _ | objectiveUpdated _ _ _ _ => false

/-- Whether a quest is active after a notification about it, from whether it was before. -/
def activates (active : Bool) : Notification → Bool
  | started _ _ _ _ => true
  | abandoned _ _ | completed _ _ _ _ | failed _ _ _ => false
  | stepCompleted _ _ _ _ _ | objectiveUpdated _ _ _ _ => active

theorem activates_of_not_boundary {n : Notification} (h : n.isActivationBoundary = false)
    (active : Bool) : n.activates active = active := by
  cases n with
  | stepCompleted => rfl
  | objectiveUpdated => rfl
  | _ => cases h

theorem isStart_of_activates {n : Notification} (h : n.isActivationBoundary = true) {active : Bool}
    (hactive : n.activates active = true) : n.isStart = true := by
  cases n with
  | started => rfl
  | stepCompleted => cases h
  | objectiveUpdated => cases h
  | _ => cases hactive

end Notification

/-- A stream of notifications about one quest, which is active at first or not, in which a start
comes only while the quest is not active, and everything else only while it is. -/
def ActivationOrder (active : Bool) : List Notification → Prop
  | [] => True
  | n :: news => active = !n.isStart ∧ ActivationOrder (n.activates active) news

/-- A stream of notifications about one quest in which every notification but a start has the start
of its activation before it, unless the activation is the one that was `active` at first. -/
def StartPrecedes (active : Bool) (news : List Notification) : Prop :=
  ∀ before n after, news = before ++ n :: after → n.isStart = false →
    (∃ earlier first between, before = earlier ++ first :: between ∧ first.isStart = true
      ∧ ∀ m ∈ between, m.isActivationBoundary = false)
    ∨ active = true ∧ ∀ m ∈ before, m.isActivationBoundary = false

theorem not_startPrecedes_of_head {news : List Notification}
    (h : news.head?.any (!·.isStart) = true) : ¬ StartPrecedes false news := by
  obtain ⟨n, hhead, hn⟩ := (Option.any_eq_true _ _).mp h
  obtain ⟨later, rfl⟩ := List.head?_eq_some_iff.mp hhead
  intro hall
  rcases hall [] n later rfl ((Bool.not_eq_true' _).mp hn) with
    ⟨earlier, first, between, hsplit, -⟩ | ⟨hactive, -⟩
  · exact List.append_ne_nil_of_right_ne_nil _ (List.cons_ne_nil _ _) hsplit.symm
  · cases hactive

theorem activationOrder_append {active : Bool} {news later : List Notification} :
    ActivationOrder active (news ++ later)
      ↔ ActivationOrder active news
        ∧ ActivationOrder (news.foldl Notification.activates active) later := by
  induction news generalizing active with
  | nil => exact ⟨fun h => ⟨trivial, h⟩, fun h => h.2⟩
  | cons n news ih =>
      constructor
      · intro h
        obtain ⟨hnews, hlater⟩ := ih.mp h.2
        exact ⟨⟨h.1, hnews⟩, hlater⟩
      · intro h
        exact ⟨h.1.1, ih.mpr ⟨h.1.2, h.2⟩⟩

/-- A quest that the notifications make active was started by one of them, and no later one ends
it. -/
theorem started_of_foldl {active : Bool} {news : List Notification}
    (h : news.foldl Notification.activates active = true) :
    (∃ earlier first between, news = earlier ++ first :: between ∧ first.isStart = true
      ∧ ∀ m ∈ between, m.isActivationBoundary = false)
    ∨ active = true ∧ ∀ m ∈ news, m.isActivationBoundary = false := by
  induction news generalizing active with
  | nil => exact Or.inr ⟨h, fun _ hm => absurd hm List.not_mem_nil⟩
  | cons n news ih =>
      rcases ih h with ⟨earlier, first, between, rfl, hfirst, hbetween⟩ | ⟨hactive, hnews⟩
      · exact Or.inl ⟨n :: earlier, first, between, rfl, hfirst, hbetween⟩
      · cases hboundary : n.isActivationBoundary with
        | true =>
            -- of what begins or ends an activation, only a start leaves the quest active
            exact Or.inl ⟨[], n, news, rfl, Notification.isStart_of_activates hboundary
              hactive, hnews⟩
        | false =>
            rw [Notification.activates_of_not_boundary hboundary] at hactive
            exact Or.inr ⟨hactive, List.forall_mem_cons.mpr ⟨hboundary, hnews⟩⟩

theorem ActivationOrder.startPrecedes {active : Bool} {news : List Notification}
    (h : ActivationOrder active news) : StartPrecedes active news := by
  rintro before n after rfl hn
  have hactive : before.foldl Notification.activates active = true := by
    rw [(activationOrder_append.mp h).2.1, hn]
    rfl
  exact started_of_foldl hactive

theorem activationOrder_singleton {active : Bool} {n : Notification} (h : active = !n.isStart) :
    ActivationOrder active [n] := ⟨h, trivial⟩

namespace Offering

variable {c : Catalog} {amount? : Objective → Option Amount} {quest : String} {a : Activation}

theorem activationOrder_counterNews (o : Offering c amount? quest a) (username : String) :
    ActivationOrder true (o.counterNews username)
      ∧ (o.counterNews username).foldl Notification.activates true = true := by
  unfold counterNews
  induction o.moved with
  | nil => exact ⟨trivial, rfl⟩
  | cons m moved ih => exact ⟨⟨rfl, ih.1⟩, ih.2⟩

end Offering

section Moves

variable {c : Catalog} {username : String} {now : Instant} {quest : String} {t t' : Thread}
  {news : List Notification}

theorem activationOrder_of_stride {amount? : Objective → Option Amount}
    (h : QuestStride c username now quest amount? t news t') :
    ActivationOrder t.current.isSome news
      ∧ news.foldl Notification.activates t.current.isSome = t'.current.isSome := by
  cases h with
  | idle => exact ⟨trivial, rfl⟩
  | update o => exact o.activationOrder_counterNews username
  | advance o =>
      obtain ⟨hgains, hactive⟩ := o.activationOrder_counterNews username
      refine ⟨activationOrder_append.mpr ⟨hgains, ?_⟩, ?_⟩
      · exact activationOrder_singleton hactive
      · rw [List.foldl_append]
        exact hactive
  | complete o =>
      obtain ⟨hgains, hactive⟩ := o.activationOrder_counterNews username
      refine ⟨activationOrder_append.mpr ⟨hgains, hactive, ?_⟩, ?_⟩
      · exact activationOrder_singleton hactive
      · rw [List.foldl_append]
        rfl

/-- The news of a transition is in `ActivationOrder`, and read with `Notification.activates` it
tells whether the quest is active afterwards. -/
theorem activationOrder_of_transition {stimulus? : Option Stimulus} {target? : Option Step}
    (h : QuestTransition c username now quest stimulus? target? t news t') :
    ActivationOrder t.current.isSome news
      ∧ news.foldl Notification.activates t.current.isSome = t'.current.isSome := by
  cases h with
  | stay => exact ⟨trivial, rfl⟩
  | start => exact ⟨activationOrder_singleton rfl, rfl⟩
  | abandon => exact ⟨activationOrder_singleton rfl, rfl⟩
  | complete => exact ⟨activationOrder_singleton rfl, rfl⟩
  | fail => exact ⟨activationOrder_singleton rfl, rfl⟩
  | setVariable => exact ⟨trivial, rfl⟩
  | meet hstride => exact activationOrder_of_stride hstride
  | branch => exact ⟨activationOrder_singleton rfl, rfl⟩
  | talk _ _ hstride =>
      obtain ⟨hmet, hactive⟩ := activationOrder_of_stride hstride
      refine ⟨activationOrder_append.mpr ⟨hmet, activationOrder_singleton hactive⟩, ?_⟩
      rw [List.foldl_append]
      exact hactive

end Moves

/-! ## What is published, client by client -/

namespace SharedEngine

variable {ρ : Type}

/-- The notifications that were published, in order. -/
def published (s : SharedEngine ρ) : List Notification := s.publications.map (·.2)

/-- The notifications that a client has published, in order. -/
def publishedBy (s : SharedEngine ρ) (client : Nat) : List Notification :=
  (s.publications.filter (·.1 = client)).map (·.2)

section Clients

variable [Repository ρ] {s s' : SharedEngine ρ}

theorem publishedBy_move {m : Move} (hmove : s.move? m = some s') (i : Nat) :
    s'.publishedBy i ++ (s'.stage i).unpublished = s.publishedBy i ++ (s.stage i).unpublished
      ++ ((s.verdict? m).toList.filter (·.client = i)).flatMap (·.news) := by
  obtain ⟨b, hb⟩ := moveEffect_move hmove
  unfold publishedBy
  rw [hb.stage]
  by_cases hi : i = m.client
  · subst hi
    rw [if_pos rfl]
    rcases hb.news with ⟨hpublished, hunpublished⟩ | ⟨n, hnone, hpublished, hunpublished⟩
    · rw [hpublished, hunpublished, List.append_assoc]
      cases hv : s.verdict? m with
      | none => rfl
      | some v => simp [(verdict?_eq_some hv).1]
    · rw [hpublished, hunpublished, hnone]
      simp
  · have hown : (s.verdict? m).toList.filter (·.client = i) = [] := by
      refine List.filter_eq_nil_iff.mpr fun v hv => ?_
      have hclient := (verdict?_eq_some (Option.mem_toList.mp hv)).1
      simpa [hclient] using fun h => hi h.symm
    rw [if_neg hi, hown, List.flatMap_nil, List.append_nil]
    rcases hb.news with ⟨hpublished, -⟩ | ⟨n, -, hpublished, -⟩
    · rw [hpublished]
    · have hother : ¬ m.client = i := fun h => hi h.symm
      rw [hpublished]
      simp [hother]

/-- Every client publishes its own news, completely and in order. -/
theorem publishedBy_run {moves : List Move} (hrun : s.run? moves = some s') (i : Nat) :
    s'.publishedBy i ++ (s'.stage i).unpublished = s.publishedBy i ++ (s.stage i).unpublished
      ++ ((s.verdicts moves).filter (·.client = i)).flatMap (·.news) := by
  induction moves generalizing s with
  | nil =>
      cases hrun
      rw [verdicts]
      simp
  | cons m moves ih =>
      obtain ⟨s₁, hmove, hrest⟩ := Option.bind_eq_some_iff.mp hrun
      rw [ih hrest, publishedBy_move hmove, verdicts_cons hmove, List.filter_append,
        List.flatMap_append, List.append_assoc]

end Clients

/-! ## What is published of one player -/

section Players

variable [Repository ρ] {s s' : SharedEngine ρ} {m : Move} {key : String} {i : Nat}
  {moves : List Move} {told : List Notification}

/-- The notifications about a player that a client has yet to publish. -/
def unpublishedOf (s : SharedEngine ρ) (key : String) (client : Nat) : List Notification :=
  (s.stage client).unpublished.filter (·.isOf key)

/-- The notifications about a player that were published, in order. -/
def publishedOf (s : SharedEngine ρ) (key : String) : List Notification :=
  s.published.filter (·.isOf key)

/-- Whenever a verdict of a run makes news of a player, the client has no older news of the player
to publish. -/
def Prompt (s : SharedEngine ρ) (key : String) (client : Nat) : List Move → Prop
  | [] => True
  | m :: moves =>
    (∀ v ∈ s.verdict? m, v.key = key → v.news ≠ [] → s.unpublishedOf key client = [])
      ∧ ∀ s' ∈ s.move? m, s'.Prompt key client moves

instance decidablePrompt (key : String) (client : Nat) :
    ∀ (moves : List Move) (s : SharedEngine ρ), Decidable (s.Prompt key client moves)
  | [], _ => inferInstanceAs (Decidable True)
  | m :: moves, s =>
    have : ∀ s', Decidable (Prompt s' key client moves) := decidablePrompt key client moves
    inferInstanceAs (Decidable ((∀ v ∈ s.verdict? m, v.key = key → v.news ≠ [] →
      s.unpublishedOf key client = []) ∧ ∀ s' ∈ s.move? m, s'.Prompt key client moves))

/-- A client that takes no part in a run, and has nothing left to publish, is prompt in it. -/
theorem prompt_of_absent (hunpublished : (s.stage i).unpublished = [])
    (habsent : ∀ m ∈ moves, m.client ≠ i) :
    s.Prompt key i moves := by
  induction moves generalizing s with
  | nil => trivial
  | cons m moves ih =>
      refine ⟨fun _ _ _ _ => congrArg (List.filter _) hunpublished, fun s' hmove => ?_⟩
      obtain ⟨b, hb⟩ := moveEffect_move hmove
      have hother : ¬ i = m.client := fun h => habsent m (.head _) h.symm
      refine ih ?_ fun m' hm' => habsent m' (.tail _ hm')
      rw [hb.stage, if_neg hother]
      exact hunpublished

omit [Repository ρ] in
/-- The news that a move makes of a player is that of its verdict, if that is one on the player. -/
theorem Asked.news_of (h : s.Asked) (m : Move) (key : String) :
    ((s.verdict? m).elim [] Verdict.news).filter (·.isOf key)
      = Verdict.newsOn key (s.verdict? m).toList := by
  cases hverdict : s.verdict? m with
  | none => rfl
  | some v =>
      obtain ⟨c, now, op, username, rule, hplan, hkey, hruling⟩ := h.of_verdict? hverdict
      have hnamed : ∀ n ∈ v.news, playerKey n.username = v.key := by
        intro n hn
        unfold Verdict.news at hn
        rw [hruling] at hn
        rw [(Operation.faithful hplan v.journal).named n hn, hkey]
      show v.news.filter (·.isOf key) = ([v].filter (·.key = key)).flatMap (·.news)
      by_cases hv : v.key = key
      · have hall : v.news.filter (·.isOf key) = v.news :=
          List.filter_eq_self.mpr fun n hn => decide_eq_true ((hnamed n hn).trans hv)
        simp [hall, hv]
      · have hnone : v.news.filter (·.isOf key) = [] :=
          List.filter_eq_nil_iff.mpr fun n hn hof =>
            hv ((hnamed n hn).symm.trans (of_decide_eq_true hof))
        simp [hnone, hv]

/-- The invariant of `heard_in_order`: of the notifications `told` about a player an initial part
was published, and the rest is what one client has yet to publish. -/
def PublishedOrPending (s : SharedEngine ρ) (key : String) (told : List Notification) : Prop :=
  ∃ i, (∀ k, k ≠ i → s.unpublishedOf key k = []) ∧ s.publishedOf key ++ s.unpublishedOf key i = told

/-- A move publishes the first notification that its client had left, or adds the news of its
verdict to them. -/
theorem publishedOf_move (hasked : s.Asked) (hmove : s.move? m = some s') (key : String) :
    (∀ k, k ≠ m.client → s'.unpublishedOf key k = s.unpublishedOf key k)
      ∧ ∃ next, s'.publishedOf key = s.publishedOf key ++ next
        ∧ s.unpublishedOf key m.client ++ Verdict.newsOn key (s.verdict? m).toList
          = next ++ s'.unpublishedOf key m.client
        ∧ (next = [] ∨ Verdict.newsOn key (s.verdict? m).toList = []) := by
  obtain ⟨b, hb⟩ := moveEffect_move hmove
  refine ⟨?_, ?_⟩
  · intro k hk
    unfold unpublishedOf
    rw [hb.stage, if_neg hk]
  · have hself : s'.unpublishedOf key m.client = b.unpublished.filter (·.isOf key) := by
      unfold unpublishedOf
      rw [hb.stage, if_pos rfl]
    rcases hb.news with ⟨hpublished, hunpublished⟩ | ⟨n, hnone, hpublished, hunpublished⟩
    · refine ⟨[], ?_, ?_, Or.inl rfl⟩
      · unfold publishedOf published
        rw [hpublished, List.append_nil]
      · rw [hself, hunpublished, List.filter_append, hasked.news_of]
        rfl
    · refine ⟨[n].filter (·.isOf key), ?_, ?_, Or.inr ?_⟩
      · unfold publishedOf published
        rw [hpublished, List.map_append, List.filter_append]
        rfl
      · unfold unpublishedOf at hself ⊢
        rw [hself, hunpublished, hnone, ← List.filter_append]
        exact List.append_nil _
      · rw [hnone]
        rfl

theorem publishedOrPending_move (h : s.PublishedOrPending key told) (hasked : s.Asked)
    (hprompt : ∀ v ∈ s.verdict? m, v.key = key → v.news ≠ [] → ∀ i, s.unpublishedOf key i = [])
    (hmove : s.move? m = some s') :
    s'.PublishedOrPending key (told ++ Verdict.newsOn key (s.verdict? m).toList) := by
  obtain ⟨i, hothers, htold⟩ := h
  obtain ⟨hrest, next, hheard, hnext, hone⟩ := publishedOf_move hasked hmove key
  by_cases hnothing : Verdict.newsOn key (s.verdict? m).toList = []
  · rw [hnothing, List.append_nil] at hnext ⊢
    by_cases hi : i = m.client
    · subst hi
      refine ⟨m.client, ?_, ?_⟩
      · intro k hk
        rw [hrest k hk, hothers k hk]
      · rw [hheard, List.append_assoc, ← hnext, htold]
    · -- the client that moves has nothing of the player to publish
      have hclient : next ++ s'.unpublishedOf key m.client = [] :=
        hnext ▸ hothers m.client fun h => hi h.symm
      obtain ⟨hsilent, hdone⟩ := List.append_eq_nil_iff.mp hclient
      refine ⟨i, ?_, ?_⟩
      · intro k hk
        by_cases hkm : k = m.client
        · rw [hkm, hdone]
        · rw [hrest k hkm, hothers k hk]
      · rw [hheard, hsilent, List.append_nil, hrest i hi, htold]
  · -- nobody has any left when a verdict makes news of the player, by `Prompt`
    obtain ⟨v, hv, hkey, hnews⟩ := Verdict.exists_of_newsOn hnothing
    have hquiet : ∀ k, s.unpublishedOf key k = [] := hprompt v hv hkey hnews
    have hsilent : next = [] := hone.resolve_right hnothing
    rw [hsilent, List.append_nil] at hheard
    rw [hquiet, List.append_nil] at htold
    rw [hquiet, hsilent, List.nil_append, List.nil_append] at hnext
    refine ⟨m.client, ?_, ?_⟩
    · intro k hk
      rw [hrest k hk, hquiet]
    · rw [hheard, ← hnext, htold]

theorem publishedOrPending_run (h : s.PublishedOrPending key told) (hasked : s.Asked)
    (hmoves : ∀ m ∈ moves, m.Asks)
    (hprompt : ∀ i, s.Prompt key i moves) (hrun : s.run? moves = some s') :
    s'.PublishedOrPending key (told ++ Verdict.newsOn key (s.verdicts moves)) := by
  induction moves generalizing s told with
  | nil =>
      cases hrun
      rw [verdicts, show Verdict.newsOn key [] = [] from rfl, List.append_nil]
      exact h
  | cons m moves ih =>
      obtain ⟨s₁, hmove, hrest⟩ := Option.bind_eq_some_iff.mp hrun
      rw [verdicts_cons hmove, Verdict.newsOn_append, ← List.append_assoc]
      refine ih ?_ (asked_move hasked (hmoves m (.head _)) hmove)
        (fun m' hm' => hmoves m' (.tail _ hm')) (fun i => (hprompt i).2 s₁ hmove) hrest
      exact publishedOrPending_move h hasked
        (fun v hv hkey hnews i => (hprompt i).1 v hv hkey hnews) hmove

end Players

/-! ## What is published of one quest -/

section Quests

variable [Repository ρ] [TableRepository ρ] {s s' : SharedEngine ρ} {m : Move} {key : String}
  {moves : List Move} {owner : Nat → String} {initial : String → QuestLog}

/-- A quest of a player is active. -/
def activeOf (s : SharedEngine ρ) (key quest : String) : Bool :=
  ((s.place key).log.thread quest).current.isSome

/-- The news about a quest of a player is in `ActivationOrder` from the one state on, and the quest
is active after it exactly if it is so in the other state. -/
def NewsMatchesActive (s s' : SharedEngine ρ) (key quest : String)
    (news : List Notification) : Prop :=
  ActivationOrder (s.activeOf key quest) (news.filter (·.quest = quest))
    ∧ (news.filter (·.quest = quest)).foldl Notification.activates (s.activeOf key quest)
      = s'.activeOf key quest

/-- Step lemma for `NewsMatchesActive`: a verdict. -/
theorem newsMatchesActive_verdict (hg : s.Guarded owner) (hasked : s.Asked)
    (hmove : s.move? m = some s') {v : Verdict} (hverdict : s.verdict? m = some v)
    (horderly : (s.place v.key).log.Orderly) :
    (s'.place v.key).log.Orderly ∧ ∀ quest, s.NewsMatchesActive s' v.key quest v.news := by
  have hfound := log_of_verdict? hg hverdict
  have hleft := log_left hg hmove hverdict
  obtain ⟨c, now, op, username, rule, hplan, -, hruling⟩ := hasked.of_verdict? hverdict
  rw [hfound] at horderly
  have hjournal : v.left = (rule v.journal).journal v.journal := by
    rw [← hruling]
    rfl
  have hnews : v.news = (rule v.journal).news := by
    rw [← hruling]
    rfl
  refine ⟨?_, ?_⟩
  · rw [hleft, hjournal]
    exact Operation.orderly_plan hplan horderly
  · intro quest
    unfold NewsMatchesActive activeOf
    rw [hnews, hleft, hfound, hjournal]
    exact activationOrder_of_transition (Operation.transition hplan (horderly.at quest))

theorem newsMatchesActive_other (hg : s.Guarded owner) (h : s.HandoverInvariant initial)
    (hmove : s.move? m = some s')
    (hother : ∀ v, s.verdict? m = some v → v.key ≠ key) (quest : String) :
    s.NewsMatchesActive s' key quest [] := by
  unfold NewsMatchesActive activeOf
  rw [log_move hg h hmove hother]
  exact ⟨trivial, rfl⟩

theorem newsMatchesActive_move (hg : s.Guarded owner) (h : s.HandoverInvariant initial)
    (hasked : s.Asked) (hmove : s.move? m = some s') (horderly : (s.place key).log.Orderly) :
    (s'.place key).log.Orderly
      ∧ ∀ quest, s.NewsMatchesActive s' key quest (Verdict.newsOn key (s.verdict? m).toList) := by
  by_cases hother : ∀ v, s.verdict? m = some v → v.key ≠ key
  · have hnothing : Verdict.newsOn key (s.verdict? m).toList = [] := by
      cases hverdict : s.verdict? m with
      | none => rfl
      | some v => simp [Verdict.newsOn, hother v hverdict]
    rw [log_move hg h hmove hother, hnothing]
    exact ⟨horderly, newsMatchesActive_other hg h hmove hother⟩
  · simp only [not_forall, not_not] at hother
    obtain ⟨v, hverdict, rfl⟩ := hother
    have hnews : Verdict.newsOn v.key (s.verdict? m).toList = v.news := by
      rw [hverdict]
      simp [Verdict.newsOn]
    rw [hnews]
    exact newsMatchesActive_verdict hg hasked hmove hverdict horderly

theorem newsMatchesActive_run (hg : s.Guarded owner) (h : s.HandoverInvariant initial)
    (hasked : s.Asked) (hmoves : ∀ m ∈ moves, m.Asks) (hrun : s.run? moves = some s')
    (horderly : (s.place key).log.Orderly) (quest : String) :
    s.NewsMatchesActive s' key quest (Verdict.newsOn key (s.verdicts moves)) := by
  induction moves generalizing s owner with
  | nil =>
      cases hrun
      exact ⟨trivial, rfl⟩
  | cons m moves ih =>
      obtain ⟨s₁, hmove, hrest⟩ := Option.bind_eq_some_iff.mp hrun
      obtain ⟨owner₁, hg₁⟩ := guarded_move hg hmove
      have hm := hmoves m (.head _)
      obtain ⟨horderly₁, hfirst⟩ := newsMatchesActive_move hg h hasked hmove horderly
      obtain ⟨horder, hactive⟩ := hfirst quest
      obtain ⟨hlater, hactive'⟩ := ih hg₁ (handover_move hg h hm.keepsName hmove)
        (asked_move hasked hm hmove) (fun m' hm' => hmoves m' (.tail _ hm')) hrest horderly₁
      rw [verdicts_cons hmove, Verdict.newsOn_append]
      unfold NewsMatchesActive
      rw [List.filter_append, activationOrder_append, List.foldl_append, hactive]
      exact ⟨⟨horder, hlater⟩, hactive'⟩

end Quests

/-- A listener that misses nothing gets the start of every activation first, if the news of the
player, published or not, is in `ActivationOrder`. -/
theorem startPrecedes_published {s : SharedEngine ρ} {key quest : String} {told : List Notification}
    {active : Bool} (hpublished : s.PublishedOrPending key told)
    (htold : ActivationOrder active (told.filter (·.quest = quest))) {capacity : Nat}
    {heard : List Notification} (hheard : delivery capacity s.published = (0, heard)) :
    StartPrecedes active (heard.filter (·.isAbout key quest)) := by
  obtain ⟨i, -, hsplit⟩ := hpublished
  have hall : heard = s.published := by
    have hlost : s.published.length - channelRoom capacity = 0 := congrArg Prod.fst hheard
    have hrest : s.published.drop (s.published.length - channelRoom capacity) = heard :=
      congrArg Prod.snd hheard
    rw [← hrest, hlost, List.drop_zero]
  have habout : heard.filter (·.isAbout key quest)
      = (s.publishedOf key).filter (·.quest = quest) := by
    unfold publishedOf
    rw [hall, List.filter_filter]
    exact List.filter_congr fun n _ => Bool.and_comm ..
  rw [← hsplit, List.filter_append] at htold
  rw [habout]
  exact (activationOrder_append.mp htold).1.startPrecedes

end SharedEngine

/-- **What is published, and in which order.** Any number of clients carry out operations over a
repository, in any interleaving and whatever fails.

Each client publishes the news of its own verdicts, completely and in order, but for what it has
yet to publish; and the verdicts on a player are those of the clients that took the journal in
hand, in that order.

If no verdict makes news of a player while a client has other news of the player to publish, then
what is published of the player is the news of the verdicts in that order, but for what one client
has yet to publish, and a listener that has lost no notification gets every activation from its
start, unless it was active before the run. -/
theorem heard_in_order {ρ : Type} [Repository ρ] [TableRepository ρ] (repository : ρ)
    (hkeyed : Keyed (TableRepository.records repository))
    (horderly : ∀ key, (SharedEngine.storedLog repository key).Orderly) (limit : Nat)
    (moves : List Move) (hmoves : ∀ m ∈ moves, m.Asks) (s : SharedEngine ρ)
    (hrun : (SharedEngine.new repository limit).run? moves = some s) :
    let e := SharedEngine.new repository limit
    (∀ i, s.publishedBy i ++ (s.stage i).unpublished
      = ((e.verdicts moves).filter (·.client = i)).flatMap (·.news))
    ∧ ∀ key, Verdict.clientsOn key (e.verdicts moves) <+: s.takers key
      ∧ ((∀ i, (s.stage i).guards? ≠ some key) →
        Verdict.clientsOn key (e.verdicts moves) = s.takers key)
      ∧ ((∀ i, e.Prompt key i moves) →
        (∃ i, (∀ k, k ≠ i → s.unpublishedOf key k = [])
          ∧ s.publishedOf key ++ s.unpublishedOf key i = Verdict.newsOn key (e.verdicts moves))
        ∧ ∀ quest capacity heard, delivery capacity s.published = (0, heard) →
          StartPrecedes ((SharedEngine.storedLog repository key).thread quest).current.isSome
            (heard.filter (·.isAbout key quest))) := by
  intro e
  have hg : e.Guarded fun _ => "" := SharedEngine.guarded_new repository limit _
  have hkept : e.HandoverInvariant (SharedEngine.storedLog repository) :=
    SharedEngine.handover_new hkeyed limit
  have hasked : e.Asked := nofun
  refine ⟨SharedEngine.publishedBy_run hrun, ?_⟩
  intro key
  have hnobody : e.InOrder key [] := Or.inl ⟨rfl, nofun⟩
  have horder : s.InOrder key (e.verdicts moves) := SharedEngine.inOrder_run hg hnobody hrun
  refine ⟨?_, fun hfree => ?_, fun hprompt => ?_⟩
  · rcases horder with ⟨hlist, -⟩ | ⟨i, hlist, -⟩
    · exact ⟨[], by rw [hlist, List.append_nil]⟩
    · exact ⟨[i], hlist.symm⟩
  · rcases horder with ⟨hlist, -⟩ | ⟨i, -, hi⟩
    · exact hlist.symm
    · exact absurd (Stage.guards?_of_deciding? hi) (hfree i)
  · have hsilent : e.PublishedOrPending key [] := ⟨0, fun _ _ => rfl, rfl⟩
    have hpublished : s.PublishedOrPending key (Verdict.newsOn key (e.verdicts moves)) :=
      SharedEngine.publishedOrPending_run hsilent hasked hmoves hprompt hrun
    refine ⟨hpublished, ?_⟩
    intro quest capacity heard hheard
    have htold := SharedEngine.newsMatchesActive_run hg hkept hasked hmoves hrun
      (horderly key) quest
    exact SharedEngine.startPrecedes_published hpublished htold.1 hheard

/-! ## Two clients on one player -/

/-- The second client comes while the first has the lock, and takes the lock before the first
has published, but applies its rule only afterwards. -/
def queuingMoves : List Move :=
  .start 0 (planned (.start (.named "Ann" 1) "rats" false none)) :: steps 0 2
    ++ .start 1 (planned (.ingest "ANN" (.npcDeath "rat"))) :: steps 1 1
    ++ steps 0 6 ++ steps 1 3 ++ steps 0 2 ++ steps 1 5

/-- Clients that wait for each other's news publish in the order of the lock. -/
theorem heard_in_order_ratHunt :
    let e := SharedEngine.new MemoryRepository.empty 5000
    Keyed (TableRepository.records MemoryRepository.empty)
      ∧ (∀ key, (SharedEngine.storedLog MemoryRepository.empty key).Orderly)
      ∧ (∀ m ∈ queuingMoves, m.Asks) ∧ (∀ i, e.Prompt "ann" i queuingMoves)
      ∧ ∃ s, e.run? queuingMoves = some s
        ∧ (∃ i, (∀ k, k ≠ i → s.unpublishedOf "ann" k = [])
          ∧ s.publishedOf "ann" ++ s.unpublishedOf "ann" i
            = Verdict.newsOn "ann" (e.verdicts queuingMoves))
        ∧ s.published.map (·.name) = ["quest:started", "quest:objective_updated"]
        ∧ delivery 64 s.published = (0, s.published)
        ∧ StartPrecedes false (s.published.filter (·.isAbout "ann" "rats")) := by
  intro e
  have hblank : ∀ key, (SharedEngine.storedLog MemoryRepository.empty key).Orderly :=
    fun key => QuestLog.orderly_blank
  have hmoves : ∀ m ∈ queuingMoves, m.Asks := by
    simp [queuingMoves, planned, steps, Move.asks_start, Move.asks_proceed]
  have hprompt : ∀ i, e.Prompt "ann" i queuingMoves := by
    intro i
    rcases i with _ | _ | i
    · decide +kernel
    · decide +kernel
    · have hclients : ∀ m ∈ queuingMoves, m.client < 2 := by decide +kernel
      refine SharedEngine.prompt_of_absent rfl ?_
      intro m hm
      have hclient := hclients m hm
      omega
  have hends : (e.run? queuingMoves).any (fun s =>
      s.published.map (·.name) = ["quest:started", "quest:objective_updated"]
        ∧ delivery 64 s.published = (0, s.published)) = true := by decide +kernel
  obtain ⟨s, hrun, hs⟩ := (Option.any_eq_true _ _).mp hends
  obtain ⟨hnames, hdelivery⟩ := of_decide_eq_true hs
  obtain ⟨-, hplayers⟩ := heard_in_order MemoryRepository.empty keyed_empty hblank 5000
    queuingMoves hmoves s hrun
  obtain ⟨-, -, hheard⟩ := hplayers "ann"
  obtain ⟨hpublished, hstart⟩ := hheard hprompt
  exact ⟨keyed_empty, hblank, hmoves, hprompt, s, hrun, hpublished, hnames, hdelivery,
    hstart "rats" 64 s.published hdelivery⟩

/-- One client starts the hunt, comes as far as its first `ahead` steps, and takes the others
after another client has reported a kill. -/
def overtakingMoves (ahead : Nat) : List Move :=
  .start 0 (planned (.start (.named "Ann" 1) "rats" false none)) :: steps 0 ahead
    ++ .start 1 (planned (.ingest "ANN" (.npcDeath "rat"))) :: steps 1 9 ++ steps 0 (10 - ahead)

/-- A client that is overtaken between giving the lock back and publishing publishes a start after
the update of an objective; and a listener that is too slow may lose a start, although what is
published is in order. -/
theorem heard_out_of_order :
    let e := SharedEngine.new MemoryRepository.empty 5000
    (∀ n, ∀ m ∈ overtakingMoves n, m.Asks)
    ∧ (∃ s, e.run? (overtakingMoves 8) = some s
      ∧ Verdict.clientsOn "ann" (e.verdicts (overtakingMoves 8)) = [0, 1]
      ∧ (s.stage 0).unpublished = [] ∧ (s.stage 1).unpublished = []
      ∧ s.publishedOf "ann" ≠ Verdict.newsOn "ann" (e.verdicts (overtakingMoves 8))
      ∧ ¬ StartPrecedes false (s.published.filter (·.isAbout "ann" "rats")))
    ∧ ∃ s heard, e.run? (overtakingMoves 10) = some s
      ∧ s.publishedOf "ann" = Verdict.newsOn "ann" (e.verdicts (overtakingMoves 10))
      ∧ delivery 1 s.published = (1, heard)
      ∧ ¬ StartPrecedes false (heard.filter (·.isAbout "ann" "rats")) := by
  intro e
  have hmoves : ∀ n, ∀ m ∈ overtakingMoves n, m.Asks := by
    intro n m hm
    cases m with
    | proceed client c => exact Move.asks_proceed client c
    | start client plan =>
        simp only [overtakingMoves, steps, planned, List.mem_append, List.mem_cons,
          List.mem_replicate, Move.start.injEq, reduceCtorEq, and_false, or_false] at hm
        rcases hm with ⟨rfl, rfl⟩ | ⟨rfl, rfl⟩
        · exact Move.asks_start ..
        · exact Move.asks_start ..
  have hovertaken : (e.run? (overtakingMoves 8)).any (fun s =>
      Verdict.clientsOn "ann" (e.verdicts (overtakingMoves 8)) = [0, 1]
        ∧ (s.stage 0).unpublished = [] ∧ (s.stage 1).unpublished = []
        ∧ s.publishedOf "ann" ≠ Verdict.newsOn "ann" (e.verdicts (overtakingMoves 8))
        ∧ (s.published.filter (·.isAbout "ann" "rats")).head?.any (!·.isStart)) = true := by
    decide +kernel
  have hlagged : (e.run? (overtakingMoves 10)).any (fun s =>
      s.publishedOf "ann" = Verdict.newsOn "ann" (e.verdicts (overtakingMoves 10))
        ∧ (delivery 1 s.published).1 = 1
        ∧ ((delivery 1 s.published).2.filter (·.isAbout "ann" "rats")).head?.any (!·.isStart))
      = true := by decide +kernel
  obtain ⟨s, hrun, hs⟩ := (Option.any_eq_true _ _).mp hovertaken
  obtain ⟨hclients, hfirst, hsecond, hother, hhead⟩ := of_decide_eq_true hs
  obtain ⟨s', hrun', hs'⟩ := (Option.any_eq_true _ _).mp hlagged
  obtain ⟨hpublished, hlost, hhead'⟩ := of_decide_eq_true hs'
  exact ⟨hmoves, ⟨s, hrun, hclients, hfirst, hsecond, hother, not_startPrecedes_of_head hhead⟩,
    s', _, hrun', hpublished, Prod.ext hlost rfl, not_startPrecedes_of_head hhead'⟩

end Questline
