import Questline.Proofs.Custody

/-!
# Verdicts

A client at the stage `Stage.holding` has the lock of a slot and the journal in it, and applies its
rule to that by its next step, once: this is its *verdict*. The verdicts of a run, in order, are all
that happens to the quests of a player: the quest log of the player's place changes by verdicts
only, to the one that the rule leaves (`SharedEngine.log_left`, `SharedEngine.log_move`), whatever
is loaded, written, lost or given up in between.

The verdicts on one player are given in the order in which the clients took the journal in hand
(`SharedEngine.inOrder_run`), since no client can take it before another has given it back.
-/

namespace Questline

/-- The application of a rule to the journal of a player by a client. -/
structure Verdict where
  client : Nat
  /-- The lower-cased name of the player. -/
  key : String
  /-- The journal as it was taken in hand. -/
  journal : Journal
  ruling : Ruling Answer

namespace Verdict

/-- The notifications that the client is to publish. -/
def news (v : Verdict) : List Notification := v.ruling.news

/-- The journal that the rule leaves. -/
def left (v : Verdict) : Journal := v.ruling.journal v.journal

/-- The clients that gave the verdicts on a player, in order. -/
def clientsOn (key : String) (vs : List Verdict) : List Nat :=
  (vs.filter (·.key = key)).map (·.client)

/-- The news of the verdicts on a player, one verdict after another. -/
def newsOn (key : String) (vs : List Verdict) : List Notification :=
  (vs.filter (·.key = key)).flatMap (·.news)

theorem newsOn_append (key : String) (vs ws : List Verdict) :
    newsOn key (vs ++ ws) = newsOn key vs ++ newsOn key ws := by
  unfold newsOn
  rw [List.filter_append, List.flatMap_append]

theorem exists_of_newsOn {key : String} {v? : Option Verdict} (h : newsOn key v?.toList ≠ []) :
    ∃ v, v? = some v ∧ v.key = key ∧ v.news ≠ [] := by
  cases v? with
  | none => exact absurd rfl h
  | some v =>
      by_cases hkey : v.key = key
      · refine ⟨v, rfl, hkey, ?_⟩
        intro hnews
        exact h (by simp [newsOn, hkey, hnews])
      · exact absurd (by simp [newsOn, hkey]) h

end Verdict

namespace Stage

/-- The verdict that a client gives by its next step. -/
def verdict? (client : Nat) : Stage → Option Verdict
  | holding username rule _ j => some ⟨client, playerKey username, j, rule j⟩
  | _ => none

/-- The player whose journal a client is about to apply its rule to. -/
def deciding? : Stage → Option String
  | holding username _ _ _ => some (playerKey username)
  | _ => none

/-- The rule that a client has yet to apply, and the name it came with. -/
def task? : Stage → Option (String × (Journal → Ruling Answer))
  | seeking username errand | waiting username errand _ | arriving username errand _ =>
    errand.rule?.map (username, ·)
  | loading username rule _ | opening username rule _ | holding username rule _ _ =>
    some (username, rule)
  | _ => none

/-- The notifications that a client has yet to publish. -/
def unpublished : Stage → List Notification
  | saving _ _ news _ => news
  | closing _ _ parting | leaving _ parting | publishing parting => parting.news
  | _ => []

theorem guards?_of_deciding? {a : Stage} {key : String} (h : a.deciding? = some key) :
    a.guards? = some key := by
  cases a with
  | holding => exact h
  | _ => cases h

end Stage

namespace Happening

/-- The client that took the journal of a player in hand, if that is what happened. -/
def taker? (key : String) : Happening → Option Nat
  | opened client k _ => if k = key then some client else none
  | _ => none

/-- A published notification, with the client that published it. -/
def publication? : Happening → Option (Nat × Notification)
  | published client n => some (client, n)
  | _ => none

/-- Whether it is neither the taking of a journal nor a publication. -/
def isAside : Happening → Bool
  | opened _ _ _ | published _ _ => false
  | _ => true

theorem taker?_of_isAside {h : Happening} (haside : h.isAside = true) (key : String) :
    h.taker? key = none := by
  cases h with
  | opened => cases haside
  | _ => rfl

theorem publication?_of_isAside {h : Happening} (haside : h.isAside = true) :
    h.publication? = none := by
  cases h with
  | published => cases haside
  | _ => rfl

end Happening

namespace Move

def client : Move → Nat
  | start client _ | proceed client _ => client

/-- A move that starts a client only with the plan of an operation. -/
def Asks : Move → Prop
  | start _ plan => ∃ catalog now, ∃ op : Operation, plan = op.plan catalog now
  | proceed _ _ => True

theorem asks_start (client : Nat) (c : Catalog) (now : Instant) (op : Operation) :
    (start client (op.plan c now)).Asks := ⟨c, now, op, rfl⟩

theorem asks_proceed (client : Nat) (c : Circumstances) : (proceed client c).Asks := trivial

theorem Asks.keepsName {m : Move} (h : m.Asks) : m.KeepsName := by
  cases m with
  | start client plan =>
      obtain ⟨c, now, op, rfl⟩ := h
      exact Operation.keepsName c now client op
  | proceed client c => exact keepsName_proceed client c

end Move

namespace SharedEngine

variable {ρ : Type}

/-- The verdict that is given by a move. -/
def verdict? (s : SharedEngine ρ) : Move → Option Verdict
  | .start _ _ => none
  | .proceed client _ => (s.stage client).verdict? client

/-- The clients that took the journal of a player in hand, in order. -/
def takers (s : SharedEngine ρ) (key : String) : List Nat :=
  s.record.filterMap (Happening.taker? key)

/-- The publications of the record, in order. -/
def publications (s : SharedEngine ρ) : List (Nat × Notification) :=
  s.record.filterMap Happening.publication?

section Views

variable (s : SharedEngine ρ) (h : Happening) (key : String)

theorem takers_note : (s.note h).takers key = s.takers key ++ (h.taker? key).toList := by
  unfold takers
  rw [record_note, List.filterMap_append]
  exact congrArg (_ ++ ·) List.filterMap_cons

theorem publications_note : (s.note h).publications = s.publications ++ h.publication?.toList := by
  unfold publications
  rw [record_note, List.filterMap_append]
  exact congrArg (_ ++ ·) List.filterMap_cons

end Views

/-! ## What a move does -/

/-- Everything that a move does to stages, takers and publications: `b` is the stage that it leaves
its client at. -/
structure MoveEffect (s : SharedEngine ρ) (m : Move) (s' : SharedEngine ρ) (b : Stage) : Prop where
  stage : ∀ k, s'.stage k = if k = m.client then b else s.stage k
  /-- A rule that is yet to be applied was so before, or has just been asked for. -/
  task : ∀ username rule, b.task? = some (username, rule) →
    (s.stage m.client).task? = some (username, rule)
      ∨ m = .start m.client (.consult username rule)
  /-- A journal that its rule is about to be applied to was just taken in hand. -/
  hand : b.deciding? = none ∧ (∀ key, s'.takers key = s.takers key)
    ∨ ∃ username rule n j, s.stage m.client = .opening username rule n
      ∧ b = .holding username rule n j
      ∧ ∀ key, s'.takers key = s.takers key ++ if playerKey username = key then [m.client] else []
  /-- What is published was to be published next, and only a verdict adds to that. -/
  news : s'.publications = s.publications ∧
      b.unpublished = (s.stage m.client).unpublished ++ (s.verdict? m).elim [] Verdict.news
    ∨ ∃ n, s.verdict? m = none ∧ s'.publications = s.publications ++ [(m.client, n)]
      ∧ (s.stage m.client).unpublished = n :: b.unpublished

section Steps

variable {s s' : SharedEngine ρ} {i n : Nat} {c : Circumstances}

/-- The effect of a step that takes no journal in hand, publishes nothing and is no verdict. -/
theorem MoveEffect.silent {a b : Stage} (ha : s.stage i = a)
    (hstage : ∀ k, s'.stage k = if k = i then b else s.stage k)
    (hrecord : s'.record = s.record ∨ ∃ h, s'.record = s.record ++ [h] ∧ h.isAside = true)
    (htask : b.task? = none ∨ b.task? = a.task?) (hdeciding : b.deciding? = none)
    (hunpublished : b.unpublished = a.unpublished ++ (a.verdict? i).elim [] Verdict.news) :
    s.MoveEffect (.proceed i c) s' b where
  stage := hstage
  task username rule h := by
    refine Or.inl ?_
    rcases htask with hnone | hsame
    · rw [hnone] at h
      cases h
    · rw [← h, hsame]
      exact congrArg Stage.task? ha
  hand := by
    refine Or.inl ⟨hdeciding, ?_⟩
    intro key
    rcases hrecord with hsame | ⟨h, hnoted, haside⟩
    · exact congrArg (List.filterMap _) hsame
    · refine (congrArg (List.filterMap _) hnoted).trans ((takers_note s h key).trans ?_)
      rw [Happening.taker?_of_isAside haside, Option.toList_none, List.append_nil]
  news := by
    subst ha
    refine Or.inl ⟨?_, hunpublished⟩
    rcases hrecord with hsame | ⟨h, hnoted, haside⟩
    · exact congrArg (List.filterMap _) hsame
    · refine (congrArg (List.filterMap _) hnoted).trans ((publications_note s h).trans ?_)
      rw [Happening.publication?_of_isAside haside, Option.toList_none, List.append_nil]

theorem moveEffect_openJournal {username : String} {rule : Journal → Ruling Answer}
    (hstage : s.stage i = .opening username rule n) :
    ∃ b, s.MoveEffect (.proceed i c) (s.openJournal i username rule n) b := by
  unfold openJournal
  split
  · rename_i j _ _
    refine ⟨.holding username rule n j, fun _ => rfl, fun _ _ h => Or.inl ?_,
      Or.inr ⟨username, rule, n, j, hstage, rfl, fun key => ?_⟩, Or.inl ⟨?_, ?_⟩⟩
    · exact (congrArg Stage.task? hstage).trans h
    · refine (takers_note s _ key).trans ?_
      by_cases hkey : playerKey username = key <;> simp [Happening.taker?, hkey, Move.client]
    · exact (publications_note s _).trans (List.append_nil _)
    · show [] = (s.stage i).unpublished ++ ((s.stage i).verdict? i).elim [] Verdict.news
      rw [hstage]
      rfl
  · exact ⟨_, .silent hstage (fun _ => rfl) (Or.inl rfl) (Or.inl rfl) rfl rfl⟩

theorem moveEffect_apply {username : String} {rule : Journal → Ruling Answer} {j : Journal}
    (hstage : s.stage i = .holding username rule n j) :
    ∃ b, s.MoveEffect (.proceed i c) (s.apply i username rule n j) b := by
  have hunpublished : ∀ news, (rule j).news = news →
      news = (Stage.holding username rule n j).unpublished
        ++ ((Stage.holding username rule n j).verdict? i).elim [] Verdict.news := by
    intro news hnews
    exact hnews.symm
  unfold apply
  split
  · rename_i hr
    exact ⟨_, .silent hstage (fun _ => rfl) (Or.inl rfl) (Or.inl rfl) rfl
      (hunpublished _ (by rw [hr]; rfl))⟩
  · rename_i hr
    exact ⟨_, .silent hstage (fun _ => rfl) (Or.inl rfl) (Or.inl rfl) rfl
      (hunpublished _ (by rw [hr]; rfl))⟩
  · rename_i hr
    exact ⟨_, .silent hstage (fun _ => rfl) (Or.inl rfl) (Or.inl rfl) rfl
      (hunpublished _ (by rw [hr]; rfl))⟩

theorem moveEffect_publish {parting : Parting} (hstage : s.stage i = .publishing parting) :
    ∃ b, s.MoveEffect (.proceed i c) (s.publish i parting) b := by
  rcases parting with ⟨_ | ⟨n, news⟩, answer⟩
  · exact ⟨_, .silent hstage (fun _ => rfl) (Or.inr ⟨_, rfl, rfl⟩) (Or.inl rfl)
      rfl rfl⟩
  · refine ⟨.publishing ⟨news, answer⟩, fun _ => rfl, nofun,
      Or.inl ⟨rfl, fun key => ?_⟩, Or.inr ⟨n, ?_, publications_note s _, ?_⟩⟩
    · exact (takers_note s _ key).trans (List.append_nil _)
    · show (s.stage i).verdict? i = none
      rw [hstage]
      rfl
    · show (s.stage i).unpublished = _
      rw [hstage]
      rfl

theorem moveEffect_begin {plan : Plan} (hbegin : s.begin? i plan = some s') :
    ∃ b, s.MoveEffect (.start i plan) s' b := by
  have hunpublished : s.stage i = .idle →
      [] = (s.stage i).unpublished ++ (none : Option Verdict).elim [] Verdict.news := by
    intro hidle
    rw [hidle]
    rfl
  cases begins_of_begin? hbegin with
  | settled hidle =>
      exact ⟨_, fun _ => rfl, nofun, Or.inl ⟨rfl, fun _ => rfl⟩, Or.inl ⟨rfl, hunpublished hidle⟩⟩
  | @consult username rule hidle =>
      refine ⟨.seeking username (.consult rule), fun _ => rfl, ?_, Or.inl ⟨rfl, ?_⟩,
        Or.inl ⟨?_, hunpublished hidle⟩⟩
      · intro username' rule' htask
        cases htask
        exact Or.inr rfl
      · intro key
        exact (takers_note s _ key).trans (List.append_nil _)
      · exact (publications_note s _).trans (List.append_nil _)
  | @evict username hidle =>
      refine ⟨.seeking username .evict, fun _ => rfl, nofun, Or.inl ⟨rfl, ?_⟩,
        Or.inl ⟨?_, hunpublished hidle⟩⟩
      · intro key
        exact (takers_note s _ key).trans (List.append_nil _)
      · exact (publications_note s _).trans (List.append_nil _)

variable [Repository ρ]

/-- A write adds only itself to the record. -/
theorem isAside_write (s : SharedEngine ρ) (c : Circumstances) (i n : Nat) :
    (s.write c i n).1.stage = s.stage ∧ ((s.write c i n).1.record = s.record
      ∨ ∃ h, (s.write c i n).1.record = s.record ++ [h] ∧ h.isAside = true) := by
  unfold write
  split
  · dsimp only
    split
    · exact ⟨rfl, Or.inr ⟨_, rfl, rfl⟩⟩
    · exact ⟨rfl, Or.inr ⟨_, rfl, rfl⟩⟩
  · exact ⟨rfl, Or.inl rfl⟩

theorem moveEffect_step (hstep : s.step? c i = some s') :
    ∃ b, s.MoveEffect (.proceed i c) s' b := by
  cases advance_of_step? hstep with
  | @seek username errand hstage =>
      have hnoted : ∃ h, s.record ++ [.lookedUp i (playerKey username)] = s.record ++ [h]
          ∧ h.isAside = true := ⟨_, rfl, rfl⟩
      unfold seek
      simp only [table_note]
      split
      · exact ⟨_, .silent hstage (fun _ => rfl) (Or.inr hnoted) (Or.inr rfl) rfl rfl⟩
      · exact ⟨_, .silent hstage (fun _ => rfl) (Or.inr hnoted) (Or.inr rfl) rfl rfl⟩
      · exact ⟨_, .silent hstage (fun _ => rfl) (Or.inr hnoted) (Or.inl rfl) rfl rfl⟩
  | take hstage =>
      exact ⟨_, .silent hstage (fun _ => rfl) (Or.inl rfl) (Or.inr rfl) rfl rfl⟩
  | arrive hstage =>
      unfold arrive
      split
      · exact ⟨_, .silent hstage (fun _ => rfl) (Or.inl rfl) (Or.inr rfl) rfl rfl⟩
      · exact ⟨_, .silent hstage (fun _ => rfl) (Or.inl rfl) (Or.inl rfl) rfl rfl⟩
      · exact ⟨_, .silent hstage (fun _ => rfl) (Or.inl rfl) (Or.inr rfl) rfl rfl⟩
      · exact ⟨_, .silent hstage (fun _ => rfl) (Or.inl rfl) (Or.inr rfl) rfl rfl⟩
      · exact ⟨_, .silent hstage (fun _ => rfl) (Or.inl rfl) (Or.inl rfl) rfl rfl⟩
      · exact ⟨_, .silent hstage (fun _ => rfl) (Or.inl rfl) (Or.inl rfl) rfl rfl⟩
  | load hstage =>
      unfold load
      split
      · exact ⟨_, .silent hstage (fun _ => rfl) (Or.inr ⟨_, rfl, rfl⟩) (Or.inr rfl) rfl rfl⟩
      · exact ⟨_, .silent hstage (fun _ => rfl) (Or.inr ⟨_, rfl, rfl⟩) (Or.inl rfl) rfl rfl⟩
  | openJournal hstage => exact moveEffect_openJournal hstage
  | apply hstage => exact moveEffect_apply hstage
  | @save username n news answer hstage =>
      obtain ⟨hsame, hrecord⟩ := isAside_write s c i n
      exact ⟨.closing username n _, .silent hstage (fun k => by rw [stage_enter, hsame]) hrecord
        (Or.inl rfl) rfl (List.append_nil _).symm⟩
  | close hstage =>
      unfold close
      split
      · exact ⟨_, .silent hstage (fun _ => rfl) (Or.inr ⟨_, rfl, rfl⟩) (Or.inl rfl) rfl
          (List.append_nil _).symm⟩
      · exact ⟨_, .silent hstage (fun _ => rfl) (Or.inl rfl) (Or.inl rfl) rfl
          (List.append_nil _).symm⟩
  | @flush username n hstage =>
      obtain ⟨hsame, hrecord⟩ := isAside_write s c i n
      exact ⟨_, .silent hstage (fun k => by rw [stage_enter, hsame]) hrecord (Or.inl rfl) rfl rfl⟩
  | @flushFailed username n e hstage =>
      obtain ⟨hsame, hrecord⟩ := isAside_write s c i n
      exact ⟨_, .silent hstage (fun k => by rw [stage_enter, hsame]) hrecord (Or.inl rfl) rfl rfl⟩
  | remove hstage =>
      unfold remove
      split
      · exact ⟨_, .silent hstage (fun _ => rfl) (Or.inr ⟨_, rfl, rfl⟩) (Or.inl rfl) rfl rfl⟩
      · exact ⟨_, .silent hstage (fun _ => rfl) (Or.inl rfl) (Or.inl rfl) rfl rfl⟩
  | mark hstage =>
      exact ⟨_, .silent hstage (fun _ => rfl) (Or.inl rfl) (Or.inl rfl) rfl rfl⟩
  | leave hstage =>
      exact ⟨_, .silent hstage (fun _ => rfl) (Or.inl rfl) (Or.inl rfl) rfl
        (List.append_nil _).symm⟩
  | publish hstage => exact moveEffect_publish hstage

theorem moveEffect_move {m : Move} (hmove : s.move? m = some s') : ∃ b, s.MoveEffect m s' b := by
  cases m with
  | start client plan => exact moveEffect_begin hmove
  | proceed client c => exact moveEffect_step hmove

end Steps

/-! ## Who gives a verdict, and on what -/

section Verdicts

variable {s s' : SharedEngine ρ} {m : Move} {owner : Nat → String}
  {initial : String → QuestLog} {key : String}

theorem verdict?_eq_some {v : Verdict} (h : s.verdict? m = some v) :
    v.client = m.client ∧ ∃ username rule n c, m = .proceed m.client c
      ∧ s.stage m.client = .holding username rule n v.journal
      ∧ v.key = playerKey username ∧ v.ruling = rule v.journal := by
  cases m with
  | start client plan => cases h
  | proceed client c =>
      change (s.stage client).verdict? client = some v at h
      cases hstage : s.stage client with
      | holding username rule n j =>
          rw [hstage] at h
          cases h
          exact ⟨rfl, username, rule, n, c, rfl, hstage, rfl, rfl⟩
      | _ =>
          rw [hstage] at h
          cases h

theorem deciding?_of_verdict? {v : Verdict} (h : s.verdict? m = some v) :
    (s.stage m.client).deciding? = some v.key := by
  obtain ⟨-, username, rule, n, c, -, hstage, hkey, -⟩ := verdict?_eq_some h
  rw [hstage, hkey]
  rfl

/-- The next step of a client that is about to give a verdict gives it. -/
theorem verdict?_of_deciding? [Repository ρ] (hmove : s.move? m = some s')
    (h : (s.stage m.client).deciding? = some key) :
    ∃ v, s.verdict? m = some v ∧ v.key = key := by
  cases m with
  | start client plan =>
      change (s.stage client).deciding? = some key at h
      cases hstage : s.stage client with
      | holding username rule n j =>
          simp only [move?, begin?, hstage] at hmove
          cases hmove
      | _ =>
          rw [hstage] at h
          cases h
  | proceed client c =>
      change (s.stage client).deciding? = some key at h
      show ∃ v, (s.stage client).verdict? client = some v ∧ v.key = key
      cases hstage : s.stage client with
      | holding username rule n j =>
          rw [hstage] at h
          cases h
          exact ⟨_, rfl, rfl⟩
      | _ =>
          rw [hstage] at h
          cases h

variable [Repository ρ] [TableRepository ρ]

/-- A verdict is given on the quest log of the player's place. -/
theorem log_of_verdict? (hg : s.Guarded owner) {v : Verdict} (h : s.verdict? m = some v) :
    (s.place v.key).log = v.journal.log := by
  obtain ⟨-, username, rule, n, c, -, hstage, hkey, -⟩ := verdict?_eq_some h
  obtain ⟨howner, dirty, hcontent⟩ := hg.relies hstage
  rw [hkey, ← howner, hg.log_slot hstage rfl nofun hcontent]

/-- A step that is no verdict on a player leaves the quest log of the player. -/
theorem log_step (hg : s.Guarded owner) (h : s.HandoverInvariant initial)
    {c : Circumstances} {i : Nat}
    (hstep : s.step? c i = some s') (hother : (s.stage i).deciding? ≠ some key) :
    (s'.place key).log = (s.place key).log := by
  have hwrite : ∀ {a : Stage} {n : Nat}, s.stage i = a → a.lock? = some n → a ≠ .marking n →
      s.Loaded n → ((s.write c i n).1.place key).log = (s.place key).log := by
    intro a n hstage hlock hmarking hloaded
    obtain ⟨j, dirty, hcontent⟩ := hloaded
    have hslot := hg.place_slot hstage hlock hmarking hcontent
    have hname := (h.coherent (owner n)).slot_keyed j dirty hslot
    exact hg.log_write c hstage hlock hmarking hcontent hname key
  cases advance_of_step? hstep with
  | @seek username errand hstage =>
      unfold seek
      simp only [table_note]
      split
      · rfl
      · rename_i hnone
        exact log_withSlot (s := s.note (.lookedUp i (playerKey username))) hg.made hnone key
      · rfl
  | take hstage => rw [place_enter, place_lock]
  | arrive hstage =>
      unfold arrive
      split
      · rw [place_enter, place_unlock]
      all_goals rfl
  | load hstage =>
      unfold load
      split
      · rename_i j hj
        exact hg.log_load hstage hj key
      · rfl
  | openJournal hstage =>
      unfold openJournal
      split
      · rfl
      · rfl
  | @apply username rule n j hstage =>
      obtain ⟨howner, dirty, hcontent⟩ := hg.relies hstage
      have hne : owner n ≠ key := by
        rintro rfl
        rw [hstage] at hother
        exact hother (congrArg some howner.symm)
      have hplace := hg.place_hold hstage rfl nofun hcontent
      unfold apply
      split
      · rfl
      · rw [place_enter, hplace, if_neg hne]
      · rw [place_enter, hplace, if_neg hne]
  | save hstage => exact hwrite hstage rfl nofun (hg.relies hstage).2
  | close hstage =>
      unfold close
      split
      · rw [place_enter, place_unlock, place_note]
      · rw [place_enter, place_unlock]
  | flush hstage => exact hwrite hstage rfl nofun (hg.relies hstage).2
  | flushFailed hstage => exact hwrite hstage rfl nofun (hg.relies hstage).2
  | remove hstage => exact hg.log_remove (h.coherent _) hstage key
  | @mark n hstage =>
      have hout : s.table.get? (owner n) ≠ some n := hg.relies hstage
      rw [place_enter, place_giveUp]
      intro hin
      exact hout ((hg.made key n hin).2 ▸ hin)
  | leave hstage => rw [place_enter, place_unlock]
  | @publish parting hstage =>
      rcases parting with ⟨_ | ⟨n, news⟩, answer⟩
      · rfl
      · rfl

/-- A verdict leaves the quest log of the ruling. -/
theorem log_left (hg : s.Guarded owner) (hmove : s.move? m = some s') {v : Verdict}
    (hverdict : s.verdict? m = some v) : (s'.place v.key).log = v.left.log := by
  have hfound := log_of_verdict? hg hverdict
  obtain ⟨-, username, rule, n, c, hm, hstage, hkey, hruling⟩ := verdict?_eq_some hverdict
  obtain ⟨howner, dirty, hcontent⟩ := hg.relies hstage
  have hplace := hg.place_hold hstage rfl nofun hcontent
  have howned : owner n = v.key := howner.trans hkey.symm
  rw [hm] at hmove
  simp only [move?, step?, hstage, Option.some.injEq] at hmove
  subst hmove
  unfold Verdict.left
  rw [hruling]
  unfold apply
  split
  · rename_i hr
    rw [hr]
    exact hfound
  · rename_i hr
    rw [hr, place_enter, hplace, if_pos howned]
    rfl
  · rename_i hr
    rw [hr, place_enter, hplace, if_pos howned]
    rfl

/-- A move that is no verdict on a player leaves the quest log of the player. -/
theorem log_move (hg : s.Guarded owner) (h : s.HandoverInvariant initial)
    (hmove : s.move? m = some s')
    (hother : ∀ v, s.verdict? m = some v → v.key ≠ key) :
    (s'.place key).log = (s.place key).log := by
  have hundecided : (s.stage m.client).deciding? ≠ some key := by
    intro hdeciding
    obtain ⟨v, hv, hkey⟩ := verdict?_of_deciding? hmove hdeciding
    exact hother v hv hkey
  cases m with
  | start client plan =>
      cases begins_of_begin? hmove with
      | settled => rfl
      | consult => rfl
      | evict => rfl
  | proceed client c => exact log_step hg h hmove hundecided

end Verdicts

/-! ## Rules of operations -/

/-- Every rule that is yet to be applied is one of an operation. -/
def Asked (s : SharedEngine ρ) : Prop :=
  ∀ i username rule, (s.stage i).task? = some (username, rule) →
    ∃ c now, ∃ op : Operation, op.plan c now = .consult username rule

section Asked

variable {s s' : SharedEngine ρ} {m : Move}

theorem asked_move [Repository ρ] (h : s.Asked) (hm : m.Asks) (hmove : s.move? m = some s') :
    s'.Asked := by
  obtain ⟨b, hb⟩ := moveEffect_move hmove
  intro k username rule htask
  rw [hb.stage] at htask
  by_cases hk : k = m.client
  · rw [if_pos hk] at htask
    rcases hb.task username rule htask with hbefore | hstart
    · exact h m.client username rule hbefore
    · rw [hstart] at hm
      obtain ⟨c, now, op, hplan⟩ := hm
      exact ⟨c, now, op, hplan.symm⟩
  · rw [if_neg hk] at htask
    exact h k username rule htask

/-- A verdict applies the rule of an operation that came under a name of the player. -/
theorem Asked.of_verdict? (h : s.Asked) {v : Verdict} (hverdict : s.verdict? m = some v) :
    ∃ c now, ∃ op : Operation, ∃ username rule, op.plan c now = .consult username rule
      ∧ v.key = playerKey username ∧ v.ruling = rule v.journal := by
  obtain ⟨-, username, rule, n, -, -, hstage, hkey, hruling⟩ := verdict?_eq_some hverdict
  obtain ⟨c, now, op, hplan⟩ := h m.client username rule (by rw [hstage]; rfl)
  exact ⟨c, now, op, username, rule, hplan, hkey, hruling⟩

end Asked

/-! ## In the order of the lock -/

/-- The verdicts on a player are those of the clients that took the journal in hand, in that
order, but for one client that is about to give its verdict. -/
def InOrder (s : SharedEngine ρ) (key : String) (vs : List Verdict) : Prop :=
  s.takers key = Verdict.clientsOn key vs ∧ (∀ i, (s.stage i).deciding? ≠ some key)
    ∨ ∃ i, s.takers key = Verdict.clientsOn key vs ++ [i] ∧ (s.stage i).deciding? = some key

section Order

variable {s s' : SharedEngine ρ} {m : Move} {owner : Nat → String} {key : String}
  {vs : List Verdict}

/-- No two clients are about to give a verdict on one player. -/
theorem Guarded.deciding_unique (h : s.Guarded owner) {i k : Nat}
    (hi : (s.stage i).deciding? = some key) (hk : (s.stage k).deciding? = some key) : i = k :=
  h.guards_unique (Stage.guards?_of_deciding? hi) (Stage.guards?_of_deciding? hk)

/-- A move that is no verdict on a player adds nothing to those on the player. -/
theorem clientsOn_other (hother : (s.stage m.client).deciding? ≠ some key) (vs : List Verdict) :
    Verdict.clientsOn key (vs ++ (s.verdict? m).toList) = Verdict.clientsOn key vs := by
  unfold Verdict.clientsOn
  cases hv : s.verdict? m with
  | none => simp
  | some v =>
      have hkey : v.key ≠ key := fun hkey => hother (hkey ▸ deciding?_of_verdict? hv)
      simp [hkey]

namespace InOrder

variable {b : Stage}

/-- The client that was about to give its verdict has given it. -/
theorem given (hg : s.Guarded owner) (h : s.InOrder key vs) (hb : s.MoveEffect m s' b) {v : Verdict}
    (hverdict : s.verdict? m = some v) (hkey : v.key = key) : s'.InOrder key (vs ++ [v]) := by
  obtain ⟨hclient, username, rule, n, -, -, hholding, -⟩ := verdict?_eq_some hverdict
  have hdeciding : (s.stage m.client).deciding? = some key :=
    hkey ▸ deciding?_of_verdict? hverdict
  rcases h with ⟨-, hnobody⟩ | ⟨i, hlist, hi⟩
  · exact absurd hdeciding (hnobody _)
  · have him : i = m.client := hg.deciding_unique hi hdeciding
    rcases hb.hand with ⟨hdone, htakers⟩ | ⟨_, _, _, _, hopening, -⟩
    · refine Or.inl ⟨?_, ?_⟩
      · rw [htakers, hlist, him]
        simp [Verdict.clientsOn, hkey, hclient]
      · intro k hk
        rw [hb.stage] at hk
        by_cases hkm : k = m.client
        · rw [if_pos hkm, hdone] at hk
          cases hk
        · rw [if_neg hkm] at hk
          exact hkm (hg.deciding_unique hk hdeciding)
    · cases hholding.symm.trans hopening

/-- A client has taken the journal in hand, and is about to give its verdict. -/
theorem taken (hg : s.Guarded owner) (h : s.InOrder key vs) (hb : s.MoveEffect m s' b)
    {username : String} {rule : Journal → Ruling Answer} {n : Nat}
    (hopening : s.stage m.client = .opening username rule n) (hkey : playerKey username = key)
    (hdeciding : b.deciding? = some key) (htakers : s'.takers key = s.takers key ++ [m.client]) :
    s'.InOrder key vs := by
  subst hkey
  rcases h with ⟨hlist, -⟩ | ⟨i, -, hi⟩
  · refine Or.inr ⟨m.client, ?_, ?_⟩
    · rw [htakers, hlist]
    · rw [hb.stage, if_pos rfl, hdeciding]
  · exact absurd (Stage.guards?_of_deciding? hi) (hg.free_of_opening hopening i)

/-- A client does something else. -/
theorem stays (h : s.InOrder key vs) (hb : s.MoveEffect m s' b)
    (hbefore : (s.stage m.client).deciding? ≠ some key) (hafter : b.deciding? ≠ some key)
    (htakers : s'.takers key = s.takers key) : s'.InOrder key vs := by
  have hdeciding : ∀ k, (s'.stage k).deciding? = some key ↔ (s.stage k).deciding? = some key := by
    intro k
    rw [hb.stage]
    by_cases hk : k = m.client
    · rw [if_pos hk, hk]
      exact iff_of_false hafter hbefore
    · rw [if_neg hk]
  rcases h with ⟨hlist, hnobody⟩ | ⟨i, hlist, hi⟩
  · exact Or.inl ⟨htakers.trans hlist, fun k hk => hnobody k ((hdeciding k).mp hk)⟩
  · exact Or.inr ⟨i, htakers.trans hlist, (hdeciding i).mpr hi⟩

end InOrder

variable [Repository ρ]

theorem inOrder_move (hg : s.Guarded owner) (h : s.InOrder key vs)
    (hmove : s.move? m = some s') : s'.InOrder key (vs ++ (s.verdict? m).toList) := by
  obtain ⟨b, hb⟩ := moveEffect_move hmove
  by_cases hdeciding : (s.stage m.client).deciding? = some key
  · obtain ⟨v, hv, hkey⟩ := verdict?_of_deciding? hmove hdeciding
    rw [hv]
    exact h.given hg hb hv hkey
  · rw [InOrder, clientsOn_other hdeciding vs]
    rcases hb.hand with ⟨hdone, htakers⟩ | ⟨username, rule, n, j, hopening, hholding, htakers⟩
    · exact h.stays hb hdeciding (by rw [hdone]; exact nofun) (htakers key)
    · have htaken := htakers key
      have hafter : b.deciding? = some (playerKey username) := by
        rw [hholding]
        rfl
      by_cases hkey : playerKey username = key
      · rw [if_pos hkey] at htaken
        exact h.taken hg hb hopening hkey (hkey ▸ hafter) htaken
      · rw [if_neg hkey, List.append_nil] at htaken
        refine h.stays hb hdeciding ?_ htaken
        rw [hafter]
        exact fun heq => hkey (Option.some.inj heq)

end Order

/-! ## Runs -/

variable [Repository ρ]

/-- The verdicts of a run, in order. -/
def verdicts (s : SharedEngine ρ) : List Move → List Verdict
  | [] => []
  | m :: moves => (s.verdict? m).toList ++
    match s.move? m with
    | some s' => s'.verdicts moves
    | none => []

theorem verdicts_cons {s s' : SharedEngine ρ} {m : Move} (hmove : s.move? m = some s')
    (moves : List Move) :
    s.verdicts (m :: moves) = (s.verdict? m).toList ++ s'.verdicts moves := by
  rw [verdicts, hmove]

theorem inOrder_run {s s' : SharedEngine ρ} {owner : Nat → String} {key : String}
    {vs : List Verdict} {moves : List Move} (hg : s.Guarded owner) (h : s.InOrder key vs)
    (hrun : s.run? moves = some s') : s'.InOrder key (vs ++ s.verdicts moves) := by
  induction moves generalizing s owner vs with
  | nil =>
      cases hrun
      rw [verdicts, List.append_nil]
      exact h
  | cons m moves ih =>
      obtain ⟨s₁, hmove, hrest⟩ := Option.bind_eq_some_iff.mp hrun
      obtain ⟨owner₁, hg₁⟩ := guarded_move hg hmove
      rw [verdicts_cons hmove, ← List.append_assoc]
      exact ih hg₁ (inOrder_move hg h hmove) hrest

end SharedEngine

end Questline
