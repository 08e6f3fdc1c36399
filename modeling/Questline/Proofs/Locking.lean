import Questline.Sharing

/-!
# Slots and their locks

Several slots of one player can exist at once: a client may still wait for the lock of a slot
that was given up while another works on the next. What keeps them apart is that a slot that
holds anything is the one in the table, or is just being given up by the client that has its
lock (`SharedEngine.Guarded`). A client has only the lock of the slot it works on, so no step
of it disturbs the others (`Guarded.work`), and at most one client has the journal of a player
in hand (`Guarded.guards_unique`).
-/

namespace Questline

namespace Stage

/-- The slot whose lock a client has. -/
def lock? : Stage → Option Nat
  | arriving _ _ slot | loading _ _ slot | opening _ _ slot | holding _ _ slot _
  | saving _ slot _ _ | closing _ slot _ | flushing _ slot | removing _ slot | marking slot
  | leaving slot _ => some slot
  | idle | seeking _ _ | waiting _ _ _ | publishing _ => none

/-- The lower-cased name of the player whose journal a client has in hand. -/
def guards? : Stage → Option String
  | holding username _ _ _ | saving username _ _ _ | closing username _ _ =>
    some (playerKey username)
  | _ => none

end Stage

namespace SharedEngine

variable {ρ : Type}

/-! ## Inversion of moves -/

section Parts

variable {s s' : SharedEngine ρ} {i : Nat}

/-- The cases of `SharedEngine.begin?`. -/
inductive Begins (s : SharedEngine ρ) (i : Nat) : Plan → SharedEngine ρ → Prop
  | settled {answer : Except Refusal Answer} (hidle : s.stage i = .idle) :
      Begins s i (.settled answer) (s.enter i (.publishing ⟨[], answer.mapError .refused⟩))
  | consult {username : String} {rule : Journal → Ruling Answer} (hidle : s.stage i = .idle) :
      Begins s i (.consult username rule) ((s.note (.cameFor i (playerKey username))).enter i
        (.seeking username (.consult rule)))
  | evict {username : String} (hidle : s.stage i = .idle) :
      Begins s i (.evict username) ((s.note (.cameFor i (playerKey username))).enter i
        (.seeking username .evict))

theorem begins_of_begin? {plan : Plan} (hbegin : s.begin? i plan = some s') :
    s.Begins i plan s' := by
  cases hstage : s.stage i with
  | idle =>
      simp only [begin?, hstage, Option.some.injEq] at hbegin
      subst hbegin
      cases plan with
      | settled answer => exact .settled hstage
      | consult username rule => exact .consult hstage
      | evict username => exact .evict hstage
  | _ =>
      simp only [begin?, hstage] at hbegin
      cases hbegin

variable [Repository ρ]

/-- The cases of `SharedEngine.step?`, by the stage of the client. -/
inductive Advance (s : SharedEngine ρ) (c : Circumstances) (i : Nat) : SharedEngine ρ → Prop
  | seek {username : String} {errand : Errand} (hstage : s.stage i = .seeking username errand) :
      Advance s c i (s.seek i username errand)
  | take {username : String} {errand : Errand} {n : Nat}
      (hstage : s.stage i = .waiting username errand n) (hfree : s.holder? n = none) :
      Advance s c i ((s.atSlot n (.lock i)).enter i (.arriving username errand n))
  | arrive {username : String} {errand : Errand} {n : Nat}
      (hstage : s.stage i = .arriving username errand n) :
      Advance s c i (s.arrive i username errand n)
  | load {username : String} {rule : Journal → Ruling Answer} {n : Nat}
      (hstage : s.stage i = .loading username rule n) : Advance s c i (s.load c i username rule n)
  | openJournal {username : String} {rule : Journal → Ruling Answer} {n : Nat}
      (hstage : s.stage i = .opening username rule n) :
      Advance s c i (s.openJournal i username rule n)
  | apply {username : String} {rule : Journal → Ruling Answer} {n : Nat} {j : Journal}
      (hstage : s.stage i = .holding username rule n j) :
      Advance s c i (s.apply i username rule n j)
  | save {username : String} {n : Nat} {news : List Notification} {answer : Answer}
      (hstage : s.stage i = .saving username n news answer) :
      Advance s c i ((s.write c i n).1.enter i
        (.closing username n ⟨news, (s.write c i n).2.map fun _ => answer⟩))
  | close {username : String} {n : Nat} {parting : Parting}
      (hstage : s.stage i = .closing username n parting) :
      Advance s c i (s.close i username n parting)
  | flush {username : String} {n : Nat} (hstage : s.stage i = .flushing username n)
      (hwritten : (s.write c i n).2 = .ok ()) :
      Advance s c i ((s.write c i n).1.enter i (.removing username n))
  | flushFailed {username : String} {n : Nat} {e : EngineError}
      (hstage : s.stage i = .flushing username n) (hfailed : (s.write c i n).2 = .error e) :
      Advance s c i ((s.write c i n).1.enter i (.leaving n ⟨[], .error e⟩))
  | remove {username : String} {n : Nat} (hstage : s.stage i = .removing username n) :
      Advance s c i (s.remove i username n)
  | mark {n : Nat} (hstage : s.stage i = .marking n) :
      Advance s c i ((s.atSlot n .giveUp).enter i (.leaving n ⟨[], .ok (.changed true)⟩))
  | leave {n : Nat} {parting : Parting} (hstage : s.stage i = .leaving n parting) :
      Advance s c i ((s.atSlot n .unlock).enter i (.publishing parting))
  | publish {parting : Parting} (hstage : s.stage i = .publishing parting) :
      Advance s c i (s.publish i parting)

theorem advance_of_step? {c : Circumstances} (hstep : s.step? c i = some s') :
    s.Advance c i s' := by
  cases hstage : s.stage i with
  | idle =>
      simp only [step?, hstage] at hstep
      cases hstep
  | waiting username errand n =>
      simp only [step?, hstage] at hstep
      split at hstep
      · cases hstep
      · rename_i hfree
        cases hstep
        exact .take hstage hfree
  | flushing username n =>
      simp only [step?, hstage] at hstep
      split at hstep
      · rename_i s₁ u hwrite
        cases hstep
        have hparts : s.Advance c i ((s.write c i n).1.enter i (.removing username n)) :=
          .flush hstage (by rw [hwrite])
        rwa [hwrite] at hparts
      · rename_i s₁ e hwrite
        cases hstep
        have hparts : s.Advance c i ((s.write c i n).1.enter i (.leaving n ⟨[], .error e⟩)) :=
          .flushFailed hstage (by rw [hwrite])
        rwa [hwrite] at hparts
  | _ =>
      simp only [step?, hstage, Option.some.injEq] at hstep
      subst hstep
      constructor
      exact hstage

end Parts

/-! ## Effects of the parts of a step -/

section Views

variable (s : SharedEngine ρ) (client n m : Nat) (b : Stage) (h : Happening)

@[simp] theorem stage_enter (i : Nat) :
    (s.enter client b).stage i = if i = client then b else s.stage i := rfl

@[simp] theorem content?_enter : (s.enter client b).content? m = s.content? m := rfl

@[simp] theorem holder?_enter : (s.enter client b).holder? m = s.holder? m := rfl

@[simp] theorem table_enter : (s.enter client b).table = s.table := rfl

@[simp] theorem slots_enter : (s.enter client b).slots = s.slots := rfl

@[simp] theorem record_enter : (s.enter client b).record = s.record := rfl

@[simp] theorem stage_note : (s.note h).stage = s.stage := rfl

@[simp] theorem table_note : (s.note h).table = s.table := rfl

@[simp] theorem record_note : (s.note h).record = s.record ++ [h] := rfl

variable (f : LockedSlot → LockedSlot)

@[simp] theorem stage_atSlot : (s.atSlot n f).stage = s.stage := rfl

@[simp] theorem table_atSlot : (s.atSlot n f).table = s.table := rfl

@[simp] theorem record_atSlot : (s.atSlot n f).record = s.record := rfl

@[simp] theorem repository_atSlot : (s.atSlot n f).repository = s.repository := rfl

@[simp] theorem length_atSlot : (s.atSlot n f).slots.length = s.slots.length :=
  List.length_modify ..

theorem slots_atSlot :
    (s.atSlot n f).slots[m]? = if m = n then s.slots[m]?.map f else s.slots[m]? := by
  by_cases hm : m = n
  · subst hm
    simp [atSlot]
  · have hne : ¬ n = m := fun h => hm h.symm
    simp [atSlot, hm, hne]

@[simp] theorem content?_lock : (s.atSlot n (.lock client)).content? m = s.content? m := by
  unfold content?
  rw [slots_atSlot]
  split
  · cases s.slots[m]? <;> rfl
  · rfl

@[simp] theorem content?_unlock : (s.atSlot n .unlock).content? m = s.content? m := by
  unfold content?
  rw [slots_atSlot]
  split
  · cases s.slots[m]? <;> rfl
  · rfl

@[simp] theorem holder?_hold (slot : Slot) :
    (s.atSlot n (.hold slot)).holder? m = s.holder? m := by
  unfold holder?
  rw [slots_atSlot]
  split
  · cases s.slots[m]? <;> rfl
  · rfl

@[simp] theorem holder?_giveUp : (s.atSlot n .giveUp).holder? m = s.holder? m := by
  unfold holder?
  rw [slots_atSlot]
  split
  · cases s.slots[m]? <;> rfl
  · rfl

@[simp] theorem holder?_unlock :
    (s.atSlot n .unlock).holder? m = if m = n then none else s.holder? m := by
  unfold holder?
  rw [slots_atSlot]
  split
  · cases s.slots[m]? <;> rfl
  · rfl

@[simp] theorem content?_giveUp :
    (s.atSlot n .giveUp).content? m = if m = n then none else s.content? m := by
  unfold content?
  rw [slots_atSlot]
  split
  · cases s.slots[m]? <;> rfl
  · rfl

variable {s n}

theorem content?_hold (hn : n < s.slots.length) (slot : Slot) :
    (s.atSlot n (.hold slot)).content? m = if m = n then some slot else s.content? m := by
  unfold content?
  rw [slots_atSlot]
  split
  · rename_i hm
    rw [hm, List.getElem?_eq_getElem hn]
    rfl
  · rfl

theorem holder?_lock (hn : n < s.slots.length) :
    (s.atSlot n (.lock client)).holder? m = if m = n then some client else s.holder? m := by
  unfold holder?
  rw [slots_atSlot]
  split
  · rename_i hm
    rw [hm, List.getElem?_eq_getElem hn]
    rfl
  · rfl

theorem lt_of_holder? {i : Nat} (h : s.holder? n = some i) : n < s.slots.length := by
  obtain ⟨l, hl, -⟩ := Option.bind_eq_some_iff.mp h
  exact (List.getElem?_eq_some_iff.mp hl).1

end Views

/-- The engine with a new slot for a player. -/
def withSlot (s : SharedEngine ρ) (key : String) : SharedEngine ρ :=
  { s with table := s.table.insert key s.slots.length, slots := s.slots ++ [LockedSlot.fresh] }

section Views

variable (s : SharedEngine ρ) (key : String) (m : Nat)

@[simp] theorem stage_withSlot : (s.withSlot key).stage = s.stage := rfl

@[simp] theorem length_withSlot : (s.withSlot key).slots.length = s.slots.length + 1 :=
  List.length_append

theorem table_withSlot (k : String) : (s.withSlot key).table.get? k
    = if key = k then some s.slots.length else s.table.get? k := Dict.get?_insert ..

theorem slots_withSlot (hm : m ≠ s.slots.length) : (s.withSlot key).slots[m]? = s.slots[m]? := by
  by_cases hlt : m < s.slots.length
  · exact List.getElem?_append_left hlt
  · have hout : (s.withSlot key).slots.length ≤ m := by
      rw [length_withSlot]
      omega
    rw [List.getElem?_eq_none hout, List.getElem?_eq_none (by omega)]

@[simp] theorem holder?_withSlot : (s.withSlot key).holder? m = s.holder? m := by
  by_cases hm : m = s.slots.length
  · subst hm
    simp [holder?, withSlot, LockedSlot.fresh]
  · unfold holder?
    rw [slots_withSlot s key m hm]

theorem content?_withSlot : (s.withSlot key).content? m
    = if m = s.slots.length then some .unloaded else s.content? m := by
  by_cases hm : m = s.slots.length
  · subst hm
    simp [content?, withSlot, LockedSlot.fresh]
  · rw [if_neg hm]
    unfold content?
    rw [slots_withSlot s key m hm]

end Views

/-! ## The invariant -/

/-- A slot that holds a journal. -/
def Loaded (s : SharedEngine ρ) (n : Nat) : Prop := ∃ j dirty, s.content? n = some (.loaded j dirty)

/-- The part of the lock invariant about one stage, if slots belong to players as `owner` says. -/
def Fits (owner : Nat → String) (s : SharedEngine ρ) : Stage → Prop
  | .idle | .seeking _ _ | .leaving _ _ | .publishing _ => True
  | .waiting username _ n => n < s.slots.length ∧ owner n = playerKey username
  | .arriving username _ n => owner n = playerKey username
  | .loading username _ n => owner n = playerKey username ∧ s.content? n = some .unloaded
  | .opening username _ n | .saving username n _ _ | .closing username n _
  | .flushing username n => owner n = playerKey username ∧ s.Loaded n
  | .holding username _ n j =>
    owner n = playerKey username ∧ ∃ dirty, s.content? n = some (.loaded j dirty)
  | .removing username n => owner n = playerKey username
    ∧ (s.content? n = some .unloaded ∨ ∃ j, s.content? n = some (.loaded j false))
  | .marking n => s.table.get? (owner n) ≠ some n

/-- The lock invariant: slots belong to players as `owner` says, clients have the locks that their
stages need, and a slot that holds anything is in the table or is just being given up. -/
structure Guarded (owner : Nat → String) (s : SharedEngine ρ) : Prop where
  made : ∀ key n, s.table.get? key = some n → n < s.slots.length ∧ owner n = key
  held : ∀ i n, (s.stage i).lock? = some n ↔ s.holder? n = some i
  fits : ∀ i, s.Fits owner (s.stage i)
  live : ∀ n slot, s.content? n = some slot →
    s.table.get? (owner n) = some n ∨ ∃ i, s.stage i = .marking n

/-- `Fits` is stable if the slot whose lock the client has is not touched and no older slot comes
into the table. -/
theorem Fits.frame {owner owner' : Nat → String} {s s' : SharedEngine ρ} {a : Stage}
    (h : s.Fits owner a) (howner : ∀ n, n < s.slots.length → owner' n = owner n)
    (hlock : ∀ n, a.lock? = some n → n < s.slots.length ∧ s'.content? n = s.content? n)
    (hlength : s.slots.length ≤ s'.slots.length)
    (htable : ∀ key n, n < s.slots.length → s'.table.get? key = some n →
      s.table.get? key = some n) : s'.Fits owner' a := by
  cases a with
  | idle => trivial
  | seeking => trivial
  | leaving => trivial
  | publishing => trivial
  | waiting username errand n =>
      exact ⟨Nat.lt_of_lt_of_le h.1 hlength, (howner n h.1).trans h.2⟩
  | arriving username errand n => exact (howner n (hlock n rfl).1).trans h
  | marking n =>
      intro hin
      rw [howner n (hlock n rfl).1] at hin
      exact h (htable _ n (hlock n rfl).1 hin)
  | _ =>
      obtain ⟨hn, hcontent⟩ := hlock _ rfl
      obtain ⟨howned, hrest⟩ := h
      refine ⟨(howner _ hn).trans howned, ?_⟩
      simpa only [Loaded, hcontent] using hrest

namespace Guarded

variable {owner : Nat → String} {s s' : SharedEngine ρ} {i n : Nat} {a b : Stage}

theorem relies (h : s.Guarded owner) (ha : s.stage i = a) : s.Fits owner a := ha ▸ h.fits i

theorem lt_of_lock (h : s.Guarded owner) (hlock : (s.stage i).lock? = some n) :
    n < s.slots.length := lt_of_holder? ((h.held i n).mp hlock)

theorem lock_unique (h : s.Guarded owner) {k : Nat} (hi : (s.stage i).lock? = some n)
    (hk : (s.stage k).lock? = some n) : i = k :=
  Option.some.inj (((h.held i n).mp hi).symm.trans ((h.held k n).mp hk))

/-- A client that works on a slot that holds anything works on the one in the table. -/
theorem inTable (h : s.Guarded owner) (ha : s.stage i = a) (hlock : a.lock? = some n)
    (hmarking : a ≠ .marking n) {slot : Slot} (hcontent : s.content? n = some slot) :
    s.table.get? (owner n) = some n := by
  subst ha
  rcases h.live n slot hcontent with htable | ⟨k, hk⟩
  · exact htable
  · have hki := h.lock_unique hlock (show (s.stage k).lock? = some n by rw [hk]; rfl)
    exact absurd (hki ▸ hk) hmarking

/-- A client with a journal in hand works on the slot of the player in the table. -/
theorem guarding (h : s.Guarded owner) {key : String} (hguards : (s.stage i).guards? = some key) :
    ∃ n, (s.stage i).lock? = some n ∧ s.table.get? key = some n ∧ s.Loaded n := by
  have hfits := h.fits i
  have htable : ∀ n, (s.stage i).lock? = some n → s.stage i ≠ .marking n → owner n = key →
      s.Loaded n → s.table.get? key = some n := by
    rintro n hlock hmarking rfl ⟨j, dirty, hcontent⟩
    exact h.inTable rfl hlock hmarking hcontent
  cases hstage : s.stage i with
  | holding username rule n j =>
      rw [hstage] at hguards hfits htable
      cases hguards
      obtain ⟨howner, dirty, hcontent⟩ := hfits
      have hloaded : s.Loaded n := ⟨j, dirty, hcontent⟩
      exact ⟨n, rfl, htable n rfl (fun h => by cases h) howner hloaded, hloaded⟩
  | saving username n news answer =>
      rw [hstage] at hguards hfits htable
      cases hguards
      exact ⟨n, rfl, htable n rfl (fun h => by cases h) hfits.1 hfits.2, hfits.2⟩
  | closing username n parting =>
      rw [hstage] at hguards hfits htable
      cases hguards
      exact ⟨n, rfl, htable n rfl (fun h => by cases h) hfits.1 hfits.2, hfits.2⟩
  | _ =>
      rw [hstage] at hguards
      cases hguards

/-- No two clients have the journal of one player in hand. -/
theorem guards_unique (h : s.Guarded owner) {key : String} {k : Nat}
    (hi : (s.stage i).guards? = some key) (hk : (s.stage k).guards? = some key) : i = k := by
  obtain ⟨n, hlock, htable, -⟩ := h.guarding hi
  obtain ⟨m, hlock', htable', -⟩ := h.guarding hk
  cases htable.symm.trans htable'
  exact h.lock_unique hlock hlock'

/-- While a client is about to take a journal in hand, nobody has it in hand. -/
theorem free_of_opening (h : s.Guarded owner) {username : String} {rule : Journal → Ruling Answer}
    (hstage : s.stage i = .opening username rule n) (k : Nat) :
    (s.stage k).guards? ≠ some (playerKey username) := by
  obtain ⟨howner, j, dirty, hcontent⟩ := h.relies hstage
  have hin := h.inTable hstage rfl nofun hcontent
  rw [howner] at hin
  intro hk
  -- whoever has it in hand has the lock of its slot, and is then the client itself
  obtain ⟨m, hlock, htable, -⟩ := h.guarding hk
  cases htable.symm.trans hin
  have hki := h.lock_unique hlock (show (s.stage i).lock? = some n from hstage ▸ rfl)
  rw [hki, hstage] at hk
  cases hk

/-- Preservation by a step of a client on the slot whose lock it has: it can change the content of
the slot, make the table forget the slot, and give the lock back. -/
theorem work (h : s.Guarded owner) (hlock : (s.stage i).lock? = some n)
    (hb : b.lock? = some n ∨ b.lock? = none)
    (hstage : ∀ k, s'.stage k = if k = i then b else s.stage k)
    (hlength : s'.slots.length = s.slots.length)
    (hcontent : ∀ m, m ≠ n → s'.content? m = s.content? m)
    (hholder : ∀ m, s'.holder? m = if m = n ∧ b.lock? = none then none else s.holder? m)
    (htable : ∀ key m, m ≠ n → (s'.table.get? key = some m ↔ s.table.get? key = some m))
    (hforget : ∀ key, s'.table.get? key = some n → s.table.get? key = some n)
    (hfits : s'.Fits owner b)
    (hlive : ∀ slot, s'.content? n = some slot →
      s'.table.get? (owner n) = some n ∨ b = .marking n) : s'.Guarded owner where
  made key m hm := by
    rw [hlength]
    by_cases hmn : m = n
    · subst hmn
      exact h.made key m (hforget key hm)
    · exact h.made key m ((htable key m hmn).mp hm)
  held k m := by
    have hself := (h.held i n).mp hlock
    rw [hstage, hholder]
    by_cases hk : k = i
    · subst hk
      rw [if_pos rfl]
      by_cases hm : m = n
      · subst hm
        rcases hb with hb | hb <;> simp [hb, hself]
      · have hother : s.holder? m ≠ some k := fun hheld =>
          hm (Option.some.inj (((h.held k m).mpr hheld).symm.trans hlock))
        rcases hb with hb | hb <;> simp [hb, hm, hother, Ne.symm hm]
    · rw [if_neg hk, h.held k m]
      by_cases hm : m = n
      · subst hm
        have hother : ¬ i = k := fun h => hk h.symm
        by_cases hnone : b.lock? = none <;> simp [hnone, hself, hother]
      · simp [hm]
  fits k := by
    rw [hstage]
    by_cases hk : k = i
    · rw [if_pos hk]
      exact hfits
    · rw [if_neg hk]
      refine (h.fits k).frame (fun _ _ => rfl) (fun m hm => ⟨h.lt_of_lock hm, ?_⟩)
        (Nat.le_of_eq hlength.symm) fun key m _ hm => ?_
      · exact hcontent m fun hmn => hk (h.lock_unique hm (hmn ▸ hlock))
      · by_cases hmn : m = n
        · subst hmn
          exact hforget key hm
        · exact (htable key m hmn).mp hm
  live m slot hslot := by
    by_cases hmn : m = n
    · subst hmn
      rcases hlive slot hslot with hin | rfl
      · exact Or.inl hin
      · exact Or.inr ⟨i, by rw [hstage, if_pos rfl]⟩
    · rw [hcontent m hmn] at hslot
      rcases h.live m slot hslot with hin | ⟨k, hk⟩
      · exact Or.inl ((htable _ m hmn).mpr hin)
      · have hki : k ≠ i := by
          rintro rfl
          rw [hk] at hlock
          exact hmn (Option.some.inj hlock)
        exact Or.inr ⟨k, by rw [hstage, if_neg hki, hk]⟩

/-- Preservation by a step of a client without a lock that leaves all slots alone. -/
theorem pass (h : s.Guarded owner) (hlock : (s.stage i).lock? = none) (hb : b.lock? = none)
    (hstage : ∀ k, s'.stage k = if k = i then b else s.stage k) (hslots : s'.slots = s.slots)
    (htable : s'.table = s.table) (hfits : s'.Fits owner b) : s'.Guarded owner where
  made key m hm := by
    rw [hslots]
    exact h.made key m (htable ▸ hm)
  held k m := by
    have hholder : s'.holder? m = s.holder? m := by
      unfold holder?
      rw [hslots]
    rw [hstage, hholder, ← h.held k m]
    by_cases hk : k = i
    · subst hk
      rw [if_pos rfl, hb, hlock]
    · rw [if_neg hk]
  fits k := by
    rw [hstage]
    by_cases hk : k = i
    · rw [if_pos hk]
      exact hfits
    · rw [if_neg hk]
      refine (h.fits k).frame (fun _ _ => rfl) (fun m hm => ⟨h.lt_of_lock hm, ?_⟩)
        (Nat.le_of_eq (congrArg List.length hslots).symm) fun key m _ hm => htable ▸ hm
      unfold content?
      rw [hslots]
  live m slot hslot := by
    have hcontent : s'.content? m = s.content? m := by
      unfold content?
      rw [hslots]
    rw [hcontent] at hslot
    rcases h.live m slot hslot with hin | ⟨k, hk⟩
    · exact Or.inl (htable ▸ hin)
    · have hki : k ≠ i := by
        rintro rfl
        rw [hk] at hlock
        cases hlock
      exact Or.inr ⟨k, by rw [hstage, if_neg hki, hk]⟩

/-! ### Kinds of work -/

/-- The slot is not changed and the lock is kept. -/
theorem goOn (h : s.Guarded owner) (ha : s.stage i = a) (hlock : a.lock? = some n)
    (hmarking : a ≠ .marking n) (hb : b.lock? = some n)
    (hstage : ∀ k, s'.stage k = if k = i then b else s.stage k) (hslots : s'.slots = s.slots)
    (htable : s'.table = s.table) (hfits : s'.Fits owner b) : s'.Guarded owner := by
  subst ha
  have hcontent : ∀ m, s'.content? m = s.content? m := fun m => by
    unfold content?
    rw [hslots]
  have hholder : ∀ m, s'.holder? m = s.holder? m := fun m => by
    unfold holder?
    rw [hslots]
  refine h.work hlock (Or.inl hb) hstage (congrArg List.length hslots) (fun m _ => hcontent m)
    (fun m => ?_) (fun _ _ _ => by rw [htable]) (fun _ hin => htable ▸ hin) hfits
      fun slot hslot => ?_
  · simp [hb, hholder]
  · rw [hcontent] at hslot
    exact Or.inl (htable ▸ h.inTable rfl hlock hmarking hslot)

/-- The content of the slot is replaced. -/
theorem putIn (h : s.Guarded owner) (ha : s.stage i = a) (hlock : a.lock? = some n)
    (hin : s.table.get? (owner n) = some n) (hb : b.lock? = some n) {slot : Slot}
    (hstage : ∀ k, s'.stage k = if k = i then b else s.stage k)
    (hslots : s'.slots = (s.atSlot n (.hold slot)).slots) (htable : s'.table = s.table)
    (hfits : s'.Fits owner b) : s'.Guarded owner := by
  subst ha
  have hn := h.lt_of_lock hlock
  have hcontent : ∀ m, s'.content? m = if m = n then some slot else s.content? m := fun m => by
    rw [← content?_hold m hn]
    unfold content?
    rw [hslots]
  have hholder : ∀ m, s'.holder? m = s.holder? m := fun m => by
    rw [← holder?_hold s n m slot]
    unfold holder?
    rw [hslots]
  refine h.work hlock (Or.inl hb) hstage ?_ (fun m hm => (hcontent m).trans (if_neg hm))
    (fun m => ?_) (fun _ _ _ => by rw [htable]) (fun _ hin => htable ▸ hin) hfits
    fun _ _ => Or.inl (htable ▸ hin)
  · rw [hslots, length_atSlot]
  · simp [hb, hholder]

/-- The lock is given back. -/
theorem giveBack (h : s.Guarded owner) (ha : s.stage i = a) (hlock : a.lock? = some n)
    (hmarking : a ≠ .marking n) (hb : b.lock? = none)
    (hstage : ∀ k, s'.stage k = if k = i then b else s.stage k)
    (hslots : s'.slots = (s.atSlot n .unlock).slots) (htable : s'.table = s.table)
    (hfits : s'.Fits owner b) : s'.Guarded owner := by
  subst ha
  have hcontent : ∀ m, s'.content? m = s.content? m := fun m => by
    rw [← content?_unlock s n m]
    unfold content?
    rw [hslots]
  have hholder : ∀ m, s'.holder? m = if m = n then none else s.holder? m := fun m => by
    rw [← holder?_unlock s n m]
    unfold holder?
    rw [hslots]
  refine h.work hlock (Or.inr hb) hstage ?_ (fun m _ => hcontent m) (fun m => ?_)
    (fun _ _ _ => by rw [htable]) (fun _ hin => htable ▸ hin) hfits fun slot hslot => ?_
  · rw [hslots, length_atSlot]
  · simp [hb, hholder]
  · rw [hcontent] at hslot
    exact Or.inl (htable ▸ h.inTable rfl hlock hmarking hslot)

/-- A client that waits for a lock takes it. -/
theorem take (h : s.Guarded owner) {username : String} {errand : Errand}
    (hstage : s.stage i = .waiting username errand n) (hfree : s.holder? n = none) :
    ((s.atSlot n (.lock i)).enter i (.arriving username errand n)).Guarded owner := by
  obtain ⟨hn, howner⟩ := h.relies hstage
  have hnone : ∀ k, (s.stage k).lock? ≠ some n := fun k hk => by
    rw [h.held, hfree] at hk
    cases hk
  refine ⟨fun key m hm => ?_, fun k m => ?_, fun k => ?_, fun m slot hslot => ?_⟩
  · simpa using h.made key m hm
  · rw [stage_enter, holder?_enter, holder?_lock i m hn]
    by_cases hk : k = i
    · subst hk
      have hunlocked := h.held k m
      rw [hstage] at hunlocked
      by_cases hm : m = n
      · simp [hm, Stage.lock?]
      · simp [hm, Stage.lock?, Ne.symm hm, ← hunlocked]
    · have hother : ¬ i = k := fun h => hk h.symm
      by_cases hm : m = n
      · simp [hm, hk, hother, hnone k]
      · simp [hm, hk, h.held k m]
  · rw [stage_enter]
    by_cases hk : k = i
    · rw [if_pos hk]
      exact howner
    · rw [if_neg hk]
      exact (h.fits k).frame (fun _ _ => rfl) (fun m hm => ⟨h.lt_of_lock hm, by simp⟩)
        (by simp) fun key m _ hm => by simpa using hm
  · rcases h.live m slot (by simpa using hslot) with hin | ⟨k, hk⟩
    · exact Or.inl (by simpa using hin)
    · have hki : k ≠ i := by
        rintro rfl
        rw [hstage] at hk
        cases hk
      exact Or.inr ⟨k, by rw [stage_enter, if_neg hki]; exact hk⟩

/-- A client that finds no slot of a player makes one. -/
theorem make (h : s.Guarded owner) {username : String} (errand : Errand)
    (hlock : (s.stage i).lock? = none) (hnone : s.table.get? (playerKey username) = none) :
    ((s.withSlot (playerKey username)).enter i
      (.waiting username errand s.slots.length)).Guarded
      fun m => if m = s.slots.length then playerKey username else owner m := by
  have howner : ∀ m, m < s.slots.length →
      (if m = s.slots.length then playerKey username else owner m) = owner m :=
    fun m hm => if_neg (Nat.ne_of_lt hm)
  have hnew : ∀ {key m}, m < s.slots.length →
      (s.withSlot (playerKey username)).table.get? key = some m → s.table.get? key = some m := by
    intro key m hm hin
    rw [table_withSlot] at hin
    split at hin
    · cases hin
      exact absurd hm (Nat.lt_irrefl _)
    · exact hin
  refine ⟨fun key m hm => ?_, fun k m => ?_, fun k => ?_, fun m slot hslot => ?_⟩
  · rw [table_enter, table_withSlot] at hm
    rw [slots_enter, length_withSlot]
    split at hm
    · rename_i hkey
      cases hm
      exact ⟨Nat.lt_succ_self _, (if_pos rfl).trans hkey⟩
    · obtain ⟨hlt, howned⟩ := h.made key m hm
      exact ⟨Nat.lt_succ_of_lt hlt, (howner m hlt).trans howned⟩
  · rw [stage_enter, stage_withSlot, holder?_enter, holder?_withSlot, ← h.held k m]
    by_cases hk : k = i
    · subst hk
      rw [if_pos rfl, hlock]
      rfl
    · rw [if_neg hk]
  · rw [stage_enter, stage_withSlot]
    by_cases hk : k = i
    · rw [if_pos hk]
      exact ⟨by rw [slots_enter, length_withSlot]; exact Nat.lt_succ_self _, if_pos rfl⟩
    · rw [if_neg hk]
      refine (h.fits k).frame howner (fun m hm => ?_) ?_ fun key m hm hin => hnew hm hin
      · have hlt := h.lt_of_lock hm
        refine ⟨hlt, ?_⟩
        rw [content?_enter, content?_withSlot, if_neg (Nat.ne_of_lt hlt)]
      · rw [slots_enter, length_withSlot]
        exact Nat.le_succ _
  · rw [content?_enter, content?_withSlot] at hslot
    rw [table_enter, table_withSlot]
    split at hslot
    · rename_i hm
      subst hm
      exact Or.inl (by simp)
    · rename_i hm
      rcases h.live m slot hslot with hin | ⟨k, hk⟩
      · have hne : playerKey username ≠ owner m := fun heq => by
          rw [heq, hin] at hnone
          cases hnone
        exact Or.inl (by rw [if_neg hm, if_neg hne]; exact hin)
      · have hki : k ≠ i := by
          rintro rfl
          rw [hk] at hlock
          cases hlock
        exact Or.inr ⟨k, by rw [stage_enter, if_neg hki]; exact hk⟩

end Guarded

/-! ## Every step -/

section Steps

variable {owner : Nat → String} {s : SharedEngine ρ} {i n : Nat} {username : String}
  {errand : Errand} {rule : Journal → Ruling Answer}

theorem guarded_seek (h : s.Guarded owner) (hstage : s.stage i = .seeking username errand) :
    (s.seek i username errand).Guarded owner
    ∨ s.table.get? (playerKey username) = none
      ∧ (s.seek i username errand).Guarded
        fun m => if m = s.slots.length then playerKey username else owner m := by
  have hlock : (s.stage i).lock? = none := hstage ▸ rfl
  unfold seek
  simp only [table_note]
  split
  · rename_i slot hslot
    exact Or.inl (h.pass hlock rfl (fun _ => rfl) rfl rfl (h.made _ _ hslot))
  · rename_i hnone
    refine Or.inr ⟨hnone, ?_⟩
    have hnoted : (s.note (.lookedUp i (playerKey username))).Guarded owner :=
      h.pass hlock hlock (fun k => by by_cases hk : k = i <;> simp [hk]) rfl rfl (h.fits i)
    exact hnoted.make _ hlock hnone
  · exact Or.inl (h.pass hlock rfl (fun _ => rfl) rfl rfl trivial)

theorem guarded_arrive (h : s.Guarded owner)
    (hstage : s.stage i = .arriving username errand n) :
    (s.arrive i username errand n).Guarded owner := by
  have howner : owner n = playerKey username := h.relies hstage
  have hgoOn : ∀ b : Stage, b.lock? = some n → s.Fits owner b → (s.enter i b).Guarded owner :=
    fun b hb hfits => h.goOn hstage rfl nofun hb (fun _ => rfl) rfl rfl hfits
  unfold arrive
  split
  · exact h.giveBack hstage rfl nofun rfl (fun _ => rfl) rfl rfl trivial
  · exact hgoOn _ rfl trivial
  · rename_i hcontent
    exact hgoOn _ rfl ⟨howner, hcontent⟩
  · rename_i hcontent
    exact hgoOn _ rfl ⟨howner, _, _, hcontent⟩
  · rename_i hcontent
    exact hgoOn _ rfl ⟨howner, _, _, hcontent⟩
  · rename_i slot hclean hcontent
    refine hgoOn _ rfl ⟨howner, ?_⟩
    rcases slot with _ | ⟨j, _ | _⟩
    · exact Or.inl hcontent
    · exact Or.inr ⟨j, hcontent⟩
    · exact absurd rfl (hclean j)

theorem guarded_openJournal (h : s.Guarded owner)
    (hstage : s.stage i = .opening username rule n) :
    (s.openJournal i username rule n).Guarded owner := by
  obtain ⟨howner, j, dirty, hcontent⟩ := h.relies hstage
  simp only [openJournal, hcontent]
  exact h.goOn hstage rfl nofun rfl (fun _ => rfl) rfl rfl ⟨howner, dirty, hcontent⟩

/-- What is put into a slot is in it. -/
theorem Guarded.content?_hold (h : s.Guarded owner) {a : Stage} (ha : s.stage i = a)
    (hlock : a.lock? = some n) (slot : Slot) :
    (s.atSlot n (.hold slot)).content? n = some slot := by
  subst ha
  exact (SharedEngine.content?_hold n (h.lt_of_lock hlock) slot).trans (if_pos rfl)

theorem guarded_apply (h : s.Guarded owner) {j : Journal}
    (hstage : s.stage i = .holding username rule n j) :
    (s.apply i username rule n j).Guarded owner := by
  obtain ⟨howner, dirty, hcontent⟩ := h.relies hstage
  have hin := h.inTable hstage rfl nofun hcontent
  have hself := h.content?_hold hstage rfl
  unfold apply
  split
  · exact h.goOn hstage rfl nofun rfl (fun _ => rfl) rfl rfl ⟨howner, j, dirty, hcontent⟩
  · exact h.putIn hstage rfl hin rfl (fun _ => rfl) rfl rfl ⟨howner, _, true, hself _⟩
  · exact h.putIn hstage rfl hin rfl (fun _ => rfl) rfl rfl ⟨howner, _, true, hself _⟩

theorem guarded_close (h : s.Guarded owner) {parting : Parting}
    (hstage : s.stage i = .closing username n parting) :
    (s.close i username n parting).Guarded owner := by
  obtain ⟨-, j, dirty, hcontent⟩ := h.relies hstage
  simp only [close, hcontent]
  exact h.giveBack hstage rfl nofun rfl (fun _ => rfl) rfl rfl trivial

/-- The slot that a client is about to take out of the table is in it. -/
theorem Guarded.removing (h : s.Guarded owner) (hstage : s.stage i = .removing username n) :
    s.table.get? (playerKey username) = some n := by
  obtain ⟨howner, hcontent | ⟨j, hcontent⟩⟩ := h.relies hstage
  · exact howner ▸ h.inTable hstage rfl nofun hcontent
  · exact howner ▸ h.inTable hstage rfl nofun hcontent

theorem remove_eq (h : s.Guarded owner) (hstage : s.stage i = .removing username n) :
    s.remove i username n = ({ s with table := s.table.erase (playerKey username) }.note
      (.removed i (playerKey username))).enter i (.marking n) := by
  simp only [remove, h.removing hstage, if_true]

theorem guarded_remove (h : s.Guarded owner) (hstage : s.stage i = .removing username n) :
    (s.remove i username n).Guarded owner := by
  have hin := h.removing hstage
  have howner : owner n = playerKey username := (h.relies hstage).1
  have herased : ∀ key, (s.table.erase (playerKey username)).get? key
      = if playerKey username = key then none else s.table.get? key :=
    Dict.get?_erase s.table (playerKey username)
  rw [remove_eq h hstage]
  refine h.work (hstage ▸ rfl) (Or.inl rfl) (fun _ => rfl) rfl (fun _ _ => rfl)
    (fun m => ?_) (fun key m hm => ?_) (fun key hforget => ?_) ?_ (fun _ _ => Or.inr rfl)
  · exact (if_neg fun hnone => by cases hnone.2).symm
  · show (s.table.erase (playerKey username)).get? key = some m ↔ _
    rw [herased]
    split
    · rename_i hkey
      subst hkey
      refine ⟨nofun, fun hin' => ?_⟩
      exact absurd (Option.some.inj (hin'.symm.trans hin)) hm
    · exact Iff.rfl
  · have hforget : (s.table.erase (playerKey username)).get? key = some n := hforget
    rw [herased] at hforget
    split at hforget
    · cases hforget
    · exact hforget
  · show (s.table.erase (playerKey username)).get? (owner n) ≠ some n
    rw [herased, if_pos howner.symm]
    exact nofun

theorem guarded_mark (h : s.Guarded owner) (hstage : s.stage i = .marking n)
    (parting : Parting) :
    ((s.atSlot n .giveUp).enter i (.leaving n parting)).Guarded owner := by
  refine h.work (hstage ▸ rfl) (Or.inl rfl) (fun _ => rfl) ?_ (fun m hm => ?_) (fun m => ?_)
    (fun _ _ _ => Iff.rfl) (fun _ hin => hin) trivial fun slot hslot => ?_
  · rw [slots_enter, length_atSlot]
  · rw [content?_enter, content?_giveUp, if_neg hm]
  · rw [holder?_enter, holder?_giveUp]
    exact (if_neg fun hnone => by cases hnone.2).symm
  · rw [content?_enter, content?_giveUp, if_pos rfl] at hslot
    cases hslot

theorem guarded_leave (h : s.Guarded owner) {parting : Parting}
    (hstage : s.stage i = .leaving n parting) :
    ((s.atSlot n .unlock).enter i (.publishing parting)).Guarded owner :=
  h.giveBack hstage rfl nofun rfl (fun _ => rfl) rfl rfl trivial

theorem guarded_publish (h : s.Guarded owner) {parting : Parting}
    (hstage : s.stage i = .publishing parting) : (s.publish i parting).Guarded owner := by
  have hlock : (s.stage i).lock? = none := hstage ▸ rfl
  rcases parting with ⟨_ | ⟨n, news⟩, answer⟩
  · exact h.pass hlock rfl (fun _ => rfl) rfl rfl trivial
  · exact h.pass hlock rfl (fun _ => rfl) rfl rfl trivial

theorem guarded_begin (h : s.Guarded owner) {plan : Plan} {s' : SharedEngine ρ}
    (hbegin : s.begin? i plan = some s') : s'.Guarded owner := by
  cases begins_of_begin? hbegin with
  | settled hidle => exact h.pass (hidle ▸ rfl) rfl (fun _ => rfl) rfl rfl trivial
  | consult hidle => exact h.pass (hidle ▸ rfl) rfl (fun _ => rfl) rfl rfl trivial
  | evict hidle => exact h.pass (hidle ▸ rfl) rfl (fun _ => rfl) rfl rfl trivial

variable [Repository ρ]

theorem guarded_load (h : s.Guarded owner) (c : Circumstances)
    (hstage : s.stage i = .loading username rule n) :
    (s.load c i username rule n).Guarded owner := by
  obtain ⟨howner, hcontent⟩ := h.relies hstage
  unfold load
  split
  · rename_i j _
    exact h.putIn hstage rfl (h.inTable hstage rfl nofun hcontent) rfl (fun _ => rfl) rfl rfl
      ⟨howner, j, false, h.content?_hold hstage rfl _⟩
  · exact h.goOn hstage rfl nofun rfl (fun _ => rfl) rfl rfl trivial

/-- The journal in a slot is written, and counts as written if that succeeds. -/
theorem write_cases (s : SharedEngine ρ) (c : Circumstances) (i : Nat) {n : Nat} {j : Journal}
    {dirty : Bool} (hcontent : s.content? n = some (.loaded j dirty)) :
    (∃ e, s.write c i n = ((s.atSlot n (.hold (.loaded (j.touch c.savedAt) dirty))).note
      (.saved i (j.touch c.savedAt) false), .error e))
    ∨ s.write c i n = (({ s with
        repository := Repository.save s.repository (j.touch c.savedAt) }.atSlot n
          (.hold (.loaded (j.touch c.savedAt) false))).note
            (.saved i (j.touch c.savedAt) true), .ok ()) := by
  simp only [write, hcontent, Repository.write]
  cases c.saveFault with
  | none => exact Or.inr rfl
  | some fault => exact Or.inl ⟨_, rfl⟩

theorem guarded_save (h : s.Guarded owner) (c : Circumstances) {news : List Notification}
    {answer : Answer} (hstage : s.stage i = .saving username n news answer) (parting : Parting) :
    ((s.write c i n).1.enter i (.closing username n parting)).Guarded owner := by
  obtain ⟨howner, j, dirty, hcontent⟩ := h.relies hstage
  have hin := h.inTable hstage rfl nofun hcontent
  have hself := h.content?_hold hstage rfl
  rcases s.write_cases c i hcontent with ⟨e, hwrite⟩ | hwrite
  · rw [hwrite]
    exact h.putIn hstage rfl hin rfl (fun _ => rfl) rfl rfl ⟨howner, _, _, hself _⟩
  · rw [hwrite]
    exact h.putIn hstage rfl hin rfl (fun _ => rfl) rfl rfl ⟨howner, _, _, hself _⟩

/-- The journal of a player who leaves is written. -/
theorem guarded_flush (h : s.Guarded owner) (c : Circumstances)
    (hstage : s.stage i = .flushing username n) (hwritten : (s.write c i n).2 = .ok ()) :
    ((s.write c i n).1.enter i (.removing username n)).Guarded owner := by
  obtain ⟨howner, j, dirty, hcontent⟩ := h.relies hstage
  have hin := h.inTable hstage rfl nofun hcontent
  have hself := h.content?_hold hstage rfl
  rcases s.write_cases c i hcontent with ⟨e, hwrite⟩ | hwrite
  · rw [hwrite] at hwritten
    cases hwritten
  · rw [hwrite]
    exact h.putIn hstage rfl hin rfl (fun _ => rfl) rfl rfl ⟨howner, Or.inr ⟨_, hself _⟩⟩

/-- It is not, and the player stays. -/
theorem guarded_flushFailed (h : s.Guarded owner) (c : Circumstances)
    (hstage : s.stage i = .flushing username n) (parting : Parting) :
    ((s.write c i n).1.enter i (.leaving n parting)).Guarded owner := by
  obtain ⟨howner, j, dirty, hcontent⟩ := h.relies hstage
  have hin := h.inTable hstage rfl nofun hcontent
  rcases s.write_cases c i hcontent with ⟨e, hwrite⟩ | hwrite
  · rw [hwrite]
    exact h.putIn hstage rfl hin rfl (fun _ => rfl) rfl rfl trivial
  · rw [hwrite]
    exact h.putIn hstage rfl hin rfl (fun _ => rfl) rfl rfl trivial

theorem guarded_step (h : s.Guarded owner) (c : Circumstances) {s' : SharedEngine ρ}
    (hstep : s.step? c i = some s') : ∃ owner', s'.Guarded owner' := by
  cases advance_of_step? hstep with
  | seek hstage =>
      rcases guarded_seek h hstage with hseek | ⟨-, hseek⟩
      · exact ⟨owner, hseek⟩
      · exact ⟨_, hseek⟩
  | take hstage hfree => exact ⟨owner, h.take hstage hfree⟩
  | arrive hstage => exact ⟨owner, guarded_arrive h hstage⟩
  | load hstage => exact ⟨owner, guarded_load h c hstage⟩
  | openJournal hstage => exact ⟨owner, guarded_openJournal h hstage⟩
  | apply hstage => exact ⟨owner, guarded_apply h hstage⟩
  | save hstage => exact ⟨owner, guarded_save h c hstage _⟩
  | close hstage => exact ⟨owner, guarded_close h hstage⟩
  | flush hstage hwritten => exact ⟨owner, guarded_flush h c hstage hwritten⟩
  | flushFailed hstage => exact ⟨owner, guarded_flushFailed h c hstage _⟩
  | remove hstage => exact ⟨owner, guarded_remove h hstage⟩
  | mark hstage => exact ⟨owner, guarded_mark h hstage _⟩
  | leave hstage => exact ⟨owner, guarded_leave h hstage⟩
  | publish hstage => exact ⟨owner, guarded_publish h hstage⟩

theorem guarded_move (h : s.Guarded owner) {m : Move} {s' : SharedEngine ρ}
    (hmove : s.move? m = some s') : ∃ owner', s'.Guarded owner' := by
  cases m with
  | start client plan => exact ⟨owner, guarded_begin h hmove⟩
  | proceed client c => exact guarded_step h c hmove

/-- Run lemma: every run preserves the lock invariant. -/
theorem guarded_run (h : s.Guarded owner) {moves : List Move} {s' : SharedEngine ρ}
    (hrun : s.run? moves = some s') : ∃ owner', s'.Guarded owner' := by
  induction moves generalizing s owner with
  | nil =>
      cases hrun
      exact ⟨owner, h⟩
  | cons m moves ih =>
      obtain ⟨s₁, hmove, hrest⟩ := Option.bind_eq_some_iff.mp hrun
      obtain ⟨owner₁, h₁⟩ := guarded_move h hmove
      exact ih h₁ hrest

end Steps

theorem guarded_new (repository : ρ) (limit : Nat) (owner : Nat → String) :
    (new repository limit).Guarded owner where
  made key n hn := by cases hn
  held i n := ⟨nofun, nofun⟩
  fits i := trivial
  live n slot hslot := by cases hslot

end SharedEngine

end Questline
