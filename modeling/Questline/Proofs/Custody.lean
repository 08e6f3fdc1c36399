import Questline.Proofs.Locking
import Questline.Proofs.Run

/-!
# Handover of journals between clients

A client has the journal of a player *in hand* from `Happening.opened`, when it holds the lock of
the slot and its rule is about to be applied to the journal in it, to `Happening.closed`, when the
ruling is carried out. The client that opens a journal finds the quest log that the client before
has closed, whatever is loaded, written, lost or given up in between (`handed_on`).

The place of a player is read off the slot in the table, if it holds a journal, and off the
repository else (`SharedEngine.place`). While nobody has the journal in hand, its quest log is the
one that was closed last (`SharedEngine.HandoverInvariant.left`): a journal is loaded only into the
slot in the table and removed from it only when it is stored as it is. Slots that were given up, and
those who wait for them, do not matter for it.

Two things are outside of this. A rule may put a journal under another name, by which it is saved;
and a repository of texts may read a number as another than was written. In both cases a journal is
not found as it was left, although nothing fails (`left_unfound`).
-/

namespace Questline

/-- A rule that does not change the lower-cased name on a journal. -/
def KeepsName (rule : Journal → Ruling Answer) : Prop :=
  ∀ j, playerKey ((rule j).journal j).username = playerKey j.username

/-! ## Views of the record -/

namespace Happening

/-- Whether it is an `opened` or a `closed`. -/
def isHandover : Happening → Bool
  | opened _ _ _ | closed _ _ _ => true
  | _ => false

end Happening

/-- The client that has the journal of a player in hand at the end of a record. -/
def inHand (key : String) (record : List Happening) : Option Nat :=
  record.foldl (fun holder h => match h with
    | .opened client k _ => if k = key then some client else holder
    | .closed _ k _ => if k = key then none else holder
    | _ => holder) none

/-- The quest log of the last `closed` of a player, and at first `initial`. -/
def lastLeft (initial : QuestLog) (key : String) (record : List Happening) : QuestLog :=
  record.foldl (fun left h => match h with
    | .closed _ k j => if k = key then j.log else left
    | _ => left) initial

section Record

variable (initial : QuestLog) (key : String) (record : List Happening)

theorem inHand_silent {h : Happening} (hsilent : h.isHandover = false) :
    inHand key (record ++ [h]) = inHand key record := by
  unfold inHand
  rw [List.foldl_append]
  cases h <;> first | rfl | cases hsilent

theorem inHand_opened (client : Nat) (k : String) (j : Journal) :
    inHand key (record ++ [.opened client k j])
      = if k = key then some client else inHand key record := by
  unfold inHand
  rw [List.foldl_append]
  rfl

theorem inHand_closed (client : Nat) (k : String) (j : Journal) :
    inHand key (record ++ [.closed client k j])
      = if k = key then none else inHand key record := by
  unfold inHand
  rw [List.foldl_append]
  rfl

theorem lastLeft_silent {h : Happening} (hsilent : h.isHandover = false) :
    lastLeft initial key (record ++ [h]) = lastLeft initial key record := by
  unfold lastLeft
  rw [List.foldl_append]
  cases h <;> first | rfl | cases hsilent

theorem lastLeft_opened (client : Nat) (k : String) (j : Journal) :
    lastLeft initial key (record ++ [.opened client k j]) = lastLeft initial key record := by
  unfold lastLeft
  rw [List.foldl_append]
  rfl

theorem lastLeft_closed (client : Nat) (k : String) (j : Journal) :
    lastLeft initial key (record ++ [.closed client k j])
      = if k = key then j.log else lastLeft initial key record := by
  unfold lastLeft
  rw [List.foldl_append]
  rfl

end Record

/-! ## The place of a player -/

/-- The journals of a place bear the player's name, and one in use that is not dirty has the quest
log of the record. -/
structure Place.Coherent (key : String) (p : Place) : Prop where
  record_keyed : ∀ r, p.record = some r → playerKey r.username = key
  slot_keyed : ∀ j dirty, p.slot = some (.loaded j dirty) → playerKey j.username = key
  clean : ∀ j, p.slot = some (.loaded j false) → (Place.mk none p.record).log = j.log

namespace Place

theorem Coherent.of_not_loaded {key : String} {slot : Option Slot} {record : Option Journal}
    (hslot : slot = none ∨ slot = some .unloaded)
    (hrecord : ∀ r, record = some r → playerKey r.username = key) :
    (Place.mk slot record).Coherent key where
  record_keyed := hrecord
  slot_keyed j dirty h := by rcases hslot with rfl | rfl <;> cases h
  clean j h := by rcases hslot with rfl | rfl <;> cases h

/-- A dirty journal only needs to bear the name. -/
theorem Coherent.dirty {key : String} {p : Place} (h : p.Coherent key) {j : Journal}
    (hj : playerKey j.username = key) :
    (Place.mk (some (.loaded j true)) p.record).Coherent key where
  record_keyed := h.record_keyed
  slot_keyed i dirty hi := by cases hi; exact hj
  clean i hi := by cases hi

/-- A journal that is written is the stored one. -/
theorem Coherent.stored {key : String} {j : Journal} (hj : playerKey j.username = key) :
    (Place.mk (some (.loaded j false)) (some j)).Coherent key where
  record_keyed r hr := by cases hr; exact hj
  slot_keyed i dirty hi := by cases hi; exact hj
  clean i hi := by cases hi; rfl

end Place

namespace SharedEngine

variable {ρ : Type} [Repository ρ] [TableRepository ρ]

/-- The stored journals. -/
def records (s : SharedEngine ρ) : Dict Journal := TableRepository.records s.repository

/-- The place of the player of a lower-cased name: the content of the slot in the table, and the
record of the repository. -/
def place (s : SharedEngine ρ) (key : String) : Place :=
  ⟨(s.table.get? key).bind s.content?, s.records.get? key⟩

section Views

variable (s : SharedEngine ρ) (client n : Nat) (key : String)

@[simp] theorem place_enter (b : Stage) : (s.enter client b).place key = s.place key := rfl

@[simp] theorem place_note (h : Happening) : (s.note h).place key = s.place key := rfl

@[simp] theorem place_lock : (s.atSlot n (.lock client)).place key = s.place key := by
  simp only [place, table_atSlot, records, repository_atSlot,
    funext fun m => content?_lock s client n m]

@[simp] theorem place_unlock : (s.atSlot n .unlock).place key = s.place key := by
  simp only [place, table_atSlot, records, repository_atSlot,
    funext fun m => content?_unlock s n m]

variable {n}

theorem place_hold (hn : n < s.slots.length) (slot : Slot) :
    (s.atSlot n (.hold slot)).place key
      = if s.table.get? key = some n then ⟨some slot, (s.place key).record⟩ else s.place key := by
  simp only [place, table_atSlot, records, repository_atSlot]
  cases htable : s.table.get? key with
  | none => simp
  | some m =>
      rw [Option.bind_some, content?_hold m hn]
      by_cases hm : m = n
      · simp [hm]
      · simp [hm]

theorem place_giveUp (hn : s.table.get? key ≠ some n) :
    (s.atSlot n .giveUp).place key = s.place key := by
  simp only [place, table_atSlot, records, repository_atSlot]
  cases htable : s.table.get? key with
  | none => rfl
  | some m =>
      have hm : m ≠ n := fun h => hn (h ▸ htable)
      rw [Option.bind_some, Option.bind_some, content?_giveUp, if_neg hm]

theorem place_erase (k : String) :
    ({ s with table := s.table.erase k } : SharedEngine ρ).place key
      = if k = key then ⟨none, (s.place k).record⟩ else s.place key := by
  simp only [place, records, Dict.get?_erase]
  by_cases hk : k = key
  · rw [if_pos hk, if_pos hk, hk]
    rfl
  · rw [if_neg hk, if_neg hk]
    rfl

theorem place_stored (j : Journal) :
    ({ s with repository := Repository.save s.repository j } : SharedEngine ρ).place key
      = if playerKey j.username = key then ⟨(s.place key).slot, some j⟩ else s.place key := by
  simp only [place, records, TableRepository.records_save, Dict.get?_insert]
  by_cases hk : playerKey j.username = key
  · rw [if_pos hk, if_pos hk]
    rfl
  · rw [if_neg hk, if_neg hk]
    rfl

end Views

end SharedEngine

/-- The rule that a client has still to apply. -/
def Errand.rule? : Errand → Option (Journal → Ruling Answer)
  | consult rule => some rule
  | evict => none

def Stage.rule? : Stage → Option (Journal → Ruling Answer)
  | seeking _ errand | waiting _ errand _ | arriving _ errand _ => errand.rule?
  | loading _ rule _ | opening _ rule _ | holding _ rule _ _ => some rule
  | _ => none

namespace SharedEngine

variable {ρ : Type} [Repository ρ] [TableRepository ρ]

/-- The invariant of `handed_on`: the record and the stages agree on who has a journal in hand,
every `opened` of the record shows the quest log of the `closed` before it, and the place of a
player whose journal nobody has in hand shows that of the last `closed`. -/
structure HandoverInvariant (initial : String → QuestLog) (s : SharedEngine ρ) : Prop where
  coherent : ∀ key, (s.place key).Coherent key
  rules : ∀ i rule, (s.stage i).rule? = some rule → KeepsName rule
  inHand : ∀ key i, inHand key s.record = some i ↔ (s.stage i).guards? = some key
  left : ∀ key, (∀ i, (s.stage i).guards? ≠ some key) →
    (s.place key).log = lastLeft (initial key) key s.record
  passedOn : ∀ before i key j, before ++ [.opened i key j] <+: s.record →
    Questline.inHand key before = none ∧ j.log = lastLeft (initial key) key before

namespace HandoverInvariant

variable {initial : String → QuestLog} {owner : Nat → String} {s s' : SharedEngine ρ}
  {i n : Nat} {a b : Stage}

/-- The field `rules` after a step of one client. -/
theorem rules_moved (h : s.HandoverInvariant initial)
    (hstage : ∀ k, s'.stage k = if k = i then b else s.stage k)
    (hrules : ∀ rule, b.rule? = some rule → KeepsName rule) (k : Nat)
    (rule : Journal → Ruling Answer) (hrule : (s'.stage k).rule? = some rule) : KeepsName rule := by
  rw [hstage] at hrule
  by_cases hk : k = i
  · rw [if_pos hk] at hrule
    exact hrules rule hrule
  · rw [if_neg hk] at hrule
    exact h.rules k rule hrule

/-- Preservation by a step that opens and closes no journal. -/
theorem step (h : s.HandoverInvariant initial) (ha : s.stage i = a)
    (hstage : ∀ k, s'.stage k = if k = i then b else s.stage k) (hguards : b.guards? = a.guards?)
    (hrules : ∀ rule, b.rule? = some rule → KeepsName rule)
    (hrecord : s'.record = s.record ∨ ∃ g, s'.record = s.record ++ [g] ∧ g.isHandover = false)
    (hcoherent : ∀ key, (s'.place key).Coherent key)
    (hlog : ∀ key, (∀ k, (s.stage k).guards? ≠ some key) →
      (s'.place key).log = (s.place key).log) : s'.HandoverInvariant initial := by
  have hsame : ∀ k, (s'.stage k).guards? = (s.stage k).guards? := by
    intro k
    rw [hstage]
    by_cases hk : k = i
    · rw [if_pos hk, hk, ha, hguards]
    · rw [if_neg hk]
  have hholder : ∀ key, Questline.inHand key s'.record = Questline.inHand key s.record := by
    intro key
    rcases hrecord with hrecord | ⟨g, hrecord, hg⟩
    · rw [hrecord]
    · rw [hrecord, inHand_silent key s.record hg]
  have hlast : ∀ key, lastLeft (initial key) key s'.record
      = lastLeft (initial key) key s.record := by
    intro key
    rcases hrecord with hrecord | ⟨g, hrecord, hg⟩
    · rw [hrecord]
    · rw [hrecord, lastLeft_silent (initial key) key s.record hg]
  refine ⟨hcoherent, h.rules_moved hstage hrules, fun key k => ?_, fun key hfree => ?_,
    fun before k key j hprefix => h.passedOn before k key j ?_⟩
  · rw [hholder, hsame, h.inHand]
  · have hfree' : ∀ k, (s.stage k).guards? ≠ some key := fun k => hsame k ▸ hfree k
    rw [hlog key hfree', hlast, h.left key hfree']
  · rcases hrecord with hrecord | ⟨g, hrecord, hg⟩
    · rw [← hrecord]
      exact hprefix
    · rw [hrecord, List.prefix_concat_iff] at hprefix
      rcases hprefix with hlast | hprefix
      · have heq : Happening.opened k key j = g :=
          List.singleton_inj.mp (List.append_inj_right' hlast rfl)
        rw [← heq] at hg
        cases hg
      · exact hprefix

/-- The same where no place changes. -/
theorem step_still (h : s.HandoverInvariant initial) (ha : s.stage i = a)
    (hstage : ∀ k, s'.stage k = if k = i then b else s.stage k) (hguards : b.guards? = a.guards?)
    (hrules : ∀ rule, b.rule? = some rule → KeepsName rule)
    (hrecord : s'.record = s.record ∨ ∃ g, s'.record = s.record ++ [g] ∧ g.isHandover = false)
    (hplace : ∀ key, s'.place key = s.place key) : s'.HandoverInvariant initial :=
  h.step ha hstage hguards hrules hrecord (fun key => hplace key ▸ h.coherent key)
    fun key _ => by rw [hplace]

/-- The same where only the place of one player changes, and keeps its quest log if nobody has the
journal in hand. -/
theorem step_at (h : s.HandoverInvariant initial) (key : String) (ha : s.stage i = a)
    (hstage : ∀ k, s'.stage k = if k = i then b else s.stage k) (hguards : b.guards? = a.guards?)
    (hrules : ∀ rule, b.rule? = some rule → KeepsName rule)
    (hrecord : s'.record = s.record ∨ ∃ g, s'.record = s.record ++ [g] ∧ g.isHandover = false)
    {p : Place} (hplace : ∀ x, s'.place x = if key = x then p else s.place x)
    (hcoherent : p.Coherent key)
    (hlog : a.guards? = some key ∨ (s'.place key).log = (s.place key).log) :
    s'.HandoverInvariant initial := by
  refine h.step ha hstage hguards hrules hrecord (fun x => ?_) fun x hfree => ?_
  · rw [hplace]
    by_cases hx : key = x
    · subst hx
      rw [if_pos rfl]
      exact hcoherent
    · rw [if_neg hx]
      exact h.coherent x
  · by_cases hx : key = x
    · subst hx
      rcases hlog with hheld | hlog
      · exact absurd (ha ▸ hheld) (hfree i)
      · exact hlog
    · rw [hplace, if_neg hx]

end HandoverInvariant

/-! ## Every step -/

section Steps

variable {initial : String → QuestLog} {owner : Nat → String} {s : SharedEngine ρ} {i n : Nat}
  {username : String} {errand : Errand} {rule : Journal → Ruling Answer}

omit [Repository ρ] [TableRepository ρ] in
/-- The slot that a client works on is where it belongs in the table, and nowhere else. -/
theorem Guarded.get?_iff (h : s.Guarded owner) {a : Stage} (ha : s.stage i = a)
    (hlock : a.lock? = some n) (hmarking : a ≠ .marking n) {slot : Slot}
    (hcontent : s.content? n = some slot) (key : String) :
    s.table.get? key = some n ↔ owner n = key :=
  ⟨fun hin => (h.made key n hin).2, fun hkey => hkey ▸ h.inTable ha hlock hmarking hcontent⟩

/-- The content of the slot that a client works on is that of the player's place. -/
theorem Guarded.place_slot (h : s.Guarded owner) {a : Stage} (ha : s.stage i = a)
    (hlock : a.lock? = some n) (hmarking : a ≠ .marking n) {slot : Slot}
    (hcontent : s.content? n = some slot) : (s.place (owner n)).slot = some slot := by
  simp only [place, h.inTable ha hlock hmarking hcontent, Option.bind_some, hcontent]

/-- `LockedSlot.hold` on the slot that a client works on changes the place of its player only. -/
theorem Guarded.place_hold (h : s.Guarded owner) {a : Stage} (ha : s.stage i = a)
    (hlock : a.lock? = some n) (hmarking : a ≠ .marking n) {slot : Slot}
    (hcontent : s.content? n = some slot) (slot' : Slot) (x : String) :
    (s.atSlot n (.hold slot')).place x
      = if owner n = x then ⟨some slot', (s.place (owner n)).record⟩ else s.place x := by
  have hn : n < s.slots.length := h.lt_of_lock (i := i) (ha ▸ hlock)
  rw [SharedEngine.place_hold s x hn]
  by_cases hx : owner n = x
  · rw [if_pos hx, if_pos ((h.get?_iff ha hlock hmarking hcontent x).mpr hx), hx]
  · rw [if_neg hx, if_neg fun hin => hx ((h.get?_iff ha hlock hmarking hcontent x).mp hin)]

/-- A journal in the slot that a client works on has the quest log of the player's place. -/
theorem Guarded.log_slot (h : s.Guarded owner) {a : Stage} (ha : s.stage i = a)
    (hlock : a.lock? = some n) (hmarking : a ≠ .marking n) {j : Journal} {dirty : Bool}
    (hcontent : s.content? n = some (.loaded j dirty)) : (s.place (owner n)).log = j.log :=
  Place.log_of_loaded (h.place_slot ha hlock hmarking hcontent)

/-- Storing the journal of the slot that a client works on makes it the record of the place. -/
theorem Guarded.place_store (h : s.Guarded owner) {a : Stage} (ha : s.stage i = a)
    (hlock : a.lock? = some n) (hmarking : a ≠ .marking n) {slot : Slot}
    (hcontent : s.content? n = some slot) {j : Journal} (hname : playerKey j.username = owner n)
    (slot' : Slot) (x : String) :
    (({ s with repository := Repository.save s.repository j } : SharedEngine ρ).atSlot n
        (.hold slot')).place x
      = if owner n = x then ⟨some slot', some j⟩ else s.place x := by
  have hn : n < s.slots.length := h.lt_of_lock (i := i) (ha ▸ hlock)
  refine (SharedEngine.place_hold
    { s with repository := Repository.save s.repository j } x hn slot').trans ?_
  rw [place_stored, hname]
  by_cases hx : owner n = x
  · rw [if_pos ((h.get?_iff ha hlock hmarking hcontent x).mpr hx), if_pos hx, if_pos hx]
  · rw [if_neg fun hin => hx ((h.get?_iff ha hlock hmarking hcontent x).mp hin), if_neg hx,
      if_neg hx]

/-- A successful load gives the stored journal, or an empty one if there is none. -/
theorem eq_of_load {c : Circumstances} {j : Journal}
    (hload : Repository.load s.repository s.limit c username = .ok j) :
    j = (s.place (playerKey username)).record.getD (.empty username c.openedAt) := by
  unfold Repository.load at hload
  rw [TableRepository.find_eq] at hload
  cases hfault : c.loadFault with
  | none =>
      rw [hfault] at hload
      exact (Except.ok.inj hload).symm
  | some fault =>
      rw [hfault] at hload
      cases hload

/-- A loaded journal has the quest log of the record. -/
theorem log_of_load {c : Circumstances} {j : Journal}
    (hload : Repository.load s.repository s.limit c username = .ok j) :
    j.log = (Place.mk none (s.place (playerKey username)).record).log := by
  rw [eq_of_load hload]
  cases (s.place (playerKey username)).record <;> rfl

theorem place_withSlot
    (hmade : ∀ key n, s.table.get? key = some n → n < s.slots.length ∧ owner n = key)
    (key x : String) : (s.withSlot key).place x
      = if key = x then ⟨some .unloaded, (s.place key).record⟩ else s.place x := by
  simp only [place, table_withSlot]
  by_cases hx : key = x
  · subst hx
    rw [if_pos rfl, if_pos rfl, Option.bind_some, content?_withSlot, if_pos rfl]
    rfl
  · rw [if_neg hx, if_neg hx]
    cases hin : s.table.get? x with
    | none => rfl
    | some m =>
        have hm := (hmade x m hin).1
        rw [Option.bind_some, content?_withSlot, if_neg (Nat.ne_of_lt hm)]
        rfl

/-! ### Steps that keep the quest log of every place -/

theorem log_of_placed {s' : SharedEngine ρ} {key : String} {p : Place}
    (hplace : ∀ x, s'.place x = if key = x then p else s.place x)
    (hlog : p.log = (s.place key).log) (x : String) : (s'.place x).log = (s.place x).log := by
  rw [hplace]
  by_cases hx : key = x
  · rw [if_pos hx, hlog, hx]
  · rw [if_neg hx]

theorem log_withSlot
    (hmade : ∀ key n, s.table.get? key = some n → n < s.slots.length ∧ owner n = key)
    {key : String} (hnone : s.table.get? key = none) (x : String) :
    ((s.withSlot key).place x).log = (s.place x).log := by
  refine log_of_placed (place_withSlot hmade key) ?_ x
  unfold Place.log Place.kept?
  rw [show (s.place key).slot = none by simp [place, hnone]]

theorem Guarded.log_load (h : s.Guarded owner) {c : Circumstances}
    (hstage : s.stage i = .loading username rule n) {j : Journal}
    (hload : Repository.load s.repository s.limit c username = .ok j) (x : String) :
    ((s.atSlot n (.hold (.loaded j false))).place x).log = (s.place x).log := by
  obtain ⟨howner, hcontent⟩ := h.relies hstage
  have hslot := h.place_slot hstage rfl nofun hcontent
  refine log_of_placed (h.place_hold hstage rfl nofun hcontent (.loaded j false)) ?_ x
  rw [Place.log_loaded, log_of_load hload, ← howner]
  unfold Place.log Place.kept?
  rw [hslot]

theorem Guarded.log_write (h : s.Guarded owner) (c : Circumstances) {a : Stage}
    (ha : s.stage i = a) (hlock : a.lock? = some n) (hmarking : a ≠ .marking n) {j : Journal}
    {dirty : Bool} (hcontent : s.content? n = some (.loaded j dirty))
    (hname : playerKey j.username = owner n) (x : String) :
    ((s.write c i n).1.place x).log = (s.place x).log := by
  have hlog : j.log = (s.place (owner n)).log := (h.log_slot ha hlock hmarking hcontent).symm
  rcases s.write_cases c i hcontent with ⟨e, hwrite⟩ | hwrite
  · rw [hwrite]
    exact log_of_placed
      (h.place_hold ha hlock hmarking hcontent (.loaded (j.touch c.savedAt) dirty)) hlog x
  · rw [hwrite]
    exact log_of_placed (h.place_store (j := j.touch c.savedAt) ha hlock hmarking hcontent hname
      (.loaded (j.touch c.savedAt) false)) hlog x

/-- `SharedEngine.remove` keeps the quest log of the place, as the slot holds nothing or a journal
that is not dirty. -/
theorem Guarded.log_remove (h : s.Guarded owner)
    (hcoherent : (s.place (playerKey username)).Coherent (playerKey username))
    (hstage : s.stage i = .removing username n) (x : String) :
    ((s.remove i username n).place x).log = (s.place x).log := by
  obtain ⟨howner, hcontent⟩ := h.relies hstage
  rw [remove_eq h hstage]
  refine log_of_placed (fun x => s.place_erase x (playerKey username)) ?_ x
  rcases hcontent with hcontent | ⟨j, hcontent⟩
  · have hslot := howner ▸ h.place_slot hstage rfl nofun hcontent
    unfold Place.log Place.kept?
    rw [hslot]
  · have hslot := howner ▸ h.place_slot hstage rfl nofun hcontent
    rw [hcoherent.clean j hslot, Place.log_of_loaded hslot]

/-! ### Preservation, stage by stage -/

theorem handover_arrive (h : s.HandoverInvariant initial)
    (hstage : s.stage i = .arriving username errand n) :
    (s.arrive i username errand n).HandoverInvariant initial := by
  have hrules : ∀ rule, errand.rule? = some rule → KeepsName rule := fun rule hrule =>
    h.rules i rule (by rw [hstage]; exact hrule)
  unfold arrive
  split
  · exact h.step_still hstage (fun _ => rfl) rfl hrules (Or.inl rfl) fun key => by simp
  · exact h.step_still hstage (fun _ => rfl) rfl nofun (Or.inl rfl) fun _ => rfl
  · exact h.step_still hstage (fun _ => rfl) rfl hrules (Or.inl rfl) fun _ => rfl
  · exact h.step_still hstage (fun _ => rfl) rfl hrules (Or.inl rfl) fun _ => rfl
  · exact h.step_still hstage (fun _ => rfl) rfl nofun (Or.inl rfl) fun _ => rfl
  · exact h.step_still hstage (fun _ => rfl) rfl nofun (Or.inl rfl) fun _ => rfl

theorem handover_load (hg : s.Guarded owner) (h : s.HandoverInvariant initial) (c : Circumstances)
    (hstage : s.stage i = .loading username rule n) :
    (s.load c i username rule n).HandoverInvariant initial := by
  obtain ⟨howner, hcontent⟩ := hg.relies hstage
  have hrules : ∀ r, some rule = some r → KeepsName r := fun r hr =>
    h.rules i r (by rw [hstage]; exact hr)
  unfold load
  split
  · rename_i j hj
    have hcoherent := h.coherent (owner n)
    have hlog : j.log = (Place.mk none (s.place (owner n)).record).log := howner ▸ log_of_load hj
    have hname : playerKey j.username = owner n := by
      rw [eq_of_load hj, ← howner]
      cases hrecord : (s.place (owner n)).record with
      | none => exact howner.symm
      | some r => exact hcoherent.record_keyed r hrecord
    refine h.step_at (owner n) hstage (fun _ => rfl) rfl hrules (Or.inr ⟨_, rfl, rfl⟩)
      (hg.place_hold hstage rfl nofun hcontent (.loaded j false)) ?_
      (Or.inr (hg.log_load hstage hj _))
    refine ⟨hcoherent.record_keyed, fun k dirty hk => ?_, fun k hk => ?_⟩
    · cases hk
      exact hname
    · cases hk
      exact hlog.symm
  · exact h.step_still hstage (fun _ => rfl) rfl nofun (Or.inr ⟨_, rfl, rfl⟩) fun _ => rfl

theorem handover_apply (hg : s.Guarded owner) (h : s.HandoverInvariant initial) {j : Journal}
    (hstage : s.stage i = .holding username rule n j) :
    (s.apply i username rule n j).HandoverInvariant initial := by
  obtain ⟨howner, dirty, hcontent⟩ := hg.relies hstage
  have hslot := hg.place_slot hstage rfl nofun hcontent
  have hcoherent := h.coherent (owner n)
  have hrule : KeepsName rule := h.rules i rule (by rw [hstage]; rfl)
  have hheld : (Stage.holding username rule n j).guards? = some (owner n) :=
    congrArg some howner.symm
  have hname : playerKey ((rule j).journal j).username = owner n :=
    (hrule j).trans (hcoherent.slot_keyed j dirty hslot)
  have hplace := hg.place_hold hstage rfl nofun hcontent
  unfold apply
  split
  · exact h.step_still hstage (fun _ => rfl) rfl nofun (Or.inl rfl) fun _ => rfl
  · rename_i k answer hr
    rw [hr] at hname
    exact h.step_at (owner n) hstage (fun _ => rfl) rfl nofun (Or.inl rfl)
      (hplace (.loaded k true)) (hcoherent.dirty hname) (Or.inl hheld)
  · rename_i k news answer hr
    rw [hr] at hname
    exact h.step_at (owner n) hstage (fun _ => rfl) rfl nofun (Or.inl rfl)
      (hplace (.loaded k true)) (hcoherent.dirty hname) (Or.inl hheld)

/-- The stages `saving` and `flushing`, which write the journal of the slot. -/
theorem handover_write (hg : s.Guarded owner) (h : s.HandoverInvariant initial)
    (c : Circumstances) {a b : Stage}
    (hstage : s.stage i = a) (hlock : a.lock? = some n) (hmarking : a ≠ .marking n)
    (hloaded : s.Loaded n) (hguards : b.guards? = a.guards?) (hrule : b.rule? = none) :
    ((s.write c i n).1.enter i b).HandoverInvariant initial := by
  obtain ⟨j, dirty, hcontent⟩ := hloaded
  have hslot := hg.place_slot hstage hlock hmarking hcontent
  have hcoherent := h.coherent (owner n)
  have hname : playerKey j.username = owner n := hcoherent.slot_keyed j dirty hslot
  have hlog := hg.log_write c hstage hlock hmarking hcontent hname (owner n)
  have hrules : ∀ r, b.rule? = some r → KeepsName r := fun r hr => by
    rw [hrule] at hr
    cases hr
  rcases s.write_cases c i hcontent with ⟨e, hwrite⟩ | hwrite
  · rw [hwrite] at hlog ⊢
    refine h.step_at (owner n) hstage (fun _ => rfl) hguards hrules (Or.inr ⟨_, rfl, rfl⟩)
      (hg.place_hold hstage hlock hmarking hcontent _) ?_ (Or.inr hlog)
    refine ⟨hcoherent.record_keyed, fun k d hk => ?_, fun k hk => ?_⟩
    · cases hk
      exact hname
    · cases hk
      exact hcoherent.clean j hslot
  · rw [hwrite] at hlog ⊢
    exact h.step_at (owner n) hstage (fun _ => rfl) hguards hrules (Or.inr ⟨_, rfl, rfl⟩)
      (hg.place_store (j := j.touch c.savedAt) hstage hlock hmarking hcontent hname _)
      (.stored hname) (Or.inr hlog)

theorem handover_remove (hg : s.Guarded owner) (h : s.HandoverInvariant initial)
    (hstage : s.stage i = .removing username n) :
    (s.remove i username n).HandoverInvariant initial := by
  have hcoherent := h.coherent (playerKey username)
  have hlog := hg.log_remove hcoherent hstage (playerKey username)
  rw [remove_eq hg hstage] at hlog ⊢
  exact h.step_at (playerKey username) hstage (fun _ => rfl) rfl nofun (Or.inr ⟨_, rfl, rfl⟩)
    (fun x => s.place_erase x (playerKey username))
    (.of_not_loaded (Or.inl rfl) hcoherent.record_keyed) (Or.inr hlog)

theorem handover_mark (hg : s.Guarded owner) (h : s.HandoverInvariant initial)
    (hstage : s.stage i = .marking n)
    (parting : Parting) :
    ((s.atSlot n .giveUp).enter i (.leaving n parting)).HandoverInvariant initial := by
  refine h.step_still hstage (fun _ => rfl) rfl nofun (Or.inl rfl) fun key => ?_
  refine s.place_giveUp key fun hin => ?_
  have hout : s.table.get? (owner n) ≠ some n := hg.relies hstage
  exact hout ((hg.made key n hin).2 ▸ hin)

theorem handover_leave (h : s.HandoverInvariant initial) {parting : Parting}
    (hstage : s.stage i = .leaving n parting) :
    ((s.atSlot n .unlock).enter i (.publishing parting)).HandoverInvariant initial :=
  h.step_still hstage (fun _ => rfl) rfl nofun (Or.inl rfl) fun key => by simp

theorem handover_take (h : s.HandoverInvariant initial)
    (hstage : s.stage i = .waiting username errand n) :
    ((s.atSlot n (.lock i)).enter i (.arriving username errand n)).HandoverInvariant initial :=
  h.step_still hstage (fun _ => rfl) rfl
    (fun rule hrule => h.rules i rule (by rw [hstage]; exact hrule)) (Or.inl rfl)
    fun key => by simp

theorem handover_publish (h : s.HandoverInvariant initial) {parting : Parting}
    (hstage : s.stage i = .publishing parting) :
    (s.publish i parting).HandoverInvariant initial := by
  rcases parting with ⟨_ | ⟨n, news⟩, answer⟩
  · exact h.step_still hstage (fun _ => rfl) rfl nofun (Or.inr ⟨_, rfl, rfl⟩) fun _ => rfl
  · exact h.step_still hstage (fun _ => rfl) rfl nofun (Or.inr ⟨_, rfl, rfl⟩) fun _ => rfl

theorem handover_seek (hg : s.Guarded owner) (h : s.HandoverInvariant initial)
    (hstage : s.stage i = .seeking username errand) :
    (s.seek i username errand).HandoverInvariant initial := by
  have hrules : ∀ rule, errand.rule? = some rule → KeepsName rule := fun rule hrule =>
    h.rules i rule (by rw [hstage]; exact hrule)
  unfold seek
  simp only [table_note]
  split
  · exact h.step_still hstage (fun _ => rfl) rfl hrules (Or.inr ⟨_, rfl, rfl⟩) fun _ => rfl
  · rename_i hnone
    have hcoherent := h.coherent (playerKey username)
    let noted := s.note (.lookedUp i (playerKey username))
    exact h.step_at (playerKey username) hstage (fun _ => rfl) rfl hrules (Or.inr ⟨_, rfl, rfl⟩)
      (place_withSlot (s := noted) hg.made _) (.of_not_loaded (Or.inr rfl) hcoherent.record_keyed)
      (Or.inr (log_withSlot (s := noted) hg.made hnone _))
  · exact h.step_still hstage (fun _ => rfl) rfl nofun (Or.inr ⟨_, rfl, rfl⟩) fun _ => rfl

theorem handover_begin (h : s.HandoverInvariant initial) {plan : Plan} {s' : SharedEngine ρ}
    (hplan : ∀ username rule, plan = .consult username rule → KeepsName rule)
    (hbegin : s.begin? i plan = some s') : s'.HandoverInvariant initial := by
  cases begins_of_begin? hbegin with
  | settled hidle => exact h.step_still hidle (fun _ => rfl) rfl nofun (Or.inl rfl) fun _ => rfl
  | consult hidle =>
      refine h.step_still hidle (fun _ => rfl) rfl (fun r hr => ?_) (Or.inr ⟨_, rfl, rfl⟩)
        fun _ => rfl
      cases hr
      exact hplan _ _ rfl
  | evict hidle =>
      exact h.step_still hidle (fun _ => rfl) rfl nofun (Or.inr ⟨_, rfl, rfl⟩) fun _ => rfl

/-! ## Handovers -/

/-- The stage `opening`: the journal is opened as it was closed last. -/
theorem handover_openJournal (hg : s.Guarded owner) (h : s.HandoverInvariant initial)
    (hstage : s.stage i = .opening username rule n) :
    (s.openJournal i username rule n).HandoverInvariant initial := by
  obtain ⟨howner, j, dirty, hcontent⟩ := hg.relies hstage
  have hfree := hg.free_of_opening hstage
  have hlog : j.log = lastLeft (initial (playerKey username)) (playerKey username) s.record := by
    rw [← h.left _ hfree, ← howner, hg.log_slot hstage rfl nofun hcontent]
  have hnobody : Questline.inHand (playerKey username) s.record = none := by
    cases hholder : Questline.inHand (playerKey username) s.record with
    | none => rfl
    | some k => exact absurd ((h.inHand _ k).mp hholder) (hfree k)
  simp only [openJournal, hcontent]
  refine ⟨h.coherent, h.rules_moved (fun k => stage_enter _ i _ k) fun r hr =>
      h.rules i r (hstage ▸ hr), fun key k => ?_, fun key hkey => ?_,
    fun before k key journal hprefix => ?_⟩
  · rw [record_enter, record_note, inHand_opened, stage_enter, stage_note]
    by_cases hk : k = i
    · subst hk
      rw [if_pos rfl]
      by_cases hkey : playerKey username = key
      · simp [hkey, Stage.guards?]
      · rw [if_neg hkey, h.inHand, hstage]
        refine ⟨fun hguards => ?_, fun heq => absurd (Option.some.inj heq) hkey⟩
        cases hguards
    · rw [if_neg hk]
      by_cases hkey : playerKey username = key
      · subst hkey
        have hother : ¬ i = k := fun h => hk h.symm
        simp [hother, hfree k]
      · rw [if_neg hkey, h.inHand]
  · have hne : playerKey username ≠ key := by
      intro heq
      refine hkey i ?_
      rw [stage_enter, if_pos rfl]
      exact congrArg some heq
    have hbefore : ∀ k, (s.stage k).guards? ≠ some key := by
      intro k
      by_cases hk : k = i
      · rw [hk, hstage]
        intro hguards
        cases hguards
      · have hafter := hkey k
        rw [stage_enter, if_neg hk] at hafter
        exact hafter
    rw [place_enter, place_note, record_enter, record_note, lastLeft_opened, h.left key hbefore]
  · rw [record_enter, record_note, List.prefix_concat_iff] at hprefix
    rcases hprefix with hlast | hprefix
    · have heq := List.singleton_inj.mp (List.append_inj_right' hlast rfl)
      cases heq
      rw [List.append_inj_left' hlast rfl]
      exact ⟨hnobody, hlog⟩
    · exact h.passedOn before k key journal hprefix

/-- The stage `closing`: the journal is closed as it is in the slot. -/
theorem handover_close (hg : s.Guarded owner) (h : s.HandoverInvariant initial) {parting : Parting}
    (hstage : s.stage i = .closing username n parting) :
    (s.close i username n parting).HandoverInvariant initial := by
  obtain ⟨howner, j, dirty, hcontent⟩ := hg.relies hstage
  have hheld : (s.stage i).guards? = some (playerKey username) := by
    rw [hstage]
    rfl
  have hlog : (s.place (playerKey username)).log = j.log :=
    howner ▸ hg.log_slot hstage rfl nofun hcontent
  simp only [close, hcontent]
  refine ⟨fun key => ?_, h.rules_moved (fun k => stage_enter _ i _ k) fun rule hrule => ?_,
    fun key k => ?_, fun key hkey => ?_, fun before k key journal hprefix => ?_⟩
  · rw [place_enter, place_unlock, place_note]
    exact h.coherent key
  · cases hrule
  · rw [record_enter, record_atSlot, record_note, inHand_closed, stage_enter, stage_atSlot,
      stage_note]
    by_cases hk : k = i
    · subst hk
      rw [if_pos rfl]
      by_cases hkey : playerKey username = key
      · simp [hkey, Stage.guards?]
      · rw [if_neg hkey, h.inHand, hstage]
        refine ⟨fun heq => absurd (Option.some.inj heq) hkey, fun hguards => ?_⟩
        cases hguards
    · rw [if_neg hk]
      by_cases hkey : playerKey username = key
      · subst hkey
        have hother : (s.stage k).guards? ≠ some (playerKey username) :=
          fun hkguards => hk (hg.guards_unique hkguards hheld)
        simp [hother]
      · rw [if_neg hkey, h.inHand]
  · rw [place_enter, place_unlock, place_note, record_enter, record_atSlot, record_note,
      lastLeft_closed]
    by_cases heq : playerKey username = key
    · subst heq
      rw [if_pos rfl, hlog]
    · rw [if_neg heq]
      refine h.left key fun k => ?_
      by_cases hk : k = i
      · rw [hk, hheld]
        exact fun h => heq (Option.some.inj h)
      · have hafter := hkey k
        rw [stage_enter, if_neg hk] at hafter
        exact hafter
  · rw [record_enter, record_atSlot, record_note, List.prefix_concat_iff] at hprefix
    rcases hprefix with hlast | hprefix
    · cases List.singleton_inj.mp (List.append_inj_right' hlast rfl)
    · exact h.passedOn before k key journal hprefix

theorem handover_step (hg : s.Guarded owner) (h : s.HandoverInvariant initial) (c : Circumstances)
    {s' : SharedEngine ρ} (hstep : s.step? c i = some s') : s'.HandoverInvariant initial := by
  cases advance_of_step? hstep with
  | seek hstage => exact handover_seek hg h hstage
  | take hstage => exact handover_take h hstage
  | arrive hstage => exact handover_arrive h hstage
  | load hstage => exact handover_load hg h c hstage
  | openJournal hstage => exact handover_openJournal hg h hstage
  | apply hstage => exact handover_apply hg h hstage
  | save hstage => exact handover_write hg h c hstage rfl nofun (hg.relies hstage).2 rfl rfl
  | close hstage => exact handover_close hg h hstage
  | flush hstage => exact handover_write hg h c hstage rfl nofun (hg.relies hstage).2 rfl rfl
  | flushFailed hstage => exact handover_write hg h c hstage rfl nofun (hg.relies hstage).2 rfl rfl
  | remove hstage => exact handover_remove hg h hstage
  | mark hstage => exact handover_mark hg h hstage _
  | leave hstage => exact handover_leave h hstage
  | publish hstage => exact handover_publish h hstage

end Steps

end SharedEngine

/-! ## Runs -/

/-- A move that starts no rule that changes the name on a journal. -/
def Move.KeepsName : Move → Prop
  | start _ (.consult _ rule) => Questline.KeepsName rule
  | _ => True

theorem Move.keepsName_proceed (client : Nat) (c : Circumstances) :
    (proceed client c).KeepsName := trivial

/-- No rule of any operation changes the name on a journal. -/
theorem Operation.keepsName (c : Catalog) (now : Instant) (client : Nat) (op : Operation) :
    (Move.start client (op.plan c now)).KeepsName := by
  cases hplan : op.plan c now with
  | consult username rule => exact fun j => congrArg playerKey (Operation.username_plan hplan j)
  | settled answer => trivial
  | evict username => trivial

namespace SharedEngine

variable {ρ : Type} [Repository ρ] [TableRepository ρ] {s s' : SharedEngine ρ}

/-- The quest log that is stored of a player, the blank one if there is none. -/
def storedLog (repository : ρ) (key : String) : QuestLog :=
  (Place.mk none ((TableRepository.records repository).get? key)).log

theorem handover_new {repository : ρ} (hkeyed : Keyed (TableRepository.records repository))
    (limit : Nat) : (new repository limit).HandoverInvariant (storedLog repository) where
  coherent key := .of_not_loaded (Or.inl rfl) (hkeyed key)
  rules i rule hrule := by cases hrule
  inHand key i := ⟨nofun, nofun⟩
  left key _ := rfl
  passedOn before i key j hprefix := by
    cases before <;> cases List.prefix_nil.mp hprefix

theorem handover_move {owner : Nat → String} {initial : String → QuestLog} (hg : s.Guarded owner)
    (h : s.HandoverInvariant initial) {m : Move} (hm : m.KeepsName) (hmove : s.move? m = some s') :
    s'.HandoverInvariant initial := by
  cases m with
  | start client plan =>
      refine handover_begin h (fun username rule hplan => ?_) hmove
      subst hplan
      exact hm
  | proceed client c => exact handover_step hg h c hmove

/-- Run lemma: a run that starts no rule that changes a name preserves the handover invariant. -/
theorem run_handover {owner : Nat → String} {initial : String → QuestLog} {moves : List Move}
    (hg : s.Guarded owner) (h : s.HandoverInvariant initial) (hmoves : ∀ m ∈ moves, m.KeepsName)
    (hrun : s.run? moves = some s') : s'.HandoverInvariant initial := by
  induction moves generalizing s owner with
  | nil =>
      cases hrun
      exact h
  | cons m moves ih =>
      obtain ⟨s₁, hmove, hrest⟩ := Option.bind_eq_some_iff.mp hrun
      obtain ⟨owner₁, hg₁⟩ := guarded_move hg hmove
      exact ih hg₁ (handover_move hg h (hmoves m (.head _)) hmove)
        (fun m' hm' => hmoves m' (.tail _ hm')) hrest

end SharedEngine

/-- **Handover of journals.** In every run of any number of clients, whatever fails: no two clients
have the journal of one player in hand, and a client that is about to take one in hand finds it.
Over a table of journals, and as long as no rule changes the player of a journal, who takes it in
hand finds the quests that the client before has left, and the first one those that were stored. -/
theorem handed_on {ρ : Type} [Repository ρ] (repository : ρ) (limit : Nat) (moves : List Move)
    (s : SharedEngine ρ) (hrun : (SharedEngine.new repository limit).run? moves = some s) :
    (∀ key i k, (s.stage i).guards? = some key → (s.stage k).guards? = some key → i = k)
    ∧ (∀ i username rule n c, s.stage i = .opening username rule n →
      ∃ j, s.step? c i = some ((s.note (.opened i (playerKey username) j)).enter i
        (.holding username rule n j)))
    ∧ ∀ [TableRepository ρ], Keyed (TableRepository.records repository) →
      (∀ m ∈ moves, m.KeepsName) → ∀ key,
        (∀ i, inHand key s.record = some i ↔ (s.stage i).guards? = some key)
        ∧ ∀ before i j, before ++ [.opened i key j] <+: s.record →
          inHand key before = none
            ∧ j.log = lastLeft (SharedEngine.storedLog repository key) key before := by
  have hnew : (SharedEngine.new repository limit).Guarded fun _ => "" :=
    SharedEngine.guarded_new repository limit _
  obtain ⟨owner, hg⟩ := SharedEngine.guarded_run hnew hrun
  refine ⟨fun key i k => hg.guards_unique, fun i username rule n c hstage => ?_, ?_⟩
  · obtain ⟨-, j, dirty, hcontent⟩ := hg.relies hstage
    refine ⟨j, ?_⟩
    simp only [SharedEngine.step?, hstage, SharedEngine.openJournal, hcontent]
  · intro _ hkeyed hmoves key
    have h := SharedEngine.run_handover hnew (SharedEngine.handover_new hkeyed limit) hmoves hrun
    exact ⟨h.inHand key, fun before i j => h.passedOn before i key j⟩

/-- The plan of an operation under the catalog of the hunt. -/
def planned (op : Operation) : Plan := op.plan (Catalog.ofQuests [ratHunt]) .epoch

/-- A client takes its next steps while everything works. -/
def steps (client n : Nat) : List Move := List.replicate n (.proceed client (.calm .epoch))

/-- A hunt is started and cannot be saved; then the player is evicted while another client waits for
the slot, who has to look up a new one. -/
def ratHuntMoves : List Move :=
  .start 0 (planned (.start (.named "Ann" 1) "rats" false none)) :: steps 0 3
    ++ .start 1 (planned (.evict "ann")) :: steps 1 1
    ++ .start 2 (planned (.complete "ANN" "rats")) :: steps 2 1
    ++ steps 0 3 ++ .proceed 0 unsaved :: steps 0 1 ++ steps 1 6 ++ steps 2 7

/-- The client that had to look up a new slot finds the hunt that was started. -/
theorem handed_on_ratHunt :
    Keyed (TableRepository.records MemoryRepository.empty) ∧ (∀ m ∈ ratHuntMoves, m.KeepsName)
      ∧ ∃ s, (SharedEngine.new MemoryRepository.empty 5000).run? ratHuntMoves = some s
        ∧ (s.stage 2).guards? = some "ann"
        ∧ ∃ before j, s.record = before ++ [.opened 2 "ann" j] ∧ j.isActive "rats" = true
          ∧ inHand "ann" before = none
          ∧ j.log = lastLeft (SharedEngine.storedLog MemoryRepository.empty "ann") "ann"
            before := by
  have hmoves : ∀ m ∈ ratHuntMoves, m.KeepsName := by
    simp [ratHuntMoves, planned, steps, Operation.keepsName, Move.keepsName_proceed]
  have hends : ((SharedEngine.new MemoryRepository.empty 5000).run? ratHuntMoves).any (fun s =>
      inHand "ann" s.record = some 2 ∧ s.record.getLast?.any fun h => match h with
        | .opened client key j => client = 2 ∧ key = "ann" ∧ j.isActive "rats" = true
        | _ => false) = true := by decide +kernel
  obtain ⟨s, hrun, hs⟩ := (Option.any_eq_true _ _).mp hends
  obtain ⟨hheld, hlast⟩ := of_decide_eq_true hs
  obtain ⟨h, hh, hopened⟩ := (Option.any_eq_true _ _).mp hlast
  obtain ⟨before, hrecord⟩ := List.getLast?_eq_some_iff.mp hh
  obtain ⟨-, -, hrules⟩ := handed_on MemoryRepository.empty 5000 ratHuntMoves s hrun
  obtain ⟨hholder, hpassed⟩ := hrules keyed_empty hmoves "ann"
  cases h with
  | opened client key j =>
      obtain ⟨rfl, rfl, hactive⟩ := of_decide_eq_true hopened
      obtain ⟨hnobody, hlog⟩ := hpassed before 2 j (hrecord ▸ List.prefix_rfl)
      exact ⟨keyed_empty, hmoves, s, hrun, (hholder 2).mp hheld, before, j, hrecord, hactive,
        hnobody, hlog⟩
  | _ => cases hopened

/-! ## Journals that are not found as they were left -/

/-- Whether a record ends as a client takes the journal of a player in hand that nobody has, and
finds other quests than were left last, where none were stored at first. -/
def foundOtherwise (key : String) (record : List Happening) : Bool :=
  match record.getLast? with
  | some (.opened _ k j) =>
    k = key && inHand key record.dropLast = none && j.log ≠ lastLeft .blank key record.dropLast
  | _ => false

theorem exists_of_foundOtherwise {ρ : Type} [Repository ρ] {s : SharedEngine ρ} {key : String}
    {moves : List Move} (h : (s.run? moves).any (foundOtherwise key ·.record) = true) :
    ∃ s' before i j, s.run? moves = some s' ∧ s'.record = before ++ [.opened i key j]
      ∧ inHand key before = none ∧ j.log ≠ lastLeft .blank key before := by
  obtain ⟨s', hrun, hfound⟩ := (Option.any_eq_true _ _).mp h
  unfold foundOtherwise at hfound
  split at hfound
  · rename_i i k j hlast
    obtain ⟨before, hrecord⟩ := List.getLast?_eq_some_iff.mp hlast
    simp only [hrecord, List.dropLast_concat, Bool.and_eq_true, decide_eq_true_eq] at hfound
    obtain ⟨⟨rfl, hnobody⟩, hlog⟩ := hfound
    exact ⟨s', before, i, j, hrun, hrecord, hnobody, hlog⟩
  · cases hfound

/-- Ann's journal is changed and stored; then it is evicted and opened again. -/
def changeAndReturn (change : Journal → Ruling Answer) : List Move :=
  .start 0 (.consult "Ann" change) :: steps 0 9 ++ .start 0 (.evict "Ann") :: steps 0 7
    ++ .start 0 (.consult "Ann" fun j => .look (.ok (.progress j))) :: steps 0 5

/-- A change that records a failure and puts the journal under another name. -/
def renamed (j : Journal) : Ruling Answer :=
  .commit { j.recordFailure "rats" none .epoch with username := "Bob" } [] .done

/-- The number `3e+23`, whose text is read as the number next to it. -/
def threeE23 : Value := ⟨.float (.nearest false (3 * tenPow 23) 1), rfl⟩

/-- A change that records a quest with a variable. -/
def withWeight (j : Journal) : Ruling Answer :=
  .commit (j.activate ⟨"rats", "cull", .epoch, ∅, (∅ : Dict Value).insert "weight" threeE23⟩) []
    .done

/-- Though nothing fails, a journal is not found as it was left if the change has put it under
another name, or if the repository keeps texts and one of its numbers is read as another. -/
theorem left_unfound :
    (∃ s before i j,
      (SharedEngine.new MemoryRepository.empty 5000).run? (changeAndReturn renamed) = some s
        ∧ s.record = before ++ [.opened i "ann" j] ∧ inHand "ann" before = none
        ∧ j.log ≠ lastLeft .blank "ann" before)
    ∧ ∃ s before i j,
      (SharedEngine.new DocumentRepository.empty 5000).run? (changeAndReturn withWeight) = some s
        ∧ s.record = before ++ [.opened i "ann" j] ∧ inHand "ann" before = none
        ∧ j.log ≠ lastLeft .blank "ann" before :=
  ⟨exists_of_foundOtherwise (by decide +kernel), exists_of_foundOtherwise (by decide +kernel)⟩

end Questline
