import Mathlib.Data.List.DropRight
import Questline.Proofs.Custody

/-!
# Loads and retries

A client that waits for the lock of a slot may find at `Stage.arriving` that the slot was given up
meanwhile, and then looks the player up again at `Stage.seeking`. Nothing in the loop itself says
that it ends. What bounds it is the order in which an eviction gives a slot up: the table forgets
the slot first (`Stage.removing`) and the slot is marked afterwards (`Stage.marking`), so who finds
the mark finds another slot, or none, in the table. To every repeated look-up there is a removal
that happened after the look-up before.

The same order is why a journal is loaded once: it is loaded only into the slot in the table,
and only if nothing was loaded since the table last forgot a slot of the player.

Both bounds are counts over the record. `Happening.Allowed` says when the record before a happening
allows it, and the bounds follow for every record of such happenings (`Orderly.loadCount_le`,
`Orderly.lookupCount_le`). That the engine keeps its record so is the invariant
`SharedEngine.RetryInvariant`, which ties the loads in the record to the content of the slot in the
table, and the look-ups of a client to its stage.
-/

namespace Questline

/-! ## Counts over the record -/

namespace Happening

/-- The client that it happened to. -/
def client : Happening → Nat
  | cameFor i _ | lookedUp i _ | loaded i _ _ | opened i _ _ | closed i _ _ | saved i _ _
  | removed i _ | published i _ | answered i _ => i

/-- The player that a client set out for, if that is what happened. -/
def comesFor? (i : Nat) : Happening → Option String
  | cameFor k key => if k = i then some key else none
  | _ => none

/-- Whether a client looked a player up. -/
def looks (i : Nat) : Happening → Bool
  | lookedUp k _ => k = i
  | _ => false

/-- Whether the journal of a player was loaded. -/
def loads (key : String) : Happening → Bool
  | loaded _ k succeeded => k = key && succeeded
  | _ => false

/-- Whether the table forgot a slot of a player. -/
def removes (key : String) : Happening → Bool
  | removed _ k => k = key
  | _ => false

/-- Whether a client got the journal it came for, or could not have it loaded. -/
def endsCall (i : Nat) : Happening → Bool
  | opened k _ _ => k = i
  | loaded k _ succeeded => k = i && !succeeded
  | _ => false

/-- Whether it is none of the happenings that the counts depend on. -/
def isIdle : Happening → Bool
  | closed _ _ _ | saved _ _ _ | published _ _ | answered _ _ => true
  | _ => false

end Happening

/-- How often a client looked a player up. -/
def lookupCount (i : Nat) (record : List Happening) : Nat := record.countP (·.looks i)

/-- How often the journal of a player was loaded. -/
def loadCount (key : String) (record : List Happening) : Nat := record.countP (·.loads key)

/-- How often the table forgot a slot of a player. -/
def removalCount (key : String) (record : List Happening) : Nat := record.countP (·.removes key)

/-- What happened since the table last forgot a slot of a player. -/
def sinceRemoved (key : String) (record : List Happening) : List Happening :=
  record.rtakeWhile fun h => !h.removes key

/-- How often the journal of a player was loaded since the table last forgot a slot of it. -/
def loadsSince (key : String) (record : List Happening) : Nat :=
  loadCount key (sinceRemoved key record)

/-- A client set out for the slot of a player and did not set out again; `during` is what
happened since. -/
def Calling (i : Nat) (key : String) (record during : List Happening) : Prop :=
  .cameFor i key :: during <:+ record ∧ ∀ h ∈ during, h.comesFor? i = none

section Record

variable {record during : List Happening} {h : Happening} {key : String} {i : Nat}

theorem lookupCount_concat (i : Nat) (record : List Happening) (h : Happening) :
    lookupCount i (record ++ [h]) = lookupCount i record + if h.looks i then 1 else 0 := by
  simp [lookupCount, List.countP_singleton]

theorem loadCount_concat (key : String) (record : List Happening) (h : Happening) :
    loadCount key (record ++ [h]) = loadCount key record + if h.loads key then 1 else 0 := by
  simp [loadCount, List.countP_singleton]

theorem removalCount_concat (key : String) (record : List Happening) (h : Happening) :
    removalCount key (record ++ [h])
      = removalCount key record + if h.removes key then 1 else 0 := by
  simp [removalCount, List.countP_singleton]

theorem loadsSince_concat (key : String) (record : List Happening) (h : Happening) :
    loadsSince key (record ++ [h])
      = if h.removes key then 0 else loadsSince key record + if h.loads key then 1 else 0 := by
  unfold loadsSince sinceRemoved
  rw [List.rtakeWhile_concat]
  cases h.removes key with
  | true => rfl
  | false => exact loadCount_concat key _ h

theorem loadsSince_loaded (key : String) (record : List Happening) (i : Nat) (k : String)
    (succeeded : Bool) : loadsSince key (record ++ [.loaded i k succeeded])
      = if k = key ∧ succeeded = true then loadsSince key record + 1
        else loadsSince key record := by
  rw [loadsSince_concat]
  by_cases hk : k = key <;> cases succeeded <;> simp [Happening.removes, Happening.loads, hk]

theorem loadsSince_removed (key : String) (record : List Happening) (i : Nat) (k : String) :
    loadsSince key (record ++ [.removed i k]) = if k = key then 0 else loadsSince key record := by
  rw [loadsSince_concat]
  by_cases hk : k = key <;> simp [Happening.removes, Happening.loads, hk]

/-- While the table forgets no slot of a player, the loads add up. -/
theorem loadsSince_append (record : List Happening) {stretch : List Happening}
    (hnone : removalCount key stretch = 0) :
    loadsSince key (record ++ stretch) = loadsSince key record + loadCount key stretch := by
  induction stretch using List.reverseRecOn with
  | nil => simp [loadCount]
  | append_singleton stretch h ih =>
      rw [removalCount_concat] at hnone
      have hremoves : ¬ h.removes key = true := fun htrue => by
        rw [if_pos htrue] at hnone
        omega
      rw [← List.append_assoc, loadsSince_concat, if_neg hremoves, ih (by omega),
        loadCount_concat, Nat.add_assoc]

theorem calling_append (key : String) (before : List Happening)
    (hstays : ∀ k, .cameFor i k ∉ during) :
    Calling i key (before ++ .cameFor i key :: during) during := by
  refine ⟨List.suffix_append .., fun h hh => ?_⟩
  cases h with
  | cameFor k x =>
      refine if_neg fun heq => ?_
      subst heq
      exact hstays x hh
  | _ => rfl

/-- What a client set out for last, in a record that has grown. -/
theorem Calling.of_concat (hcall : Calling i key (record ++ [h]) during) :
    h = .cameFor i key ∧ during = []
    ∨ ∃ d, during = d ++ [h] ∧ h.comesFor? i = none ∧ Calling i key record d := by
  obtain ⟨⟨before, hrecord⟩, hsince⟩ := hcall
  rcases List.eq_nil_or_concat during with rfl | ⟨d, g, rfl⟩
  · exact Or.inl ⟨(List.singleton_inj.mp (List.append_inj_right' hrecord rfl)).symm, rfl⟩
  · refine Or.inr ⟨d, ?_⟩
    rw [List.concat_eq_append] at hrecord hsince ⊢
    rw [← List.cons_append, ← List.append_assoc] at hrecord
    obtain rfl : g = h := List.singleton_inj.mp (List.append_inj_right' hrecord rfl)
    exact ⟨rfl, hsince g (by simp), ⟨before, List.append_inj_left' hrecord rfl⟩,
      fun x hx => hsince x (List.mem_append_left _ hx)⟩

end Record

/-! ## Records of happenings in time -/

namespace Happening

/-- The record before a happening allows it: a player is looked up again only if there was a removal
for every look-up so far, a load is attempted only if no journal is loaded, a journal is opened only
if it was loaded once, and neither without a look-up. -/
def Allowed (before : List Happening) : Happening → Prop
  | lookedUp i _ => ∀ key during, Calling i key before during →
    lookupCount i during ≤ removalCount key during
  | loaded i key _ => loadsSince key before = 0
    ∧ ∀ key during, Calling i key before during → 1 ≤ lookupCount i during
  | opened i key _ => loadsSince key before = 1
    ∧ ∀ key during, Calling i key before during → 1 ≤ lookupCount i during
  | _ => True

theorem allowed_of_isIdle {h : Happening} (hidle : h.isIdle = true) (before : List Happening) :
    h.Allowed before := by
  cases h with
  | lookedUp => cases hidle
  | loaded => cases hidle
  | opened => cases hidle
  | _ => trivial

end Happening

/-- Every happening of the record is allowed by the record before it. -/
def Orderly (record : List Happening) : Prop :=
  ∀ before h, before ++ [h] <+: record → h.Allowed before

namespace Orderly

variable {record p : List Happening} {h : Happening}

theorem nil : Orderly [] := by
  intro before h hstart
  cases before <;> cases List.prefix_nil.mp hstart

theorem concat (hr : Orderly record) (hh : h.Allowed record) : Orderly (record ++ [h]) := by
  intro before g hstart
  rcases List.prefix_concat_iff.mp hstart with hall | hstart
  · obtain rfl : g = h := List.singleton_inj.mp (List.append_inj_right' hall rfl)
    obtain rfl : before = record := List.append_inj_left' hall rfl
    exact hh
  · exact hr before g hstart

theorem of_start (hr : Orderly record) (hp : p <+: record) : Orderly p :=
  fun before h hstart => hr before h (hstart.trans hp)

theorem allowed (hr : Orderly (record ++ [h])) : h.Allowed record := hr record h List.prefix_rfl

theorem init (hr : Orderly (record ++ [h])) : Orderly record := hr.of_start (List.prefix_append ..)

/-- Since the table last forgot a slot of a player, its journal was loaded at most once. -/
theorem loadsSince_le_one (hr : Orderly record) (key : String) : loadsSince key record ≤ 1 := by
  induction record using List.reverseRecOn with
  | nil => exact Nat.zero_le 1
  | append_singleton record h ih =>
      have hbefore := ih hr.init
      cases h with
      | loaded i k succeeded =>
          have hnone : loadsSince k record = 0 := hr.allowed.1
          rw [loadsSince_loaded]
          split
          · rename_i hloaded
            rw [← hloaded.1, hnone]
          · exact hbefore
      | removed i k =>
          rw [loadsSince_removed]
          split
          · exact Nat.zero_le 1
          · exact hbefore
      | _ =>
          rw [loadsSince_concat]
          exact hbefore

/-- Every load but the last is followed by a removal. -/
theorem loadCount_le_since (hr : Orderly record) (key : String) :
    loadCount key record ≤ removalCount key record + loadsSince key record := by
  induction record using List.reverseRecOn with
  | nil => exact Nat.le_refl 0
  | append_singleton record h ih =>
      have hbefore := ih hr.init
      have hone := hr.init.loadsSince_le_one key
      rw [loadCount_concat, removalCount_concat, loadsSince_concat]
      -- a removal is no load: it forgets the one load that may have come before it
      have hexclusive : h.removes key = true → h.loads key = false := by
        cases h <;> simp [Happening.removes, Happening.loads]
      cases hremoves : h.removes key with
      | true =>
          rw [hexclusive hremoves]
          simp only [if_true, Bool.false_eq_true, if_false]
          omega
      | false =>
          simp only [Bool.false_eq_true, if_false]
          omega

theorem loadCount_le (hr : Orderly record) (key : String) :
    loadCount key record ≤ 1 + removalCount key record := by
  have hsince := hr.loadCount_le_since key
  have hone := hr.loadsSince_le_one key
  omega

/-- Between two removals a journal is loaded at most once. -/
theorem loadCount_stretch_le {key : String} {before stretch : List Happening} (hr : Orderly record)
    (hstart : before ++ stretch <+: record) (hnone : removalCount key stretch = 0) :
    loadCount key stretch ≤ 1 := by
  have hone := (hr.of_start hstart).loadsSince_le_one key
  rw [loadsSince_append before hnone] at hone
  omega

/-- Every look-up of a call but the first has a removal during the call of its own. -/
theorem lookupCount_le {i : Nat} {key : String} {during : List Happening} (hr : Orderly record)
    (hcall : Calling i key record during) :
    lookupCount i during ≤ 1 + removalCount key during := by
  induction record using List.reverseRecOn generalizing during with
  | nil => cases List.suffix_nil.mp hcall.1
  | append_singleton record h ih =>
      rcases hcall.of_concat with ⟨-, rfl⟩ | ⟨d, rfl, -, hcalled⟩
      · exact Nat.zero_le _
      · have hbefore := ih hr.init hcalled
        rw [lookupCount_concat, removalCount_concat]
        by_cases hlooks : h.looks i = true
        · have hbounded : lookupCount i d ≤ removalCount key d := by
            cases h with
            | lookedUp k x =>
                obtain rfl : k = i := of_decide_eq_true hlooks
                exact hr.allowed key d hcalled
            | _ => cases hlooks
          rw [if_pos hlooks]
          omega
        · rw [if_neg hlooks]
          omega

/-- A call does not end without a look-up. -/
theorem one_le_lookupCount {i : Nat} {key : String} {during : List Happening}
    (hr : Orderly (record ++ [h])) (hcall : Calling i key record during)
    (hends : h.endsCall i = true) : 1 ≤ lookupCount i during := by
  cases h with
  | opened k x j =>
      obtain rfl : k = i := of_decide_eq_true hends
      exact hr.allowed.2 key during hcall
  | loaded k x succeeded =>
      obtain ⟨hk, -⟩ := (Bool.and_eq_true _ _).mp hends
      obtain rfl : k = i := of_decide_eq_true hk
      exact hr.allowed.2 key during hcall
  | _ => cases hends

end Orderly

/-! ## The invariant -/

/-- How many journals a slot holds. -/
def Slot.journals : Slot → Nat
  | unloaded => 0
  | loaded _ _ => 1

namespace SharedEngine

variable {ρ : Type}

/-- How many journals the slot of a player in the table holds. -/
def inUse (s : SharedEngine ρ) (key : String) : Nat :=
  (((s.table.get? key).bind s.content?).map Slot.journals).getD 0

/-- The bound on the look-ups of a call at each stage of its client: a client that is to look up
again has a removal for every look-up so far, and one that waits for a slot has so too as soon as
the slot is not in the table any more. -/
def LookupsBounded (s : SharedEngine ρ) (i : Nat) (key : String) (during : List Happening) :
    Stage → Prop
  | .seeking username _ =>
    key = playerKey username ∧ lookupCount i during ≤ removalCount key during
  | .waiting username _ n | .arriving username _ n =>
    key = playerKey username ∧ 1 ≤ lookupCount i during
      ∧ (s.table.get? key = some n ∨ lookupCount i during ≤ removalCount key during)
  | .loading _ _ _ | .opening _ _ _ => 1 ≤ lookupCount i during
  | _ => True

/-- The invariant of `load_once`: no slot in the table was given up, the slot in the table holds as
many journals as were loaded since the last removal, the look-ups of every call are within the bound
of `LookupsBounded`, and the record is orderly. -/
structure RetryInvariant (s : SharedEngine ρ) : Prop where
  standing : ∀ key n, s.table.get? key = some n → (s.content? n).isSome = true
  loads : ∀ key, loadsSince key s.record = s.inUse key
  lookupsBounded : ∀ i key during, Calling i key s.record during →
    s.LookupsBounded i key during (s.stage i)
  orderly : Orderly s.record

section Views

variable {s s' : SharedEngine ρ}

@[simp] theorem inUse_enter (i : Nat) (b : Stage) (key : String) :
    (s.enter i b).inUse key = s.inUse key := rfl

@[simp] theorem inUse_note (h : Happening) (key : String) :
    (s.note h).inUse key = s.inUse key := rfl

theorem inUse_erase (k key : String) :
    ({ s with table := s.table.erase k } : SharedEngine ρ).inUse key
      = if k = key then 0 else s.inUse key := by
  simp only [inUse, Dict.get?_erase]
  by_cases hk : k = key
  · rw [if_pos hk, if_pos hk]
    rfl
  · rw [if_neg hk, if_neg hk]
    rfl

theorem inUse_of_table {key : String} {n : Nat} (hin : s.table.get? key = some n) {slot : Slot}
    (hcontent : s.content? n = some slot) : s.inUse key = slot.journals := by
  simp [inUse, hin, hcontent]

theorem inUse_of_none {key : String} (hnone : s.table.get? key = none) : s.inUse key = 0 := by
  simp [inUse, hnone]

theorem inUse_congr {key : String} (htable : s'.table.get? key = s.table.get? key)
    (hcontent : ∀ n, s.table.get? key = some n →
      (s'.content? n).map Slot.journals = (s.content? n).map Slot.journals) :
    s'.inUse key = s.inUse key := by
  unfold inUse
  rw [htable]
  cases hin : s.table.get? key with
  | none => rfl
  | some n => exact congrArg (·.getD 0) (hcontent n hin)

end Views

/-- `LookupsBounded` is stable under steps of other clients, which add removals only. -/
theorem LookupsBounded.frame {s s' : SharedEngine ρ} {i : Nat} {key : String}
    {d d' : List Happening} {a : Stage} (h : s.LookupsBounded i key d a)
    (hle : lookupCount i d ≤ 1 + removalCount key d)
    (hlookups : lookupCount i d' = lookupCount i d)
    (hremovals : removalCount key d ≤ removalCount key d')
    (htable : ∀ n, s.table.get? key = some n →
      s'.table.get? key = some n ∨ removalCount key d' = 1 + removalCount key d) :
    s'.LookupsBounded i key d' a := by
  have hkept : ∀ n, s.table.get? key = some n ∨ lookupCount i d ≤ removalCount key d →
      s'.table.get? key = some n ∨ lookupCount i d' ≤ removalCount key d' := by
    intro n hbounded
    rw [hlookups]
    rcases hbounded with hin | hbounded
    · exact (htable n hin).imp_right fun hremoved => hle.trans_eq hremoved.symm
    · exact Or.inr (hbounded.trans hremovals)
  cases a with
  | seeking username errand => exact ⟨h.1, hlookups ▸ h.2.trans hremovals⟩
  | waiting username errand n => exact ⟨h.1, hlookups ▸ h.2.1, hkept n h.2.2⟩
  | arriving username errand n => exact ⟨h.1, hlookups ▸ h.2.1, hkept n h.2.2⟩
  | loading username rule n => exact h.trans_eq hlookups.symm
  | opening username rule n => exact h.trans_eq hlookups.symm
  | _ => trivial

namespace RetryInvariant

variable {s s' : SharedEngine ρ} {i : Nat} {a b : Stage}

theorem shows (h : s.RetryInvariant) (ha : s.stage i = a) {key : String} {during : List Happening}
    (hcall : Calling i key s.record during) : s.LookupsBounded i key during a :=
  ha ▸ h.lookupsBounded i key during hcall

/-- A slot that was given up is not in the table. -/
theorem not_inTable (h : s.RetryInvariant) {n : Nat} (hgone : s.content? n = none) (key : String) :
    s.table.get? key ≠ some n := fun hin => by
  have hstanding := h.standing key n hin
  rw [hgone] at hstanding
  cases hstanding

/-- Preservation by a step that adds an allowed happening to the record. -/
theorem step (h : s.RetryInvariant) (hstage : ∀ k, s'.stage k = if k = i then b else s.stage k)
    {g : Happening} (hrecord : s'.record = s.record ++ [g]) (hclient : g.client = i)
    (hallowed : g.Allowed s.record)
    (hforget : ∀ key n, s.table.get? key = some n →
      s'.table.get? key = some n ∨ g.removes key = true)
    (hstanding : ∀ key n, s'.table.get? key = some n → (s'.content? n).isSome = true)
    (hloads : ∀ key, loadsSince key (s.record ++ [g]) = s'.inUse key)
    (hbounded : ∀ key during, Calling i key (s.record ++ [g]) during →
      s'.LookupsBounded i key during b) :
    s'.RetryInvariant where
  standing := hstanding
  loads key := hrecord ▸ hloads key
  orderly := hrecord ▸ h.orderly.concat hallowed
  lookupsBounded k key during hcall := by
    rw [hrecord] at hcall
    rw [hstage]
    by_cases hk : k = i
    · subst hk
      rw [if_pos rfl]
      exact hbounded key during hcall
    · rw [if_neg hk]
      have hne : g.client ≠ k := fun heq => hk (heq.symm.trans hclient)
      rcases hcall.of_concat with ⟨rfl, -⟩ | ⟨d, rfl, -, hcall⟩
      · exact absurd rfl hne
      · have hlooks : ¬ g.looks k = true := by
          cases g with
          | lookedUp c x => exact fun htrue => hne (of_decide_eq_true htrue)
          | _ => exact nofun
        refine (h.lookupsBounded k key d hcall).frame (h.orderly.lookupCount_le hcall) ?_ ?_
          fun n hin => ?_
        · rw [lookupCount_concat, if_neg hlooks, Nat.add_zero]
        · rw [removalCount_concat]
          exact Nat.le_add_right ..
        · refine (hforget key n hin).imp_right fun hremoves => ?_
          rw [removalCount_concat, if_pos hremoves, Nat.add_comm]

/-- Preservation by a step that adds nothing that counts to the record and leaves as many journals
in the slots of the table. -/
theorem quiet (h : s.RetryInvariant) (ha : s.stage i = a)
    (hstage : ∀ k, s'.stage k = if k = i then b else s.stage k)
    (hrecord : s'.record = s.record
      ∨ ∃ g, s'.record = s.record ++ [g] ∧ g.client = i ∧ g.isIdle = true)
    (htable : s'.table = s.table)
    (hcontent : ∀ key n, s.table.get? key = some n →
      (s'.content? n).map Slot.journals = (s.content? n).map Slot.journals)
    (hbounded : ∀ key during, s.LookupsBounded i key during a → s.LookupsBounded i key during b) :
    s'.RetryInvariant := by
  subst ha
  have hstanding : ∀ key n, s'.table.get? key = some n → (s'.content? n).isSome = true := by
    intro key n hin
    rw [htable] at hin
    rw [← Option.isSome_map, hcontent key n hin, Option.isSome_map]
    exact h.standing key n hin
  have hinUse : ∀ key, s'.inUse key = s.inUse key := fun key =>
    inUse_congr (by rw [htable]) (hcontent key)
  have hframe : ∀ {k key d d' c}, Calling k key s.record d → s.LookupsBounded k key d c →
      lookupCount k d' = lookupCount k d → removalCount key d' = removalCount key d →
      s'.LookupsBounded k key d' c := fun hcall hbounded hlookups hremovals =>
    hbounded.frame (h.orderly.lookupCount_le hcall) hlookups hremovals.ge
      fun n hin => Or.inl (htable ▸ hin)
  rcases hrecord with hrecord | ⟨g, hrecord, hclient, hidle⟩
  · refine ⟨hstanding, fun key => ?_, fun k key during hcall => ?_, hrecord ▸ h.orderly⟩
    · rw [hrecord, hinUse, h.loads]
    · rw [hrecord] at hcall
      rw [hstage]
      by_cases hk : k = i
      · subst hk
        rw [if_pos rfl]
        exact hframe hcall (hbounded key during (h.lookupsBounded k key during hcall)) rfl rfl
      · rw [if_neg hk]
        exact hframe hcall (h.lookupsBounded k key during hcall) rfl rfl
  · have hsilent : (∀ k, g.looks k = false) ∧ (∀ key, g.loads key = false)
        ∧ (∀ key, g.removes key = false) ∧ ∀ k key, g ≠ .cameFor k key := by
      cases g <;> simp [Happening.isIdle] at hidle <;>
        simp [Happening.looks, Happening.loads, Happening.removes]
    obtain ⟨hlooks, hloads, hremoves, hcomes⟩ := hsilent
    refine h.step hstage hrecord hclient (Happening.allowed_of_isIdle hidle _)
      (fun key n hin => Or.inl (htable ▸ hin)) hstanding (fun key => ?_) fun key during hcall => ?_
    · rw [loadsSince_concat, hremoves, hloads, hinUse, h.loads]
      rfl
    · rcases hcall.of_concat with ⟨hcame, -⟩ | ⟨d, rfl, -, hcall⟩
      · exact absurd hcame (hcomes i key)
      · refine hframe hcall (hbounded key d (h.lookupsBounded i key d hcall)) ?_ ?_
        · rw [lookupCount_concat, hlooks]
          rfl
        · rw [removalCount_concat, hremoves]
          rfl

end RetryInvariant

/-! ## Every step -/

section Steps

variable {owner : Nat → String} {s : SharedEngine ρ} {i n : Nat} {username : String}
  {errand : Errand} {rule : Journal → Ruling Answer}

/-- `LockedSlot.hold` on the slot that a client works on is what the slot in the table holds. -/
theorem Guarded.inUse_hold (h : s.Guarded owner) {a : Stage} (ha : s.stage i = a)
    (hlock : a.lock? = some n) (hmarking : a ≠ .marking n) {slot : Slot}
    (hcontent : s.content? n = some slot) (slot' : Slot) (key : String) :
    (s.atSlot n (.hold slot')).inUse key
      = if owner n = key then slot'.journals else s.inUse key := by
  have hin := h.inTable ha hlock hmarking hcontent
  have hn := (h.made _ n hin).1
  by_cases hkey : owner n = key
  · subst hkey
    rw [if_pos rfl]
    exact inUse_of_table (s := s.atSlot n (.hold slot')) hin (h.content?_hold ha hlock slot')
  · rw [if_neg hkey]
    refine inUse_congr rfl fun m hm => ?_
    have hmn : m ≠ n := fun heq => hkey (heq ▸ (h.made key m hm).2)
    rw [SharedEngine.content?_hold m hn, if_neg hmn]

/-- A slot that was just made holds no journal. -/
theorem Guarded.inUse_withSlot (h : s.Guarded owner) {k : String} (hnone : s.table.get? k = none)
    (key : String) : (s.withSlot k).inUse key = s.inUse key := by
  have htable := s.table_withSlot k key
  by_cases hkey : k = key
  · subst hkey
    have hfresh : (s.withSlot k).content? s.slots.length = some .unloaded := by
      rw [content?_withSlot, if_pos rfl]
    rw [inUse_of_none hnone, inUse_of_table (htable.trans (if_pos rfl)) hfresh]
    rfl
  · refine inUse_congr (htable.trans (if_neg hkey)) fun m hin => ?_
    rw [content?_withSlot, if_neg (Nat.ne_of_lt (h.made key m hin).1)]

theorem RetryInvariant.standing_withSlot (h : s.RetryInvariant) {k key : String} {m : Nat}
    (hin : (s.withSlot k).table.get? key = some m) :
    ((s.withSlot k).content? m).isSome = true := by
  rw [content?_withSlot]
  split
  · rfl
  · rename_i hm
    rw [table_withSlot] at hin
    split at hin
    · exact absurd (Option.some.inj hin).symm hm
    · exact h.standing key m hin

/-- A journal in a slot is replaced by another. -/
theorem Guarded.journals_hold (h : s.Guarded owner) {a : Stage} (ha : s.stage i = a)
    (hlock : a.lock? = some n) (hloaded : s.Loaded n) (j : Journal) (dirty : Bool) (m : Nat) :
    ((s.atSlot n (.hold (.loaded j dirty))).content? m).map Slot.journals
      = (s.content? m).map Slot.journals := by
  subst ha
  obtain ⟨j', dirty', hcontent⟩ := hloaded
  rw [SharedEngine.content?_hold m (h.lt_of_lock hlock)]
  by_cases hm : m = n
  · rw [if_pos hm, hm, hcontent]
    rfl
  · rw [if_neg hm]

theorem retryInvariant_begin (h : s.RetryInvariant) {plan : Plan} {s' : SharedEngine ρ}
    (hbegin : s.begin? i plan = some s') : s'.RetryInvariant := by
  -- a call that has just begun has nothing to show
  have hcome : ∀ {username errand}, s.stage i = .idle → ((s.note
      (.cameFor i (playerKey username))).enter i (.seeking username errand)).RetryInvariant := by
    intro username errand hidle
    refine h.step (fun _ => rfl) rfl rfl trivial (fun _ _ hin => Or.inl hin) h.standing
      (fun key => ?_) fun key during hcall => ?_
    · rw [loadsSince_concat]
      exact h.loads key
    · rcases hcall.of_concat with ⟨hcame, rfl⟩ | ⟨d, rfl, hcomes, -⟩
      · cases hcame
        exact ⟨rfl, Nat.le_refl 0⟩
      · simp [Happening.comesFor?] at hcomes
  cases begins_of_begin? hbegin with
  | settled hidle =>
      exact h.quiet hidle (fun _ => rfl) (Or.inl rfl) rfl (fun _ _ _ => rfl) fun _ _ _ => trivial
  | consult hidle => exact hcome hidle
  | evict hidle => exact hcome hidle

/-- The stage `seeking`: a look-up, after which the client waits for the slot in the table. -/
theorem retryInvariant_seek (hg : s.Guarded owner) (h : s.RetryInvariant)
    (hstage : s.stage i = .seeking username errand) :
    (s.seek i username errand).RetryInvariant := by
  have hseeking : ∀ {key d}, Calling i key s.record d →
      key = playerKey username ∧ lookupCount i d ≤ removalCount key d :=
    fun hcall => h.shows hstage hcall
  have hallowed : (Happening.lookedUp i (playerKey username)).Allowed s.record :=
    fun key d hcall => (hseeking hcall).2
  have hloads : ∀ key, loadsSince key (s.record ++ [.lookedUp i (playerKey username)])
      = s.inUse key := fun key => by
    rw [loadsSince_concat]
    exact h.loads key
  have hwaiting : ∀ {s' : SharedEngine ρ} {m : Nat},
      s'.table.get? (playerKey username) = some m → ∀ key during,
      Calling i key (s.record ++ [.lookedUp i (playerKey username)]) during →
      s'.LookupsBounded i key during (.waiting username errand m) := by
    intro s' m hin key during hcall
    rcases hcall.of_concat with ⟨hcame, -⟩ | ⟨d, rfl, -, hcall⟩
    · cases hcame
    · obtain ⟨rfl, -⟩ := hseeking hcall
      refine ⟨rfl, ?_, Or.inl hin⟩
      simp [lookupCount_concat, Happening.looks]
  unfold seek
  simp only [table_note]
  split
  · rename_i m hin
    exact h.step (fun _ => rfl) rfl rfl hallowed (fun _ _ hin => Or.inl hin) h.standing hloads
      (hwaiting hin)
  · rename_i hnone
    have htable := s.table_withSlot (playerKey username)
    refine h.step (fun _ => rfl) rfl rfl hallowed (fun key m hin => ?_) (fun key m hin => ?_)
      (fun key => ?_) (hwaiting ((htable _).trans (if_pos rfl)))
    · by_cases hkey : playerKey username = key
      · subst hkey
        cases hnone.symm.trans hin
      · exact Or.inl ((htable key).trans ((if_neg hkey).trans hin))
    · exact h.standing_withSlot hin
    · exact (hloads key).trans (hg.inUse_withSlot hnone key).symm
  · exact h.step (fun _ => rfl) rfl rfl hallowed (fun _ _ hin => Or.inl hin) h.standing hloads
      fun _ _ _ => trivial

/-- The stage `arriving`: a slot that is given up is not in the table any more. -/
theorem retryInvariant_arrive (h : s.RetryInvariant)
    (hstage : s.stage i = .arriving username errand n) :
    (s.arrive i username errand n).RetryInvariant := by
  have hgoOn : ∀ b : Stage, (∀ key d, s.LookupsBounded i key d (.arriving username errand n) →
      s.LookupsBounded i key d b) → (s.enter i b).RetryInvariant := fun b hbounded =>
    h.quiet hstage (fun _ => rfl) (Or.inl rfl) rfl (fun _ _ _ => rfl) hbounded
  unfold arrive
  split
  · rename_i hgone
    refine h.quiet hstage (fun _ => rfl) (Or.inl rfl) rfl (fun _ _ _ => by simp) fun key d hp => ?_
    exact ⟨hp.1, hp.2.2.resolve_left (h.not_inTable hgone key)⟩
  · exact hgoOn _ fun _ _ _ => trivial
  · exact hgoOn _ fun _ _ hp => hp.2.1
  · exact hgoOn _ fun _ _ hp => hp.2.1
  · exact hgoOn _ fun _ _ _ => trivial
  · exact hgoOn _ fun _ _ _ => trivial

theorem retryInvariant_take (h : s.RetryInvariant)
    (hstage : s.stage i = .waiting username errand n) :
    ((s.atSlot n (.lock i)).enter i (.arriving username errand n)).RetryInvariant :=
  h.quiet hstage (fun _ => rfl) (Or.inl rfl) rfl (fun _ _ _ => by simp) fun _ _ hp => hp

/-- The stage `opening`: the journal was loaded since the last removal. -/
theorem retryInvariant_openJournal (hg : s.Guarded owner) (h : s.RetryInvariant)
    (hstage : s.stage i = .opening username rule n) :
    (s.openJournal i username rule n).RetryInvariant := by
  obtain ⟨howner, j, dirty, hcontent⟩ := hg.relies hstage
  have hin := howner ▸ hg.inTable hstage rfl nofun hcontent
  have hlooked : ∀ key d, Calling i key s.record d → 1 ≤ lookupCount i d :=
    fun _ _ hcall => h.shows hstage hcall
  simp only [openJournal, hcontent]
  refine h.step (fun _ => rfl) rfl rfl ⟨?_, hlooked⟩ (fun _ _ hin => Or.inl hin) h.standing
    (fun key => ?_) fun _ _ _ => trivial
  · rw [h.loads, inUse_of_table hin hcontent]
    rfl
  · rw [loadsSince_concat]
    exact h.loads key

theorem retryInvariant_apply (hg : s.Guarded owner) (h : s.RetryInvariant) {j : Journal}
    (hstage : s.stage i = .holding username rule n j) :
    (s.apply i username rule n j).RetryInvariant := by
  obtain ⟨-, dirty, hcontent⟩ := hg.relies hstage
  have hhold : ∀ j', ∀ m, ((s.atSlot n (.hold (.loaded j' true))).content? m).map Slot.journals
      = (s.content? m).map Slot.journals := fun j' =>
    hg.journals_hold hstage rfl ⟨j, dirty, hcontent⟩ j' true
  unfold apply
  split
  · exact h.quiet hstage (fun _ => rfl) (Or.inl rfl) rfl (fun _ _ _ => rfl) fun _ _ _ => trivial
  · exact h.quiet hstage (fun _ => rfl) (Or.inl rfl) rfl (fun _ m _ => hhold _ m)
      fun _ _ _ => trivial
  · exact h.quiet hstage (fun _ => rfl) (Or.inl rfl) rfl (fun _ m _ => hhold _ m)
      fun _ _ _ => trivial

theorem retryInvariant_close (h : s.RetryInvariant) {parting : Parting}
    (hstage : s.stage i = .closing username n parting) :
    (s.close i username n parting).RetryInvariant := by
  unfold close
  split
  · refine h.quiet hstage (fun _ => rfl) (Or.inr ⟨_, rfl, rfl, rfl⟩) rfl (fun _ m _ => ?_)
      fun _ _ _ => trivial
    rw [content?_enter, content?_unlock]
    rfl
  · exact h.quiet hstage (fun _ => rfl) (Or.inl rfl) rfl (fun _ _ _ => by simp)
      fun _ _ _ => trivial

/-- The stage `removing`: a removal, after which nothing is loaded for the player. -/
theorem retryInvariant_remove (hg : s.Guarded owner) (h : s.RetryInvariant)
    (hstage : s.stage i = .removing username n) : (s.remove i username n).RetryInvariant := by
  have herased : ∀ key, (s.table.erase (playerKey username)).get? key
      = if playerKey username = key then none else s.table.get? key :=
    Dict.get?_erase s.table (playerKey username)
  rw [remove_eq hg hstage]
  refine h.step (fun _ => rfl) rfl rfl trivial (fun key m hin => ?_) (fun key m hin => ?_)
    (fun key => ?_) fun _ _ _ => trivial
  · by_cases hkey : playerKey username = key
    · exact Or.inr (decide_eq_true hkey)
    · exact Or.inl ((herased key).trans ((if_neg hkey).trans hin))
  · have hin : (s.table.erase (playerKey username)).get? key = some m := hin
    rw [herased] at hin
    split at hin
    · cases hin
    · exact h.standing key m hin
  · rw [loadsSince_removed, h.loads, inUse_enter, inUse_note, inUse_erase]

/-- The stage `marking`: the slot is not in the table. -/
theorem retryInvariant_mark (hg : s.Guarded owner) (h : s.RetryInvariant)
    (hstage : s.stage i = .marking n)
    (parting : Parting) : ((s.atSlot n .giveUp).enter i (.leaving n parting)).RetryInvariant := by
  refine h.quiet hstage (fun _ => rfl) (Or.inl rfl) rfl (fun key m hin => ?_) fun _ _ _ => trivial
  have hout : s.table.get? (owner n) ≠ some n := hg.relies hstage
  have hm : m ≠ n := by
    rintro rfl
    exact hout ((hg.made key m hin).2 ▸ hin)
  rw [content?_enter, content?_giveUp, if_neg hm]

theorem retryInvariant_leave (h : s.RetryInvariant) {parting : Parting}
    (hstage : s.stage i = .leaving n parting) :
    ((s.atSlot n .unlock).enter i (.publishing parting)).RetryInvariant :=
  h.quiet hstage (fun _ => rfl) (Or.inl rfl) rfl (fun _ _ _ => by simp) fun _ _ _ => trivial

theorem retryInvariant_publish (h : s.RetryInvariant) {parting : Parting}
    (hstage : s.stage i = .publishing parting) : (s.publish i parting).RetryInvariant := by
  rcases parting with ⟨_ | ⟨n, news⟩, answer⟩
  · exact h.quiet hstage (fun _ => rfl) (Or.inr ⟨_, rfl, rfl, rfl⟩) rfl (fun _ _ _ => rfl)
      fun _ _ _ => trivial
  · exact h.quiet hstage (fun _ => rfl) (Or.inr ⟨_, rfl, rfl, rfl⟩) rfl (fun _ _ _ => rfl)
      fun _ _ _ => trivial

variable [Repository ρ]

/-- The stage `loading`: no journal was loaded since the last removal. -/
theorem retryInvariant_load (hg : s.Guarded owner) (h : s.RetryInvariant) (c : Circumstances)
    (hstage : s.stage i = .loading username rule n) :
    (s.load c i username rule n).RetryInvariant := by
  obtain ⟨howner, hcontent⟩ := hg.relies hstage
  have hinTable := hg.inTable hstage rfl nofun hcontent
  have hnone : loadsSince (playerKey username) s.record = 0 := by
    rw [h.loads, inUse_of_table (howner ▸ hinTable) hcontent]
    rfl
  have hlooked : ∀ key d, Calling i key s.record d → 1 ≤ lookupCount i d :=
    fun _ _ hcall => h.shows hstage hcall
  unfold load
  split
  · rename_i j _
    have hinUse := hg.inUse_hold hstage rfl nofun hcontent (.loaded j false)
    refine h.step (fun _ => rfl) rfl rfl ⟨hnone, hlooked⟩ (fun _ _ hin => Or.inl hin)
      (fun key m hin => ?_) (fun key => ?_) fun key during hcall => ?_
    · have hn := (hg.made _ n hinTable).1
      show ((s.atSlot n (.hold (.loaded j false))).content? m).isSome = true
      rw [SharedEngine.content?_hold m hn]
      split
      · rfl
      · exact h.standing key m hin
    · rw [loadsSince_loaded, inUse_enter, inUse_note, hinUse, howner]
      by_cases hkey : playerKey username = key
      · rw [if_pos ⟨hkey, rfl⟩, if_pos hkey, ← hkey, hnone]
        rfl
      · rw [if_neg fun hloaded => hkey hloaded.1, if_neg hkey, h.loads]
    · rcases hcall.of_concat with ⟨hcame, -⟩ | ⟨d, rfl, -, hcall⟩
      · cases hcame
      · show 1 ≤ lookupCount i (d ++ [_])
        rw [lookupCount_concat]
        exact hlooked key d hcall
  · refine h.step (fun _ => rfl) rfl rfl ⟨hnone, hlooked⟩ (fun _ _ hin => Or.inl hin) h.standing
      (fun key => ?_) fun _ _ _ => trivial
    rw [loadsSince_loaded, if_neg (by simp), h.loads, inUse_enter, inUse_note]

theorem retryInvariant_write (hg : s.Guarded owner) (h : s.RetryInvariant) (c : Circumstances)
    {a b : Stage} (hstage : s.stage i = a) (hlock : a.lock? = some n) (hloaded : s.Loaded n)
    (hbounded : ∀ key during, s.LookupsBounded i key during b) :
    ((s.write c i n).1.enter i b).RetryInvariant := by
  have hhold := hg.journals_hold hstage hlock hloaded
  obtain ⟨j, dirty, hcontent⟩ := hloaded
  rcases s.write_cases c i hcontent with ⟨e, hwrite⟩ | hwrite
  · rw [hwrite]
    exact h.quiet hstage (fun _ => rfl) (Or.inr ⟨_, rfl, rfl, rfl⟩) rfl
      (fun _ m _ => hhold _ _ m) fun key d _ => hbounded key d
  · rw [hwrite]
    exact h.quiet hstage (fun _ => rfl) (Or.inr ⟨_, rfl, rfl, rfl⟩) rfl
      (fun _ m _ => hhold _ _ m) fun key d _ => hbounded key d

theorem retryInvariant_step (hg : s.Guarded owner) (h : s.RetryInvariant) (c : Circumstances)
    {s' : SharedEngine ρ} (hstep : s.step? c i = some s') : s'.RetryInvariant := by
  cases advance_of_step? hstep with
  | seek hstage => exact retryInvariant_seek hg h hstage
  | take hstage => exact retryInvariant_take h hstage
  | arrive hstage => exact retryInvariant_arrive h hstage
  | load hstage => exact retryInvariant_load hg h c hstage
  | openJournal hstage => exact retryInvariant_openJournal hg h hstage
  | apply hstage => exact retryInvariant_apply hg h hstage
  | save hstage =>
      exact retryInvariant_write hg h c hstage rfl (hg.relies hstage).2 fun _ _ => trivial
  | close hstage => exact retryInvariant_close h hstage
  | flush hstage =>
      exact retryInvariant_write hg h c hstage rfl (hg.relies hstage).2 fun _ _ => trivial
  | flushFailed hstage =>
      exact retryInvariant_write hg h c hstage rfl (hg.relies hstage).2 fun _ _ => trivial
  | remove hstage => exact retryInvariant_remove hg h hstage
  | mark hstage => exact retryInvariant_mark hg h hstage _
  | leave hstage => exact retryInvariant_leave h hstage
  | publish hstage => exact retryInvariant_publish h hstage

theorem retryInvariant_move (hg : s.Guarded owner) (h : s.RetryInvariant) {m : Move}
    {s' : SharedEngine ρ}
    (hmove : s.move? m = some s') : s'.RetryInvariant := by
  cases m with
  | start client plan => exact retryInvariant_begin h hmove
  | proceed client c => exact retryInvariant_step hg h c hmove

end Steps

/-! ## Runs -/

section Runs

variable {s s' : SharedEngine ρ}

theorem retryInvariant_new (repository : ρ) (limit : Nat) :
    (new repository limit).RetryInvariant where
  standing key n hin := by cases hin
  loads key := rfl
  lookupsBounded i key during hcall := by cases List.suffix_nil.mp hcall.1
  orderly := .nil

variable [Repository ρ]

theorem run_retryInvariant {owner : Nat → String} {moves : List Move} (hg : s.Guarded owner)
    (h : s.RetryInvariant) (hrun : s.run? moves = some s') :
    (∃ owner', s'.Guarded owner') ∧ s'.RetryInvariant := by
  induction moves generalizing s owner with
  | nil =>
      cases hrun
      exact ⟨⟨owner, hg⟩, h⟩
  | cons m moves ih =>
      obtain ⟨s₁, hmove, hrest⟩ := Option.bind_eq_some_iff.mp hrun
      obtain ⟨owner₁, hg₁⟩ := guarded_move hg hmove
      exact ih hg₁ (retryInvariant_move hg h hmove) hrest

end Runs

/-! ### What a client meets at a slot -/

section Slots

variable [Repository ρ] {owner : Nat → String} {s : SharedEngine ρ} {i n : Nat}
  {username : String} {rule : Journal → Ruling Answer}

/-- The step from `arriving` is decided by the table and the record: to `seeking` if the slot is not
in the table, and else to `loading` if the journal was not loaded since the last removal. -/
theorem RetryInvariant.step?_arriving (hg : s.Guarded owner) (h : s.RetryInvariant)
    (hstage : s.stage i = .arriving username (.consult rule) n) (c : Circumstances) :
    s.step? c i = some (
      if s.table.get? (playerKey username) = some n then
        s.enter i (if loadsSince (playerKey username) s.record = 0 then .loading username rule n
          else .opening username rule n)
      else (s.atSlot n .unlock).enter i (.seeking username (.consult rule))) := by
  have howner : owner n = playerKey username := hg.relies hstage
  simp only [step?, hstage, arrive]
  cases hcontent : s.content? n with
  | none =>
      rw [if_neg (h.not_inTable hcontent _)]
  | some slot =>
      have hin := howner ▸ hg.inTable hstage rfl (fun hmarking => by cases hmarking) hcontent
      rw [if_pos hin, h.loads, inUse_of_table hin hcontent]
      cases slot <;> rfl

/-- A load that fails leaves the slot in the table, with nothing in it. -/
theorem RetryInvariant.step?_loading (hg : s.Guarded owner) (h : s.RetryInvariant)
    (hstage : s.stage i = .loading username rule n) {c : Circumstances} {e : StoreError}
    (hfails : Repository.load s.repository s.limit c username = .error e) :
    ∃ s', s.step? c i = some s' ∧ s'.table = s.table ∧ s'.slots = s.slots
      ∧ s'.table.get? (playerKey username) = some n
      ∧ loadsSince (playerKey username) s'.record = 0 := by
  obtain ⟨howner, hcontent⟩ := hg.relies hstage
  have hin := howner ▸ hg.inTable hstage rfl nofun hcontent
  have hafter := retryInvariant_load hg h c hstage
  simp only [step?, hstage]
  refine ⟨_, rfl, ?_⟩
  unfold load at hafter ⊢
  rw [hfails] at hafter ⊢
  refine ⟨rfl, rfl, hin, ?_⟩
  rw [hafter.loads, inUse_enter, inUse_note, inUse_of_table hin hcontent]
  rfl

end Slots

end SharedEngine

/-- **Loads and look-ups are bounded by removals.** In every run of any number of clients over a
repository, whatever fails:

- The journal of a player is loaded at most once more often than the table forgets a slot of the
  player, and between two removals at most once. Whoever takes the journal in hand has it from the
  one load since the last removal.
- A load that fails leaves the slots as they are, and that of the player in the table. Who comes
  to the slot in the table next loads the journal, unless it was loaded since the last removal;
  only who comes to a slot that is no longer in the table has to look the player up again.
- During a call a client looks the player up at most once more often than the table forgets a slot
  of the player, and if it forgets none, exactly once until the call ends. -/
theorem load_once {ρ : Type} [Repository ρ] (repository : ρ) (limit : Nat) (moves : List Move)
    (s : SharedEngine ρ) (hrun : (SharedEngine.new repository limit).run? moves = some s) :
    ((∀ key, loadCount key s.record ≤ 1 + removalCount key s.record)
      ∧ (∀ key before stretch, before ++ stretch <+: s.record → removalCount key stretch = 0 →
        loadCount key stretch ≤ 1)
      ∧ ∀ before i key j, before ++ [.opened i key j] <+: s.record → loadsSince key before = 1)
    ∧ ((∀ i username rule n c e, s.stage i = .loading username rule n →
        Repository.load s.repository s.limit c username = .error e →
        ∃ s', s.step? c i = some s' ∧ s'.table = s.table ∧ s'.slots = s.slots
          ∧ s'.table.get? (playerKey username) = some n
          ∧ loadsSince (playerKey username) s'.record = 0)
      ∧ ∀ i username rule n c, s.stage i = .arriving username (.consult rule) n →
        s.step? c i = some (
          if s.table.get? (playerKey username) = some n then
            s.enter i (if loadsSince (playerKey username) s.record = 0 then
              .loading username rule n else .opening username rule n)
          else (s.atSlot n .unlock).enter i (.seeking username (.consult rule))))
    ∧ ∀ before i key during, before ++ .cameFor i key :: during <+: s.record →
      (∀ k, .cameFor i k ∉ during) →
      lookupCount i during ≤ 1 + removalCount key during
      ∧ ∀ h, before ++ .cameFor i key :: during ++ [h] <+: s.record → h.endsCall i = true →
        1 ≤ lookupCount i during ∧ (removalCount key during = 0 → lookupCount i during = 1) := by
  obtain ⟨⟨owner, hg⟩, hs⟩ := SharedEngine.run_retryInvariant
    (SharedEngine.guarded_new repository limit fun _ => "")
    (SharedEngine.retryInvariant_new repository limit) hrun
  have hr := hs.orderly
  refine ⟨⟨hr.loadCount_le, fun key before stretch hstart => hr.loadCount_stretch_le hstart,
      fun before i key j hstart => (hr before _ hstart).1⟩,
    ⟨fun i username rule n c e hstage => hs.step?_loading hg hstage,
      fun i username rule n c hstage => hs.step?_arriving hg hstage c⟩,
    fun before i key during hstart hstays => ?_⟩
  have hcall := calling_append key before hstays
  have hbound := (hr.of_start hstart).lookupCount_le hcall
  refine ⟨hbound, fun h hsettled hends => ?_⟩
  have hone := (hr.of_start hsettled).one_le_lookupCount hcall hends
  exact ⟨hone, fun hnone => by omega⟩

/-- The hunt with several clients, after one more client has come when nothing could be loaded. -/
def retriedMoves : List Move :=
  .start 3 (planned (.complete "Ann" "rats")) :: steps 3 3 ++ .proceed 3 unloaded :: steps 3 2
    ++ ratHuntMoves

/-- The journal is loaded again after the player was let go, and the client that waited for the
slot looks the player up again. -/
theorem load_once_ratHunt :
    ∃ s, (SharedEngine.new MemoryRepository.empty 5000).run? retriedMoves = some s
      ∧ loadCount "ann" s.record = 2 ∧ 2 ≤ 1 + removalCount "ann" s.record
      ∧ ∃ before during h, before ++ .cameFor 2 "ann" :: during ++ [h] = s.record
        ∧ (∀ k, .cameFor 2 k ∉ during) ∧ h.endsCall 2 = true
        ∧ lookupCount 2 during = 2 ∧ 2 ≤ 1 + removalCount "ann" during
        ∧ 1 ≤ lookupCount 2 during := by
  have hends : ((SharedEngine.new MemoryRepository.empty 5000).run? retriedMoves).any (fun s =>
      loadCount "ann" s.record = 2 ∧ s.record[8]?.bind (·.comesFor? 2) = some "ann"
        ∧ lookupCount 2 (s.record.drop 9).dropLast = 2
        ∧ (∀ h ∈ (s.record.drop 9).dropLast, h.comesFor? 2 = none)
        ∧ (s.record.drop 9).getLast?.any (·.endsCall 2) = true) = true := by decide +kernel
  obtain ⟨s, hrun, hs⟩ := (Option.any_eq_true _ _).mp hends
  obtain ⟨hloads, hcame, hlookups, hstays, hlast⟩ := of_decide_eq_true hs
  obtain ⟨g, hg, hkey⟩ := Option.bind_eq_some_iff.mp hcame
  obtain ⟨h, hh, hends⟩ := (Option.any_eq_true _ _).mp hlast
  obtain rfl : g = .cameFor 2 "ann" := by
    cases g with
    | cameFor k key =>
        obtain ⟨rfl, rfl⟩ : k = 2 ∧ key = "ann" := by simpa [Happening.comesFor?] using hkey
        rfl
    | _ => cases hkey
  obtain ⟨hlt, heq⟩ := List.getElem?_eq_some_iff.mp hg
  have hrecord : s.record.take 8 ++ .cameFor 2 "ann" :: (s.record.drop 9).dropLast ++ [h]
      = s.record := by
    rw [List.append_assoc, List.cons_append, List.dropLast_append_getLast? h hh, ← heq,
      ← List.drop_eq_getElem_cons hlt, List.take_append_drop]
  have hcomes : ∀ k, .cameFor 2 k ∉ (s.record.drop 9).dropLast := fun k hk => by
    simpa [Happening.comesFor?] using hstays _ hk
  obtain ⟨⟨hbound, -, -⟩, -, hcalls⟩ := load_once MemoryRepository.empty 5000 retriedMoves s hrun
  obtain ⟨hbounded, hended⟩ := hcalls _ 2 "ann" (s.record.drop 9).dropLast ⟨[h], hrecord⟩ hcomes
  exact ⟨s, hrun, hloads, hloads ▸ hbound "ann", _, _, h, hrecord, hcomes, hends, hlookups,
    hlookups ▸ hbounded, (hended h ⟨[], (List.append_nil _).trans hrecord⟩ hends).1⟩

end Questline
