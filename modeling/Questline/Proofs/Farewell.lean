import Questline.Proofs.Independence
import Questline.Proofs.Writing

/-!
# Evictions that can be refused

`Store.evict` writes a dirty journal first, and keeps it in use if that fails. A journal becomes
dirty when a rule opens it for a change, even if there is nothing to change then
(`Operation.opens`), and clean when it is loaded or written. `Engine.pending` computes that from the
operations and the accesses of a run alone, and the marks of the store agree with it
(`Engine.take_marked`).

So a player whose journal was not opened since it was last loaded or written is evicted without a
write, whatever fails, and has nothing to lose (`released_unwritten`). It is not enough that nothing
has changed: after the death of a cat, which no objective waits for, the eviction can be refused
(`unchanged_refused`).
-/

namespace Questline

/-! ## Opening a journal for a change -/

/-- Whether a ruling opens the journal for a change. -/
def Ruling.opens {α : Type} : Ruling α → Bool
  | look _ => false
  | handle _ _ => true
  | commit _ _ _ => true

theorem Ruling.opens_map {α β : Type} (f : α → β) (r : Ruling α) : (r.map f).opens = r.opens := by
  cases r <;> rfl

theorem Rules.Transition.opens_ruling {α : Type} (t : Transition) (answer : α) :
    (t.ruling answer).opens = true := by
  unfold ruling
  split <;> rfl

namespace Operation

/-- Whether an operation opens the journal that it finds for a change, be it to find nothing to do:
a start does so if it is allowed, a pick if the option is offered, and every operation that ends
quests, sets a variable or offers amounts does so in any case. -/
def opens (c : Catalog) (now : Instant) (j : Journal) : Operation → Bool
  | start p quest force step =>
    (c.get? quest).any fun q => (force || (Rules.refusal? q p now j).isNone)
      && (Rules.startingStep? q step).isSome && !j.isActive q.id
  | advanceTo _ quest step => (c.get? quest).any fun q => (q.step? step).isSome
  | choose p npc quest option => (Rules.choice? c p npc quest option j).isSome
  | abandon _ _ | complete _ _ | fail _ _ _ | report _ _ _ | poll _ | setVariable _ _ _ _ => true
  | canStart _ _ | available _ | dialogues _ _ | allDialogues _ _ | progress _ | status _ _
  | evict _ => false

theorem opens_start (q : Quest) (p : Player) (force : Bool) (step : Option String) (now : Instant)
    (j : Journal) :
    (Rules.start q p force step now j).opens
      = ((force || (Rules.refusal? q p now j).isNone) && (Rules.startingStep? q step).isSome
        && !j.isActive q.id) := by
  unfold Rules.start
  cases force <;> cases Rules.refusal? q p now j <;> cases Rules.startingStep? q step <;>
    cases j.isActive q.id <;> rfl

theorem opens_choose (c : Catalog) (p : Player) (npc quest option : String) (now : Instant)
    (j : Journal) :
    (Rules.choose c p npc quest option now j).opens
      = (Rules.choice? c p npc quest option j).isSome := by
  cases hchoice : Rules.choice? c p npc quest option j with
  | none =>
      simp only [Rules.choose, hchoice]
      rfl
  | some picked =>
      obtain ⟨q, origin, picked⟩ := picked
      rcases choose_cases now hchoice with ⟨-, answer, hr⟩ | ⟨target, b, answer, -, -, -, hr⟩
      · rw [hr, Rules.Transition.opens_ruling]
        rfl
      · rw [hr]
        rfl

/-- An operation opens the journal for a change as its rule does. -/
theorem opens_plan {c : Catalog} {now : Instant} {op : Operation} {username : String}
    {rule : Journal → Ruling Answer} (h : op.plan c now = .consult username rule) (j : Journal) :
    (rule j).opens = op.opens c now j := by
  cases consults_of_plan h with
  | start p quest force step hq =>
      rw [Ruling.opens_map, opens_start, opens, hq]
      rfl
  | abandon _ quest =>
      rw [Ruling.opens_map, Rules.abandon]
      split <;> rfl
  | complete _ quest =>
      rw [Ruling.opens_map, Rules.complete]
      split <;> rfl
  | fail _ quest reason =>
      rw [Ruling.opens_map, Rules.fail]
      split <;> rfl
  | report _ event payload =>
      rw [Ruling.opens_map, Rules.report, Rules.Transition.opens_ruling]
      rfl
  | poll p =>
      rw [Ruling.opens_map, Rules.poll, Rules.Transition.opens_ruling]
      rfl
  | advanceTo _ quest step hq htarget =>
      rw [Ruling.opens_map, Rules.advanceTo, opens, hq, Option.any_some, htarget]
      split <;> rfl
  | setVariable _ quest key value =>
      rw [Ruling.opens_map, Rules.setVariable]
      split <;> rfl
  | choose p npc quest option =>
      rw [Ruling.opens_map, opens_choose]
      rfl
  | _ => rfl

theorem opens_settled {c : Catalog} {now : Instant} {op : Operation}
    {answer : Except Refusal Answer} (h : op.plan c now = .settled answer) (j : Journal) :
    op.opens c now j = false := by
  cases settles_of_plan h with
  | start p quest force step hq =>
      rw [opens, hq]
      rfl
  | canStart p quest hq => rfl
  | advanceNowhere _ quest step hq =>
      rw [opens, hq]
      rfl
  | advanceTo _ quest step hq htarget =>
      rw [opens, hq, Option.any_some, htarget]
      rfl

end Operation

/-! ## The mark, from the operations and the accesses -/

namespace Access

/-- The player that an attempt is about. -/
def key : Access → String
  | load u _ => playerKey u
  | save j _ => playerKey j.username

/-- A journal was loaded. -/
def loads : Access → Bool
  | load _ succeeded => succeeded
  | save _ _ => false

/-- A journal was written. -/
def saves : Access → Bool
  | load _ _ => false
  | save _ succeeded => succeeded

end Access

variable {ρ : Type} [Repository ρ]

namespace Engine

/-- Whether a turn opens the journal of a player for a change. -/
def opens (e : Engine ρ) (key : String) : Turn → Bool
  | .perform c op =>
    playerKey op.username = key
      && ((e.store.fetch c op.username).result.toOption.any fun j => op.opens e.catalog c.now j)
  | .reload _ => false

/-- Whether the journal of a player was opened for a change after it was last loaded or written,
after a turn and if it was so or not before. -/
def pendingAfter (e : Engine ρ) (key : String) (before : Bool) (t : Turn) : Bool :=
  let about := (e.take t).accesses.filter (·.key = key)
  !about.any Access.saves && (e.opens key t || before && !about.any Access.loads)

/-- The same after a run. -/
def pending (key : String) : Engine ρ → Bool → List Turn → Bool
  | _, before, [] => before
  | e, before, t :: turns => pending key (e.take t).engine (e.pendingAfter key before t) turns

theorem opens_of_found {e : Engine ρ} {c : Circumstances} {op : Operation} {j : Journal}
    (h : (e.store.fetch c op.username).result = .ok j) :
    e.opens (playerKey op.username) (.perform c op) = op.opens e.catalog c.now j := by
  rw [opens, h, decide_eq_true rfl, Bool.true_and]
  rfl

theorem opens_of_never {e : Engine ρ} {c : Circumstances} {op : Operation}
    (h : ∀ j, op.opens e.catalog c.now j = false) (key : String) :
    e.opens key (.perform c op) = false := by
  rw [opens, funext h]
  cases (e.store.fetch c op.username).result.toOption <;> exact Bool.and_false _

theorem opens_of_other {e : Engine ρ} {c : Circumstances} {op : Operation} {key : String}
    (h : playerKey op.username ≠ key) : e.opens key (.perform c op) = false := by
  rw [opens, decide_eq_false h, Bool.false_and]

variable {e : Engine ρ} {key : String} {before : Bool}

/-- `pendingAfter` of a turn whose accesses are all about the player. -/
theorem pendingAfter_of_keyed {t : Turn} (h : ∀ a ∈ (e.take t).accesses, a.key = key) :
    e.pendingAfter key before t = (!(e.take t).accesses.any Access.saves
      && (e.opens key t || before && !(e.take t).accesses.any Access.loads)) := by
  have hall : (e.take t).accesses.filter (·.key = key) = (e.take t).accesses :=
    List.filter_eq_self.mpr fun a ha => decide_eq_true (h a ha)
  simp only [pendingAfter, hall]

theorem pendingAfter_of_other {t : Turn} (h : ∀ a ∈ (e.take t).accesses, a.key ≠ key)
    (hopens : e.opens key t = false) : e.pendingAfter key before t = before := by
  have hnone : (e.take t).accesses.filter (·.key = key) = [] :=
    List.filter_eq_nil_iff.mpr fun a ha => by simpa using h a ha
  simp only [pendingAfter, hnone, hopens, List.any_nil, Bool.not_false, Bool.true_and,
    Bool.false_or, Bool.and_true]

theorem pendingAfter_of_idle {t : Turn} (h : (e.take t).accesses = [])
    (hopens : e.opens key t = false) : e.pendingAfter key before t = before :=
  pendingAfter_of_other (fun _ ha => absurd (h ▸ ha) List.not_mem_nil) hopens

end Engine

omit [Repository ρ] in
theorem Store.isCached_release (s : Store ρ) (username : String) :
    (s.release username).isCached username = false := by
  rw [isCached, slot?_release, Option.isSome_none]

variable [TableRepository ρ]

namespace Engine

/-- All attempts of an operation are about its player. -/
theorem run_keyed {e : Engine ρ} (hs : e.store.Sound) (c : Circumstances) (op : Operation) :
    ∀ a ∈ (e.run c op).accesses, a.key = playerKey op.username := by
  have hloads : ∀ {username : String} {accesses : List Access},
      accesses = [] ∨ accesses = [.load username true] →
      ∀ a ∈ accesses, a.key = playerKey username := by
    rintro username _ (rfl | rfl) a ha
    · cases ha
    · rw [List.mem_singleton.mp ha]
      rfl
  cases hplan : op.plan e.catalog c.now with
  | settled answer =>
      rw [run_settled hplan]
      exact fun a ha => absurd ha List.not_mem_nil
  | evict username =>
      obtain ⟨u, rfl⟩ := Operation.isEvict_of_plan hplan
      show ∀ a ∈ (e.store.evict c u).accesses, a.key = playerKey u
      have hevicted := e.store.evicted c u
      generalize e.store.evict c u = v at hevicted ⊢
      cases hevicted with
      | absent | unloaded | clean => exact fun a ha => absurd ha List.not_mem_nil
      | refused j _ hslot | stored j _ hslot =>
          intro a ha
          rw [List.mem_singleton.mp ha]
          exact (hs _).slot_keyed j true hslot
  | consult username rule =>
      obtain rfl := Operation.username_of_plan hplan
      cases hfound : (e.store.fetch c op.username).result with
      | error err =>
          simp only [run, hplan, consult, Store.fetch_lost hfound]
          intro a ha
          rw [List.mem_singleton.mp ha]
          rfl
      | ok j =>
          cases hrule : rule j with
          | look answer =>
              obtain ⟨haccesses, -⟩ := run_free hplan hfound (Or.inl ⟨hrule, rfl⟩)
              exact hloads haccesses
          | handle i answer =>
              obtain ⟨haccesses, -⟩ := run_free hplan hfound (Or.inr hrule)
              exact hloads haccesses
          | commit i news answer =>
              obtain ⟨⟨loads, succeeded, haccesses, hloaded⟩, -⟩ := run_commit hplan hfound hrule
              have hname := Operation.username_plan hplan j
              rw [hrule] at hname
              rw [haccesses]
              intro a ha
              rcases List.mem_append.mp ha with ha | ha
              · exact hloads hloaded a ha
              · rw [List.mem_singleton.mp ha]
                show playerKey i.username = _
                rw [show i.username = j.username from hname, fetch_result_eq_opened hfound]
                exact hs.opened_keyed c op.username

/-- The mark on the slot of a player, if a journal is in use. -/
def Marked (e : Engine ρ) (key : String) (pending : Bool) : Prop :=
  ∀ j dirty, (e.store.place key).slot = some (.loaded j dirty) → dirty = pending

theorem marked_of_slot {e : Engine ρ} {username : String} {j : Journal} {dirty : Bool}
    (h : e.store.slot? username = some (.loaded j dirty)) :
    e.Marked (playerKey username) dirty := by
  intro i d hslot
  have hsame : some (Slot.loaded j dirty) = some (.loaded i d) := h.symm.trans hslot
  cases hsame
  rfl

variable {e : Engine ρ} {before : Bool} {c : Circumstances} {op : Operation}

/-- An operation that finds the journal marks it if its rule opens it and no write succeeds. -/
theorem consult_marked (hs : e.store.Sound) {username : String} {rule : Journal → Ruling Answer}
    (hplan : op.plan e.catalog c.now = .consult username rule) {j : Journal}
    (hfound : (e.store.fetch c op.username).result = .ok j)
    (h : e.Marked (playerKey op.username) before) :
    (e.run c op).engine.Marked (playerKey op.username)
      (e.pendingAfter (playerKey op.username) before (.perform c op)) := by
  obtain rfl := Operation.username_of_plan hplan
  rw [pendingAfter_of_keyed (t := .perform c op) (run_keyed hs c op), opens_of_found hfound,
    ← Operation.opens_plan hplan j, show e.take (.perform c op) = e.run c op from rfl]
  obtain ⟨s, accesses, dirty, hfetch, hslot, hdirty, hunsaved⟩ : ∃ s accesses dirty,
      e.store.fetch c op.username = ⟨s, accesses, .ok j⟩
        ∧ s.slot? op.username = some (.loaded j dirty)
        ∧ (before && !accesses.any Access.loads) = dirty
        ∧ accesses.any Access.saves = false := by
    rcases Store.fetch_of_ok hfound with ⟨dirty, hslot, hfetch⟩ | hfetch
    · refine ⟨_, _, dirty, hfetch, hslot, ?_, rfl⟩
      rw [h j dirty hslot]
      exact Bool.and_true before
    · exact ⟨_, _, false, hfetch, Store.slot?_setSlot _ _ _, Bool.and_false before, rfl⟩
  cases hrule : rule j with
  | look answer =>
      simp only [run, hplan, consult, hfetch, hrule, Ruling.opens, hunsaved, hdirty,
        Bool.not_false, Bool.true_and, Bool.false_or]
      exact marked_of_slot hslot
  | handle i answer =>
      simp only [run, hplan, consult, hfetch, hrule, Ruling.opens, hunsaved, Bool.not_false,
        Bool.true_and, Bool.true_or]
      exact marked_of_slot (s.slot?_setSlot op.username (.loaded i true))
  | commit i news answer =>
      have hname := Operation.username_plan hplan j
      rw [hrule] at hname
      have hkey : playerKey i.username = playerKey op.username := by
        rw [show i.username = j.username from hname, fetch_result_eq_opened hfound]
        exact hs.opened_keyed c op.username
      have hrevised : ((s.revise op.username i).place (playerKey op.username)).slot
          = some (.loaded i true) := by rw [Store.place_revise, if_pos rfl]
      rcases (s.revise op.username i).persist_cases c hrevised hkey with
        ⟨fault, -, hpersist⟩ | ⟨s', hpersist, -, hwritten, -⟩
      · simp only [run, hplan, consult, hfetch, hrule, hpersist, Ruling.opens, List.any_append,
          hunsaved]
        exact marked_of_slot (Store.slot?_setSlot _ op.username (.loaded (i.touch c.savedAt) true))
      · simp only [run, hplan, consult, hfetch, hrule, hpersist, Ruling.opens, List.any_append,
          hunsaved]
        exact marked_of_slot (congrArg Place.slot hwritten)

theorem marked_of_absent {e : Engine ρ} {key : String}
    (h : ∀ j dirty, (e.store.place key).slot ≠ some (.loaded j dirty)) (pending : Bool) :
    e.Marked key pending := fun j dirty hslot => absurd hslot (h j dirty)

/-- A slot that is still there after `Store.evict` is one whose journal was not written. -/
theorem evict_marked (hs : e.store.Sound) (u : String) (h : e.Marked (playerKey u) before) :
    (e.run c (.evict u)).engine.Marked (playerKey u)
      (e.pendingAfter (playerKey u) before (.perform c (.evict u))) := by
  have hclosed : e.opens (playerKey u) (.perform c (.evict u)) = false :=
    opens_of_never (fun _ => rfl) _
  have hkeyed : ∀ a ∈ (e.take (.perform c (.evict u))).accesses, a.key = playerKey u :=
    run_keyed hs c (.evict u)
  have hreleased : ∀ (s : Store ρ) j dirty,
      ((s.release u).place (playerKey u)).slot ≠ some (.loaded j dirty) := by
    intro s j dirty hslot
    rw [Store.place_release, if_pos rfl] at hslot
    cases hslot
  have hstore : (e.run c (.evict u)).engine.store = (e.store.evict c u).store := rfl
  have htried : (e.take (.perform c (.evict u))).accesses = (e.store.evict c u).accesses := rfl
  have hevicted := e.store.evicted c u
  generalize e.store.evict c u = v at hevicted hstore htried
  cases hevicted with
  | absent =>
      rw [pendingAfter_of_idle htried hclosed]
      intro j dirty hslot
      rw [hstore] at hslot
      exact h j dirty hslot
  | unloaded | clean | stored =>
      refine marked_of_absent (fun j dirty hslot => ?_) _
      rw [hstore] at hslot
      exact hreleased _ j dirty hslot
  | refused j fault hslot =>
      rw [pendingAfter_of_keyed hkeyed, htried, hclosed, ← h j true hslot]
      have hkept : (e.run c (.evict u)).engine.store.slot? u
          = some (.loaded (j.touch c.savedAt) true) := by
        rw [hstore]
        exact Store.slot?_setSlot _ u _
      exact marked_of_slot hkept

/-- Step lemma: the marks of the store agree with `pendingAfter`. -/
theorem take_marked (hs : e.store.Sound) {key : String} (h : e.Marked key before) (t : Turn) :
    (e.take t).engine.Marked key (e.pendingAfter key before t) := by
  cases t with
  | reload catalog =>
      rw [pendingAfter_of_idle (t := .reload catalog) rfl rfl]
      exact h
  | perform c op =>
      by_cases hkey : playerKey op.username = key
      · subst hkey
        cases hplan : op.plan e.catalog c.now with
        | settled answer =>
            have hclosed : e.opens (playerKey op.username) (.perform c op) = false :=
              opens_of_never (Operation.opens_settled hplan) _
            have htake : e.take (.perform c op) = ⟨e, [], [], answer.mapError .refused⟩ :=
              run_settled hplan
            rw [pendingAfter_of_idle (by rw [htake]) hclosed, htake]
            exact h
        | evict username =>
            obtain ⟨u, rfl⟩ := Operation.isEvict_of_plan hplan
            exact evict_marked hs u h
        | consult username rule =>
            obtain rfl := Operation.username_of_plan hplan
            cases hfound : (e.store.fetch c op.username).result with
            | ok j => exact consult_marked hs hplan hfound h
            | error err =>
                refine marked_of_absent (fun j dirty hslot => ?_) _
                simp only [take, run, hplan, consult, Store.fetch_lost hfound,
                  Store.place_setSlot, if_true] at hslot
                cases hslot
      · have hothers : ∀ a ∈ (e.take (.perform c op)).accesses, a.key ≠ key :=
          fun a ha => (run_keyed hs c op a ha).symm ▸ hkey
        rw [pendingAfter_of_other hothers (opens_of_other hkey)]
        intro j dirty hslot
        rw [show (e.take (.perform c op)).engine.store.place key = e.store.place key from
          run_frame hs c hkey] at hslot
        exact h j dirty hslot

theorem after_marked (hs : e.store.Sound) {key : String} (h : e.Marked key before)
    (turns : List Turn) : (e.after turns).Marked key (pending key e before turns) := by
  induction turns generalizing e before with
  | nil => exact h
  | cons t turns ih => exact ih (take_sound hs t) (take_marked hs h t)

/-! ## Evictions -/

omit [TableRepository ρ] in
/-- A clean journal is released without a write. -/
theorem evict_saved {u : String} {j : Journal} (hslot : e.store.slot? u = some (.loaded j false))
    (c : Circumstances) :
    e.run c (.evict u) = ⟨{ e with store := e.store.release u }, [], [], .ok (.changed true)⟩ := by
  simp only [run, Operation.plan, Store.evict, hslot]
  rfl

/-- A dirty journal is released only if it is written. -/
theorem evict_unsaved (hs : e.store.Sound) {u : String} {j : Journal}
    (hslot : e.store.slot? u = some (.loaded j true)) (c : Circumstances) :
    let o := e.run c (.evict u)
    let i := j.touch c.savedAt
    (c.saveFault = none → o.accesses = [.save i true] ∧ o.answer = .ok (.changed true)
      ∧ o.engine.store.isCached u = false
      ∧ (o.engine.store.place (playerKey u)).record = some i)
    ∧ ∀ fault, c.saveFault = some fault → o.accesses = [.save i false]
      ∧ o.answer = .error (.storage (fault.error e.store.limit))
      ∧ o.engine.store.slot? u = some (.loaded i true)
      ∧ o.engine.store.repository = e.store.repository := by
  intro o i
  let v := e.store.evict c u
  have hevict : o = ⟨{ e with store := v.store }, v.accesses, [],
      (v.result.mapError .storage).map .changed⟩ := rfl
  have hevicted : e.store.Evicted c u v := e.store.evicted c u
  clear_value v
  cases hevicted with
  | absent hnone => cases hslot.symm.trans hnone
  | unloaded hunloaded => cases hslot.symm.trans hunloaded
  | clean _ hclean => cases hslot.symm.trans hclean
  | refused _ fault hdirty hfault =>
      cases hslot.symm.trans hdirty
      refine ⟨fun hnone => (by cases hfault.symm.trans hnone), fun fault' hsome => ?_⟩
      cases hfault.symm.trans hsome
      rw [hevict]
      exact ⟨rfl, rfl, Store.slot?_setSlot _ u _, rfl⟩
  | stored _ s hdirty hfault hpersist =>
      cases hslot.symm.trans hdirty
      obtain ⟨-, hwritten, -⟩ := Store.place_persisted hs hslot hpersist
      refine ⟨fun _ => ?_, fun fault hsome => (by cases hfault.symm.trans hsome)⟩
      rw [hevict]
      refine ⟨rfl, rfl, Store.isCached_release s u, ?_⟩
      rw [Store.place_release, if_pos rfl, hwritten]

end Engine

/-- **A player whose journal was not opened is evicted without a write.** In any run over a
repository that is a table of journals, with catalogs put in place and whatever fails: a player in
use whose journal was not opened for a change since it was last loaded or written is evicted without
any access, even while nothing can be saved, and the journal is the stored one, or has no quests and
none is stored. Only a player whose journal was opened since can cause a write or be kept by an
eviction. Such a player causes one write, and is evicted if it succeeds, with the journal stored
under its stamp, and else stays with that journal. -/
theorem released_unwritten (catalog : Catalog) (repository : ρ)
    (hkeyed : Keyed (TableRepository.records repository)) (limit : Nat) (turns : List Turn)
    (u : String) (c : Circumstances) :
    let new := Engine.new catalog repository limit
    let e := new.after turns
    let pending := Engine.pending (playerKey u) new false turns
    let o := e.run c (.evict u)
    (∀ j dirty, e.store.slot? u = some (.loaded j dirty) → pending = false →
      o.accesses = [] ∧ o.answer = .ok (.changed true) ∧ o.engine.store.isCached u = false
        ∧ o.engine.store.repository = e.store.repository
        ∧ ((e.store.place (playerKey u)).record = some j
          ∨ (e.store.place (playerKey u)).record = none ∧ j.log = .blank))
    ∧ (o.attempts ≠ [] ∨ (∃ err, o.answer = .error err) →
      pending = true ∧ ∃ j dirty, e.store.slot? u = some (.loaded j dirty))
    ∧ ∀ j dirty, e.store.slot? u = some (.loaded j dirty) → pending = true →
      let i := j.touch c.savedAt
      (c.saveFault = none → o.accesses = [.save i true] ∧ o.answer = .ok (.changed true)
        ∧ o.engine.store.isCached u = false
        ∧ (o.engine.store.place (playerKey u)).record = some i)
      ∧ ∀ fault, c.saveFault = some fault → o.accesses = [.save i false]
        ∧ o.answer = .error (.storage (fault.error e.store.limit))
        ∧ o.engine.store.slot? u = some (.loaded i true)
        ∧ o.engine.store.repository = e.store.repository := by
  intro new e pending o
  have hnew : new.store.Sound := Store.sound_new hkeyed limit
  have hs : e.store.Sound := Engine.after_sound hnew turns
  have hmarked : e.Marked (playerKey u) pending :=
    Engine.after_marked hnew (Engine.marked_of_absent (fun _ _ h => by cases h) false) turns
  refine ⟨fun j dirty hslot hsaved => ?_, fun hbusy => ?_, fun j dirty hslot hunsaved => ?_⟩
  · obtain rfl : dirty = false := (hmarked j dirty hslot).trans hsaved
    have ho : o = _ := Engine.evict_saved hslot c
    rw [ho]
    exact ⟨rfl, rfl, Store.isCached_release _ u, rfl, (hs _).clean j hslot⟩
  · have hattempts : o.attempts = (e.store.evict c u).accesses.filterMap Access.attempt? := rfl
    have hanswer : o.answer
        = ((e.store.evict c u).result.mapError .storage).map .changed := rfl
    have hevicted := e.store.evicted c u
    generalize e.store.evict c u = v at hevicted hattempts hanswer
    cases hevicted with
    | absent | unloaded | clean =>
        rcases hbusy with htried | ⟨err, hfailed⟩
        · exact absurd hattempts htried
        · cases hanswer.symm.trans hfailed
    | refused j _ hslot | stored j _ hslot =>
        exact ⟨(hmarked j true hslot).symm, j, true, hslot⟩
  · obtain rfl : dirty = true := (hmarked j dirty hslot).trans hunsaved
    exact Engine.evict_unsaved hs hslot c

/-- A hunter is evicted while nothing can be saved, but not after the death of a cat. -/
theorem released_unwritten_ratHunt :
    let new := Engine.new (Catalog.ofQuests [ratHunt]) MemoryRepository.empty 5000
    let started := [Turn.perform (.calm .epoch) (.start (.named "Ann" 1) "rats" false none)]
    let met := started ++ [.perform (.calm .epoch) (.ingest "ann" (.npcDeath "cat"))]
    let j := (new.after started).store.opened (.calm .epoch) "ann"
    Keyed (TableRepository.records MemoryRepository.empty)
      ∧ (new.after started).store.slot? "ann" = some (.loaded j false)
      ∧ Engine.pending "ann" new false started = false
      ∧ ((new.after started).run unsaved (.evict "ann")).accesses = []
      ∧ ((new.after started).run unsaved (.evict "ann")).answer = .ok (.changed true)
      ∧ (new.after met).store.slot? "ann" = some (.loaded j true)
      ∧ Engine.pending "ann" new false met = true
      ∧ ((new.after met).run unsaved (.evict "ann")).accesses = [.save j false]
      ∧ ((new.after met).run unsaved (.evict "ann")).answer
        = .error (.storage (.timeout 5000)) := by
  intro new started met j
  have hsaved : (new.after started).store.slot? "ann" = some (.loaded j false) := by
    decide +kernel
  have hunsaved : (new.after met).store.slot? "ann" = some (.loaded j true) := by decide +kernel
  have hclosed : Engine.pending "ann" new false started = false := by decide +kernel
  have hopened : Engine.pending "ann" new false met = true := by decide +kernel
  obtain ⟨hfree, -, -⟩ := released_unwritten (Catalog.ofQuests [ratHunt]) MemoryRepository.empty
    keyed_empty 5000 started "ann" unsaved
  obtain ⟨-, -, hwritten⟩ := released_unwritten (Catalog.ofQuests [ratHunt])
    MemoryRepository.empty keyed_empty 5000 met "ann" unsaved
  obtain ⟨hnone, hleft, -⟩ := hfree j false hsaved hclosed
  obtain ⟨htried, hkept, -⟩ := (hwritten j true hunsaved hopened).2 .hang rfl
  exact ⟨keyed_empty, hsaved, hclosed, hnone, hleft, hunsaved, hopened, htried, hkept⟩

/-- After the death of a cat the journal of a hunter is the stored one to the last field, and the
hunter is kept all the same while nothing can be saved. -/
theorem unchanged_refused :
    let turns := [Turn.perform (.calm .epoch) (.start (.named "Ann" 1) "rats" false none),
      .perform (.calm .epoch) (.ingest "ann" (.npcDeath "cat"))]
    let e := (Engine.new (Catalog.ofQuests [ratHunt]) MemoryRepository.empty 5000).after turns
    let j := e.store.opened (.calm .epoch) "ann"
    let o := e.run unsaved (.evict "ann")
    e.store.journal? "ann" = some j ∧ (e.store.place "ann").record = some j ∧ o.attempts ≠ []
      ∧ o.answer = .error (.storage (.timeout 5000)) ∧ o.engine.store.isCached "ann" = true := by
  decide +kernel

end Questline
