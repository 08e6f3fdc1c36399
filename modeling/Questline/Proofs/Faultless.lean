import Questline.Proofs.Run

/-!
# Operations without faults

An operation whose accesses to the storage succeed does exactly what its rule says
(`Engine.run_faultless`): it answers with the rule's answer, publishes the rule's news, and
leaves the place of its player as the ruling has it (`Ruling.Leaves`), to the last field of the
journal. The journal of a `commit` is written under its stamp; that of a `handle` stays in use and
is dirty; that of a `look` is in use as it was found.
-/

namespace Questline

/-- Every access to the storage works. -/
structure Circumstances.Faultless (c : Circumstances) : Prop where
  load : c.loadFault = none
  save : c.saveFault = none

theorem Circumstances.faultless_calm (now : Instant) : (calm now).Faultless := ⟨rfl, rfl⟩

/-- The place of a player after a ruling on the journal `j` that was found there, where nothing
fails. -/
inductive Ruling.Leaves {α : Type} (stamp : Instant) (j : Journal) (record : Option Journal) :
    Ruling α → Place → Prop
  | look (answer : Except Refusal α) (dirty : Bool) :
      Leaves stamp j record (.look answer) ⟨some (.loaded j dirty), record⟩
  | handle (i : Journal) (answer : Except Refusal α) :
      Leaves stamp j record (.handle i answer) ⟨some (.loaded i true), record⟩
  | commit (i : Journal) (news : List Notification) (answer : α) :
      Leaves stamp j record (.commit i news answer)
        ⟨some (.loaded (i.touch stamp) false), some (i.touch stamp)⟩

/-- The journal that the next access finds after a ruling on `j`, where nothing fails. -/
def Ruling.found {α : Type} (stamp : Instant) (j : Journal) : Ruling α → Journal
  | look _ => j
  | handle i _ => i
  | commit i _ _ => i.touch stamp

theorem Ruling.Leaves.kept? {α : Type} {stamp : Instant} {j : Journal} {record : Option Journal}
    {r : Ruling α} {p : Place} (h : r.Leaves stamp j record p) :
    p.kept? = some (r.found stamp j) := by
  cases h <;> rfl

theorem Ruling.log_found {α : Type} (stamp : Instant) (j : Journal) (r : Ruling α) :
    (r.found stamp j).log = (r.journal j).log := by
  cases r <;> rfl

variable {ρ : Type} [Repository ρ] [TableRepository ρ]

namespace Engine

/-- The outcome of an operation that carried out the ruling `r` on the journal that it found for a
player, where nothing failed. -/
structure Ruled (e : Engine ρ) (c : Circumstances) (username : String) (r : Ruling Answer)
    (o : Outcome ρ) : Prop where
  catalog : o.engine.catalog = e.catalog
  limit : o.engine.store.limit = e.store.limit
  news : o.news = r.news
  answer : o.answer = r.answer.mapError .refused
  frame : ∀ key, playerKey username ≠ key → o.engine.store.place key = e.store.place key
  place : r.Leaves c.savedAt (e.store.opened c username)
    (e.store.place (playerKey username)).record (o.engine.store.place (playerKey username))

theorem Ruled.kept? {e : Engine ρ} {c : Circumstances} {username : String} {r : Ruling Answer}
    {o : Outcome ρ} (h : e.Ruled c username r o) :
    (o.engine.store.place (playerKey username)).kept?
      = some (r.found c.savedAt (e.store.opened c username)) := h.place.kept?

theorem Ruled.opened {e : Engine ρ} {c : Circumstances} {username : String} {r : Ruling Answer}
    {o : Outcome ρ} (h : e.Ruled c username r o) (c' : Circumstances) :
    o.engine.store.opened c' username = r.found c.savedAt (e.store.opened c username) := by
  show ((o.engine.store.place (playerKey username)).kept?).getD _ = _
  rw [h.kept?, Option.getD_some]

theorem Ruled.log {e : Engine ρ} {c : Circumstances} {username : String} {r : Ruling Answer}
    {o : Outcome ρ} (h : e.Ruled c username r o) :
    (o.engine.store.place (playerKey username)).log
      = (r.journal (e.store.opened c username)).log := by
  unfold Place.log
  rw [h.kept?, Option.map_some, Option.getD_some, Ruling.log_found]

/-- The next access finds the journal of the ruling, in any circumstances. -/
theorem Ruled.fetched {e : Engine ρ} {c : Circumstances} {username : String} {r : Ruling Answer}
    {o : Outcome ρ} (h : e.Ruled c username r o) (d : Circumstances) :
    (o.engine.store.fetch d username).result
      = .ok (r.found c.savedAt (e.store.opened c username)) := by
  have hplace := h.place
  have hslot : ∃ dirty, o.engine.store.slot? username
      = some (.loaded (r.found c.savedAt (e.store.opened c username)) dirty) := by
    show ∃ dirty, (o.engine.store.place (playerKey username)).slot = _
    generalize o.engine.store.place (playerKey username) = place at hplace ⊢
    cases hplace with
    | look answer dirty => exact ⟨dirty, rfl⟩
    | handle i answer => exact ⟨true, rfl⟩
    | commit i news answer => exact ⟨false, rfl⟩
  obtain ⟨dirty, hslot⟩ := hslot
  simp only [Store.fetch, Store.journal?, hslot]

/-- The journal of a commit is in use and stored. -/
theorem Ruled.written {e : Engine ρ} {c : Circumstances} {username : String} {i : Journal}
    {news : List Notification} {answer : Answer} {o : Outcome ρ}
    (h : e.Ruled c username (.commit i news answer) o) :
    o.engine.store.place (playerKey username)
      = ⟨some (.loaded (i.touch c.savedAt) false), some (i.touch c.savedAt)⟩ := by
  have hplace := h.place
  generalize o.engine.store.place (playerKey username) = p at *
  cases hplace
  rfl

theorem run_faultless {e : Engine ρ} (hs : e.store.Sound) {c : Circumstances}
    (hc : c.Faultless) {op : Operation} {username : String} {rule : Journal → Ruling Answer}
    (hplan : op.plan e.catalog c.now = .consult username rule) :
    e.Ruled c username (rule (e.store.opened c username)) (e.run c op) := by
  have hrun : e.run c op = e.consult c username rule := by simp only [run, hplan]
  rw [hrun]
  rcases e.store.fetch_cases c username with
    ⟨fault, hfault, -, -⟩ | ⟨s, accesses, hfetch, hfetched, -, -⟩
  · rw [hc.load] at hfault
    cases hfault
  · obtain ⟨dirty, hplace⟩ := hfetched.place
    have hrevised : ∀ i : Journal, (s.revise username i).place (playerKey username)
        = ⟨some (.loaded i true), (e.store.place (playerKey username)).record⟩ := by
      intro i
      rw [Store.place_revise, if_pos rfl, hplace]
    have hframe : ∀ (i : Journal) key, playerKey username ≠ key →
        (s.revise username i).place key = e.store.place key := by
      intro i key hkey
      exact ((s.place_revise username i key).trans (if_neg hkey)).trans (hfetched.frame key hkey)
    have hname := Operation.username_plan hplan (e.store.opened c username)
    cases hrule : rule (e.store.opened c username) with
    | look answer =>
        simp only [consult, hfetch, hrule]
        exact ⟨rfl, hfetched.limit, rfl, rfl, hfetched.frame, hplace ▸ .look answer dirty⟩
    | handle i answer =>
        simp only [consult, hfetch, hrule]
        exact ⟨rfl, hfetched.limit, rfl, rfl, hframe i, hrevised i ▸ .handle i answer⟩
    | commit i news answer =>
        rw [hrule] at hname
        have hkey : playerKey i.username = playerKey username :=
          (congrArg playerKey hname).trans (hs.opened_keyed c username)
        have hslot := congrArg Place.slot (hrevised i)
        simp only [consult, hfetch, hrule]
        rcases (s.revise username i).persist_cases c hslot hkey with
          ⟨fault, hfault, -⟩ | ⟨s', hpersist, hlimit, hwritten, hframe'⟩
        · rw [hc.save] at hfault
          cases hfault
        · rw [hpersist]
          refine ⟨rfl, hlimit.trans hfetched.limit, rfl, rfl, fun key hkey' => ?_, ?_⟩
          · exact (hframe' key hkey').trans (hframe i key hkey')
          · exact hwritten ▸ .commit i news answer

end Engine

end Questline
