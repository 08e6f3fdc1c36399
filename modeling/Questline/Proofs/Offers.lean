import Mathlib.Data.List.Nodup
import Questline.Proofs.Course

/-!
# What is offered and what can be picked

`DialogueOffer.offeredTo` keeps the options whose requirements the player meets. `Rules.choice?`
finds the first option of an id and tests its requirements afterwards. So the two agree unless an
option is *shadowed*: its requirements are met, but an option of the same id stands before it whose
requirements are not. `picked_offers` specifies both in every state that an engine reaches, and says
that they agree on exactly the ids that are not shadowed; `shop` is a quest where they differ.
-/

namespace Questline

/-! ## One dialogue -/

namespace DialogueOffer

variable (p : Player) (j : Journal) (option : String) (d : DialogueOffer)

/-- The option that `Rules.choice?` finds in the dialogue: the first one of the id, if the player is
offered it. -/
def pick? : Option Choice :=
  (d.dialogue.choices.find? (·.id = option)).filter (·.isOffered p j)

/-- The option of an id that a listing shows. -/
def shown? : Option Choice :=
  (d.offeredTo p j).dialogue.choices.find? (·.id = option)

/-- If the player is offered any option of an id, then so the first one. -/
def Unshadowed : Prop :=
  ∀ first, d.dialogue.choices.find? (·.id = option) = some first →
    (∃ b ∈ d.dialogue.choices, b.id = option ∧ b.isOffered p j = true) →
    first.isOffered p j = true

variable {p j option d}

/-- Where no two options share an id, none is shadowed. -/
theorem unshadowed_of_nodup (h : (d.dialogue.choices.map (·.id)).Nodup) :
    d.Unshadowed p j option := by
  rintro first hfirst ⟨b, hb, hid, hoffered⟩
  have hmem := List.mem_of_find?_eq_some hfirst
  have hfirstId : first.id = option := by simpa using List.find?_some hfirst
  have hsame : first = b := List.inj_on_of_nodup_map h hmem hb (hfirstId.trans hid.symm)
  rw [hsame]
  exact hoffered

theorem pick?_of_first {first : Choice}
    (h : d.dialogue.choices.find? (·.id = option) = some first) :
    d.pick? p j option = if first.isOffered p j = true then some first else none := by
  unfold pick?
  rw [h]
  rfl

theorem shown?_eq_none (h : ∀ b ∈ d.dialogue.choices, b.id = option → b.isOffered p j = false) :
    d.shown? p j option = none := by
  unfold shown? offeredTo
  rw [List.find?_eq_none]
  intro b hb
  obtain ⟨hmem, hoffered⟩ := List.mem_filter.mp hb
  rw [decide_eq_true_eq]
  intro hid
  rw [h b hmem hid] at hoffered
  cases hoffered

theorem shown?_of_first {first : Choice}
    (h : d.dialogue.choices.find? (·.id = option) = some first)
    (hoffered : first.isOffered p j = true) : d.shown? p j option = some first := by
  obtain ⟨hid, before, after, hsplit, hbefore⟩ := List.find?_eq_some_iff_append.mp h
  have hnone : (before.filter (·.isOffered p j)).find? (·.id = option) = none :=
    List.find?_eq_none.mpr fun b hb => by
      have hskipped := hbefore b (List.mem_filter.mp hb).1
      rw [Bool.not_eq_true'] at hskipped
      rw [hskipped]
      exact Bool.false_ne_true
  show (d.dialogue.choices.filter (·.isOffered p j)).find? (·.id = option) = some first
  rw [hsplit, List.filter_append, List.find?_append, hnone, Option.none_or]
  simp only [List.filter_cons, hoffered, if_true, List.find?_cons, hid]

/-- A pick and a listing agree on the ids that are not shadowed, and on no others. -/
theorem pick?_eq_shown?_iff : d.pick? p j option = d.shown? p j option
    ↔ d.Unshadowed p j option := by
  constructor
  · rintro heq first hfirst ⟨b, hb, hid, hoffered⟩
    by_contra hclosed
    rw [pick?_of_first hfirst, if_neg hclosed, shown?, eq_comm, List.find?_eq_none] at heq
    exact heq b (List.mem_filter.mpr ⟨hb, hoffered⟩) (decide_eq_true hid)
  · intro h
    cases hfirst : d.dialogue.choices.find? (·.id = option) with
    | none =>
        have hnone : d.pick? p j option = none := by
          unfold pick?
          rw [hfirst]
          rfl
        rw [hnone, shown?_eq_none]
        intro b hb hid
        exact absurd (decide_eq_true hid) (List.find?_eq_none.mp hfirst b hb)
    | some first =>
        rw [pick?_of_first hfirst]
        split
        · rename_i hoffered
          rw [shown?_of_first hfirst hoffered]
        · rename_i hclosed
          rw [shown?_eq_none]
          intro b hb hid
          refine Bool.eq_false_iff.mpr fun hoffered => ?_
          exact hclosed (h first hfirst ⟨b, hb, hid, hoffered⟩)

end DialogueOffer

/-! ## All dialogues of an NPC -/

namespace Rules

variable {c : Catalog} {npc : String} {j : Journal}

theorem quest_of_dialogueOf? {a : Activation} {d : DialogueOffer}
    (h : dialogueOf? c npc a = some d) : d.quest = a.quest := by
  simp only [dialogueOf?, Option.bind_eq_bind, Option.bind_eq_some_iff] at h
  obtain ⟨q, -, s, -, dialogue, -, hd⟩ := h
  cases hd
  rfl

/-- No two dialogues are for one quest. -/
theorem nodup_dialogues {l : List Activation} (h : (l.map (·.quest)).Nodup) :
    ((l.filterMap (dialogueOf? c npc)).map (·.quest)).Nodup := by
  refine List.Nodup.sublist ?_ h
  clear h
  induction l with
  | nil => exact .slnil
  | cons a rest ih =>
      rw [List.filterMap_cons]
      cases hd : dialogueOf? c npc a with
      | none => exact ih.cons _
      | some d =>
          simp only [List.map_cons, quest_of_dialogueOf? hd]
          exact ih.cons_cons _

/-- The dialogue for a quest is that of its activation. -/
theorem find?_dialogues {l : List Activation} (h : (l.map (·.quest)).Nodup) (quest : String) :
    (l.filterMap (dialogueOf? c npc)).find? (·.quest = quest)
      = (l.find? (·.quest = quest)).bind (dialogueOf? c npc) := by
  induction l with
  | nil => rfl
  | cons a rest ih =>
      obtain ⟨ha, hrest⟩ := List.nodup_cons.mp h
      rw [List.filterMap_cons]
      by_cases hquest : a.quest = quest
      · -- the quest is not active twice: if `a` has no dialogue, the rest has none for it
        have hnone : rest.find? (·.quest = quest) = none :=
          List.find?_eq_none.mpr fun b hb heq =>
            ha (List.mem_map.mpr ⟨b, hb, (of_decide_eq_true heq).trans hquest.symm⟩)
        simp only [List.find?_cons, hquest, decide_true, Option.bind_some]
        cases hd : dialogueOf? c npc a with
        | none =>
            rw [ih hrest, hnone]
            rfl
        | some d =>
            have hsame : d.quest = quest := (quest_of_dialogueOf? hd).trans hquest
            simp only [List.find?_cons, hsame, decide_true]
      · simp only [List.find?_cons, hquest, decide_false]
        cases hd : dialogueOf? c npc a with
        | none => exact ih hrest
        | some d =>
            have hother : ¬ d.quest = quest := quest_of_dialogueOf? hd ▸ hquest
            simp only [List.find?_cons, hother, decide_false]
            exact ih hrest

/-- A pick goes by the dialogue for the quest. -/
theorem map_choice? (p : Player) (quest option : String) :
    (choice? c p npc quest option j).map (·.2.2)
      = ((j.activation? quest).bind (dialogueOf? c npc)).bind (·.pick? p j option) := by
  unfold choice?
  cases ha : j.activation? quest with
  | none => cases c.get? quest <;> rfl
  | some a =>
      have hquest : a.quest = quest := Journal.quest_of_activation? ha
      simp only [dialogueOf?, hquest, Option.bind_eq_bind, Option.bind_some]
      cases c.get? quest with
      | none => rfl
      | some q =>
          simp only [Option.bind_some]
          cases q.step? a.step with
          | none => rfl
          | some s =>
              simp only [Option.bind_some]
              cases s.dialogues.get? npc with
              | none => rfl
              | some dialogue =>
                  simp only [Option.bind_some, Option.pure_def, DialogueOffer.pick?]
                  cases dialogue.choices.find? (·.id = option) with
                  | none => rfl
                  | some picked =>
                      simp only [Option.bind_some, Option.filter]
                      split <;> rfl

/-- The answer of `Rules.choose` on an offered option: its actions and the updates of the talk. -/
theorem answer_choose {p : Player} {quest option : String} {q : Quest} {origin : String}
    {picked : Choice} (now : Instant)
    (h : choice? c p npc quest option j = some (q, origin, picked)) :
    let event := talk npc option
    ∃ r : Choosing, r.actions = picked.actions
      ∧ r.updates = (progress c p.username (Objective.eventAmount? event.name event.payload) now
        j).updates
      ∧ (choose c p npc quest option now j).answer = .ok (some r) := by
  simp only [choose, h]
  generalize progress c p.username _ now j = t
  cases picked.advanceTo.bind q.step? with
  | none => exact ⟨_, rfl, rfl, t.answer_ruling _⟩
  | some target =>
      cases t.journal.activation? quest with
      | none => exact ⟨_, rfl, rfl, t.answer_ruling _⟩
      | some a =>
          dsimp only
          split
          · exact ⟨_, rfl, rfl, t.answer_ruling _⟩
          · exact ⟨_, rfl, rfl, rfl⟩

end Rules

/-! ## Runs -/

variable {ρ : Type} [Repository ρ] [TableRepository ρ]

omit [Repository ρ] [TableRepository ρ] in
/-- The outcome of a pick: no option is chosen, or one with these actions is, unless the write
fails. -/
def Outcome.Chooses (o : Outcome ρ) (c : Circumstances) (limit : Nat) :
    Option (List Action) → Prop
  | none => o.answer = .ok (.chosen none)
  | some actions => ∃ r : Choosing, r.actions = actions
      ∧ (o.answer = .ok (.chosen (some r))
        ∨ ∃ fault, c.saveFault = some fault ∧ o.answer = .error (.storage (fault.error limit)))

omit [TableRepository ρ] in
theorem Engine.run_allDialogues {e : Engine ρ} {c : Circumstances} {username : String}
    {j : Journal} (hfound : (e.store.fetch c username).result = .ok j) (npc : String) :
    (e.run c (.allDialogues username npc)).answer
      = .ok (.dialogues (j.active.filterMap (Rules.dialogueOf? e.catalog npc))) := by
  have hplan : (Operation.allDialogues username npc).plan e.catalog c.now = .consult username
      fun j => (Rules.allDialogues e.catalog npc j).map .dialogues := rfl
  have hlook : (Rules.allDialogues e.catalog npc j).map Answer.dialogues
      = .look (.ok (.dialogues (j.active.filterMap (Rules.dialogueOf? e.catalog npc)))) := rfl
  exact answer_of_look hplan hfound hlook

omit [TableRepository ρ] in
theorem Engine.run_dialogues {e : Engine ρ} {c : Circumstances} {p : Player} {j : Journal}
    (hfound : (e.store.fetch c p.username).result = .ok j) (npc : String) :
    (e.run c (.dialogues p npc)).answer = .ok (.dialogues
      ((j.active.filterMap (Rules.dialogueOf? e.catalog npc)).map (·.offeredTo p j))) := by
  have hplan : (Operation.dialogues p npc).plan e.catalog c.now = .consult p.username
      fun j => (Rules.dialogues e.catalog p npc j).map .dialogues := rfl
  have hlook : (Rules.dialogues e.catalog p npc j).map Answer.dialogues = .look (.ok (.dialogues
      ((j.active.filterMap (Rules.dialogueOf? e.catalog npc)).map (·.offeredTo p j)))) := rfl
  exact answer_of_look hplan hfound hlook

/-- A pick comes to what the rules say of the journal that is found. -/
theorem Engine.run_choose {e : Engine ρ} (hs : e.store.Sound) {c : Circumstances} {p : Player}
    {j : Journal} (hfound : (e.store.fetch c p.username).result = .ok j)
    (npc quest option : String) :
    (e.run c (.choose p npc quest option)).Chooses c e.store.limit
      ((Rules.choice? e.catalog p npc quest option j).map (·.2.2.actions)) := by
  have hplan : (Operation.choose p npc quest option).plan e.catalog c.now = .consult p.username
      fun j => (Rules.choose e.catalog p npc quest option c.now j).map .chosen := rfl
  cases hchoice : Rules.choice? e.catalog p npc quest option j with
  | none =>
      have hlook : (Rules.choose e.catalog p npc quest option c.now j).map Answer.chosen
          = .look (.ok (.chosen none)) := by
        simp only [Rules.choose, hchoice]
        rfl
      exact answer_of_look hplan hfound hlook
  | some picked =>
      obtain ⟨r, hactions, -, hanswer⟩ := Rules.answer_choose c.now hchoice
      refine ⟨r, hactions, ?_⟩
      rcases (consulted_of_found hs hplan hfound).answer with ⟨-, hdone⟩ | ⟨-, hfailed⟩
      · left
        rw [hdone, Ruling.answer_map, hanswer]
        rfl
      · exact Or.inr hfailed

/-- **A pick and a listing go by the same requirements.** In every state that a run reaches, a
listing is the listing of all dialogues without the options whose requirements the player does
not meet, in their order, and a pick chooses the first option of the id in the dialogue for the
quest if the player is offered it, and else none. The option that a pick chooses is the one that is
listed for exactly the ids that are not shadowed. -/
theorem picked_offers (catalog : Catalog) (repository : ρ)
    (hempty : TableRepository.records repository = ∅) (limit : Nat) (turns : List Turn)
    (c : Circumstances) (p : Player) (npc : String) (j : Journal)
    (hfound : (((Engine.new catalog repository limit).after turns).store.fetch c
      p.username).result = .ok j) :
    let e := (Engine.new catalog repository limit).after turns
    ∃ all, (e.run c (.allDialogues p.username npc)).answer = .ok (.dialogues all)
      ∧ (e.run c (.dialogues p npc)).answer = .ok (.dialogues (all.map (·.offeredTo p j)))
      ∧ (all.map (·.quest)).Nodup
      ∧ ∀ quest option,
        let picked := (all.find? (·.quest = quest)).bind (·.pick? p j option)
        let listed := ((all.map (·.offeredTo p j)).find? (·.quest = quest)).bind
          fun d => d.dialogue.choices.find? (·.id = option)
        (e.run c (.choose p npc quest option)).Chooses c e.store.limit (picked.map (·.actions))
          ∧ (picked = listed ↔ ∀ d ∈ all, d.quest = quest → d.Unshadowed p j option) := by
  intro e
  have hs : e.store.Sound := Engine.after_sound (Engine.sound_new catalog hempty limit) turns
  have horderly : e.Orderly := Engine.after_orderly (Engine.sound_new catalog hempty limit)
    (Engine.orderly_new catalog hempty limit) turns
  have hlog : j.log = (e.store.place (playerKey p.username)).log := by
    rw [Engine.fetch_result_eq_opened hfound, Store.log_opened]
  have hdistinct : (j.active.map (·.quest)).Nodup := (hlog ▸ horderly _).distinct
  let all := j.active.filterMap (Rules.dialogueOf? e.catalog npc)
  have hnodup : (all.map (·.quest)).Nodup := Rules.nodup_dialogues hdistinct
  refine ⟨all, Engine.run_allDialogues hfound npc, Engine.run_dialogues hfound npc, hnodup,
    fun quest option => ⟨?_, ?_⟩⟩
  · have hchooses := Engine.run_choose hs hfound npc quest option
    have hfind : all.find? (·.quest = quest)
        = (j.activation? quest).bind (Rules.dialogueOf? e.catalog npc) :=
      Rules.find?_dialogues hdistinct quest
    rw [hfind, ← Rules.map_choice?, Option.map_map]
    exact hchooses
  · have hmap : (all.map (·.offeredTo p j)).find? (·.quest = quest)
        = (all.find? (·.quest = quest)).map (·.offeredTo p j) := List.find?_map ..
    rw [hmap]
    cases hfind : all.find? (·.quest = quest) with
    | none =>
        refine ⟨fun _ d hd hquest => ?_, fun _ => rfl⟩
        exact absurd (decide_eq_true hquest) (List.find?_eq_none.mp hfind d hd)
    | some d =>
        have hmem := List.mem_of_find?_eq_some hfind
        have hquest : d.quest = quest := by simpa using List.find?_some hfind
        refine Iff.trans DialogueOffer.pick?_eq_shown?_iff ⟨fun h b hb hb' => ?_, fun h => ?_⟩
        · rw [List.inj_on_of_nodup_map hnodup hb hmem (hb'.trans hquest.symm)]
          exact h
        · exact h d hmem hquest

/-- The warden of the hunt has two options, and none of them is shadowed. -/
theorem picked_offers_ratHunt :
    let e := (Engine.new (Catalog.ofQuests [ratHunt]) MemoryRepository.empty 5000).after
      (ratHuntTurns.take 6)
    let p := Player.named "ann" 1
    let j := e.store.opened (.calm .epoch) "ann"
    TableRepository.records MemoryRepository.empty = ∅
      ∧ (e.store.fetch (.calm .epoch) "ann").result = .ok j
      ∧ ∃ d, (e.run (.calm .epoch) (.allDialogues "ann" "warden")).answer = .ok (.dialogues [d])
        ∧ d.quest = "rats" ∧ d.dialogue.choices.map (·.id) = ["done", "more"]
        ∧ ∀ option ∈ ["done", "more"],
          (e.run (.calm .epoch) (.choose p "warden" "rats" option)).Chooses (.calm .epoch)
            e.store.limit ((d.shown? p j option).map (·.actions)) := by
  intro e p j
  have hfound : (e.store.fetch (.calm .epoch) p.username).result = .ok j := by decide +kernel
  obtain ⟨all, hall, -, -, hpicked⟩ := picked_offers (Catalog.ofQuests [ratHunt])
    MemoryRepository.empty rfl 5000 (ratHuntTurns.take 6) (.calm .epoch) p "warden" j hfound
  have honly : all = j.active.filterMap (Rules.dialogueOf? e.catalog "warden") := by
    have hanswer : (e.run (.calm .epoch) (.allDialogues p.username "warden")).answer
        = .ok (.dialogues (j.active.filterMap (Rules.dialogueOf? e.catalog "warden"))) :=
      Engine.run_allDialogues hfound "warden"
    cases hall.symm.trans hanswer
    rfl
  subst honly
  refine ⟨rfl, hfound, _, hall, by decide +kernel, by decide +kernel, fun option _ => ?_⟩
  obtain ⟨hchooses, hagree⟩ := hpicked "rats" option
  rw [hagree.mpr fun d hd _ => DialogueOffer.unshadowed_of_nodup ?_] at hchooses
  · exact hchooses
  · revert d
    decide +kernel

/-- A smith who sells a fine blade to the experienced and a plain one to anybody, both under
one id. -/
def shop : Quest where
  id := "shop"
  name := "Shop"
  description := ""
  category := .side
  repeatable := false
  cooldown := none
  prerequisites := .none
  steps :=
    [{ id := "haggle", name := "Haggle", description := "", objectives := [],
        dialogues := Dict.ofList [("smith", ⟨none, "Well?",
          [⟨"buy", "The best one.", { ChoiceRequirements.none with minLevel := some 10 }, none,
              [.message "A fine blade."]⟩,
            ⟨"buy", "Any one.", .none, none, [.message "A plain blade."]⟩]⟩)],
        onStart := [], onComplete := [], requireAll := true }]
  rewards := none
  chain := none

/-- A beginner is shown the plain blade and cannot pick it: it is shadowed by the fine one. -/
theorem shown_not_picked :
    let e := (Engine.new (Catalog.ofQuests [shop]) MemoryRepository.empty 5000).after
      [.perform (.calm .epoch) (.start (.named "ann" 1) "shop" false none)]
    shop.Valid
      ∧ (∃ d choice, (e.run (.calm .epoch) (.dialogues (.named "ann" 1) "smith")).answer
          = .ok (.dialogues [d])
        ∧ d.quest = "shop" ∧ choice ∈ d.dialogue.choices ∧ choice.id = "buy")
      ∧ (e.run (.calm .epoch) (.choose (.named "ann" 1) "smith" "shop" "buy")).answer
        = .ok (.chosen none) := by
  intro e
  let plain : Choice := ⟨"buy", "Any one.", .none, none, [.message "A plain blade."]⟩
  refine ⟨by decide, ⟨⟨"shop", "haggle", ⟨none, "Well?", [plain]⟩⟩, plain, ?_, rfl,
    List.mem_singleton.mpr rfl, rfl⟩, ?_⟩
  · decide +kernel
  · decide +kernel

end Questline
