import Mathlib.Logic.Relation
import Questline.Matching
import Questline.Proofs.InstantText

/-!
# Which events a goal is answered by

Events reach the matching as a name and a payload of untyped members. An event that the game
announces in typed form moves an objective exactly if it is what the goal waits for
(`Goal.AnsweredBy`): name, member names and spelling of every value agree on both sides.

Hosts also send payloads of their own, and do not agree on how numbers are written in them. The
matching reads the texts of all members but the level, and the number of the level
(`Payload.Alike`). So a payload may be restated, an id as a number or a level as a text
(`Payload.Restated`), as often as one likes: no verdict changes (`events_answer_goals`).
-/

namespace Questline

/-! ## Typed events -/

/-- The event is what the goal waits for. A dialogue option or a slot that is asked for must be the
one of the event; a level above the one asked for will do. -/
def Goal.AnsweredBy : Goal → GameEvent → Prop
  | .useItem item, .itemUsed used _ => used = item
  | .pickUpItem item, .itemPickup picked _ => picked = item
  | .talkToNpc npc option, .npcTalked talked picked =>
    talked = npc ∧ ∀ o, option = some o → picked = some o
  | .killMob npc, .npcDeath killed => killed = npc
  | .enterRoom room, .roomEnter entered _ => entered = room
  | .deliverItem item npc, .itemDelivered delivered _ receiver =>
    delivered = item ∧ receiver = npc
  | .reachLevel level, .playerLevelUp reached _ => level ≤ reached
  | .equipItem item slot, .itemEquipped equipped _ filled =>
    equipped = item ∧ ∀ s, slot = some s → filled = s
  | _, _ => False

theorem Payload.valueNumber?_nat (n : Nat) :
    valueNumber? (.int n) = if n < UInt64.size then some n else none := by
  have hbounds : (0 ≤ (n : Int) && (n : Int) < UInt64.size) = decide (n < UInt64.size) := by
    rw [decide_eq_true (Int.natCast_nonneg n), Bool.true_and]
    exact decide_eq_decide.mpr Int.ofNat_lt
  simp only [valueNumber?, hbounds, decide_eq_true_iff, Int.toNat_natCast]

namespace GameEvent

theorem fieldEquals_of_member {e : GameEvent} {key s : String}
    (h : findValue? key e.members.reverse = some (.text s)) (expected : String) :
    e.payload.fieldEquals key expected = true ↔ s = expected := by
  rw [Payload.fieldEquals, Payload.text?, payload, Dict.get?_ofList, h]
  exact beq_iff_eq.trans Option.some_inj

theorem fieldEquals_of_absent {e : GameEvent} {key : String}
    (h : findValue? key e.members.reverse = none) (expected : String) :
    e.payload.fieldEquals key expected = false := by
  rw [Payload.fieldEquals, Payload.text?, payload, Dict.get?_ofList, h]
  rfl

theorem talked_npc (talked : String) (picked : Option String) (npc : String) :
    (npcTalked talked picked).payload.fieldEquals "npcTemplateId" npc = true ↔ talked = npc := by
  cases picked with
  | none => exact fieldEquals_of_member rfl npc
  | some _ => exact fieldEquals_of_member rfl npc

theorem talked_option (talked : String) (picked : Option String) (option : String) :
    (npcTalked talked picked).payload.fieldEquals "dialogueOption" option = true
      ↔ picked = some option := by
  cases picked with
  | none =>
      rw [fieldEquals_of_absent rfl]
      exact ⟨nofun, nofun⟩
  | some o => exact (fieldEquals_of_member rfl option).trans Option.some_inj.symm

theorem entered_room (entered : String) (previous : Option String) (room : String) :
    (roomEnter entered previous).payload.fieldEquals "roomId" room = true ↔ entered = room := by
  cases previous with
  | none => exact fieldEquals_of_member rfl room
  | some _ => exact fieldEquals_of_member rfl room

theorem number?_playerLevelUp (level previous : UInt32) :
    (playerLevelUp level previous).payload.number? "level" = some level.toNat := by
  have hmember : (playerLevelUp level previous).payload.get? "level"
      = some (.int level.toNat) := by
    rw [payload, Dict.get?_ofList]
    rfl
  have hlt : level.toNat < UInt64.size := Nat.lt_trans level.toNat_lt (by decide)
  rw [Payload.number?, hmember, Option.bind_some]
  exact (Payload.valueNumber?_nat _).trans (if_pos hlt)

end GameEvent

namespace Goal

theorem eventName?_of_answeredBy {g : Goal} {e : GameEvent} (h : g.AnsweredBy e) :
    g.eventName? = some e.name := by
  cases g <;> cases e <;> first | rfl | cases h

/-- An event of the name that a goal listens for fits the goal if it answers it. -/
theorem fits_iff_answeredBy {g : Goal} {e : GameEvent} (h : g.eventName? = some e.name) :
    g.fits e.payload = true ↔ g.AnsweredBy e := by
  -- events of other names are ruled out, and one case is left for each goal
  cases g <;> cases e <;>
    try (simp [eventName?, GameEvent.name, EventName.itemUsed, EventName.itemPickup,
        EventName.npcTalked, EventName.npcDeath, EventName.roomEnter, EventName.itemDelivered,
        EventName.playerLevelUp, EventName.itemEquipped] at h; done)
  case useItem.itemUsed item _ _ => exact GameEvent.fieldEquals_of_member rfl item
  case pickUpItem.itemPickup item _ _ => exact GameEvent.fieldEquals_of_member rfl item
  case talkToNpc.npcTalked npc option talked picked =>
      rw [fits, Bool.and_eq_true, GameEvent.talked_npc, Option.all_eq_true]
      simp only [GameEvent.talked_option]
      rfl
  case killMob.npcDeath npc _ => exact GameEvent.fieldEquals_of_member rfl npc
  case enterRoom.roomEnter room entered previous => exact GameEvent.entered_room ..
  case deliverItem.itemDelivered item npc _ _ _ =>
      rw [fits, Bool.and_eq_true]
      exact and_congr (GameEvent.fieldEquals_of_member rfl item)
        (GameEvent.fieldEquals_of_member rfl npc)
  case reachLevel.playerLevelUp level reached previous =>
      rw [fits, GameEvent.number?_playerLevelUp, Option.any_some, decide_eq_true_iff,
        ← UInt32.le_iff_toNat_le]
      rfl
  case equipItem.itemEquipped item slot _ _ filled =>
      rw [fits, Bool.and_eq_true, Option.all_eq_true]
      exact and_congr (GameEvent.fieldEquals_of_member rfl item)
        (forall_congr' fun s => imp_congr_right fun _ => GameEvent.fieldEquals_of_member rfl s)

end Goal

theorem Objective.isMovedBy_eq_true {o : Objective} {event : String} {p : Payload} :
    o.isMovedBy event p = true ↔ o.goal.eventName? = some event ∧ o.goal.fits p = true := by
  rw [isMovedBy, Bool.and_eq_true, beq_iff_eq]

/-- A typed event moves an objective if it is what its goal waits for. -/
theorem Objective.isMovedBy_iff_answeredBy (o : Objective) (e : GameEvent) :
    o.isMovedBy e.name e.payload = true ↔ o.goal.AnsweredBy e := by
  rw [isMovedBy_eq_true]
  exact ⟨fun h => (Goal.fits_iff_answeredBy h.1).mp h.2, fun h =>
    have hname := Goal.eventName?_of_answeredBy h
    ⟨hname, (Goal.fits_iff_answeredBy hname).mpr h⟩⟩

/-! ## Numbers spelled in texts -/

namespace Text

theorem trimStart_append {blanks : List Char} (h : ∀ c ∈ blanks, isBlank c = true)
    (cs : List Char) : trimStart (blanks ++ cs) = trimStart cs :=
  List.dropWhile_append_of_pos h

theorem trimStart_eq_self {cs : List Char} (hne : cs ≠ []) (h : ∀ c ∈ cs, isBlank c = false)
    (rest : List Char) : trimStart (cs ++ rest) = cs ++ rest := by
  obtain ⟨c, cs, rfl⟩ := List.exists_cons_of_ne_nil hne
  exact Instant.trimStart_cons (h c List.mem_cons_self)

/-- White space around a text that has none in it is left out. -/
theorem trim_around {before after cs : List Char} (hbefore : ∀ c ∈ before, isBlank c = true)
    (hafter : ∀ c ∈ after, isBlank c = true) (hne : cs ≠ [])
    (hcs : ∀ c ∈ cs, isBlank c = false) : trim (before ++ cs ++ after) = cs := by
  have hstart : trimStart (before ++ cs ++ after) = cs ++ after := by
    rw [List.append_assoc, trimStart_append hbefore, trimStart_eq_self hne hcs]
  have hend : trimStart (cs ++ after).reverse = cs.reverse := by
    rw [List.reverse_append, trimStart_append fun c hc => hafter c (List.mem_reverse.mp hc)]
    have hself := trimStart_eq_self (List.reverse_ne_nil_iff.mpr hne)
      (fun c hc => hcs c (List.mem_reverse.mp hc)) []
    rwa [List.append_nil] at hself
  rw [trim, hstart, hend, List.reverse_reverse]

theorem mem_trimStart {c : Char} {cs : List Char} (hc : c ∈ cs) (h : isBlank c = false) :
    c ∈ trimStart cs := by
  induction cs with
  | nil => cases hc
  | cons d rest ih =>
      unfold trimStart
      rw [List.dropWhile_cons]
      split
      · rename_i hd
        rcases List.mem_cons.mp hc with rfl | hrest
        · exact absurd hd (Bool.eq_false_iff.mp h)
        · exact ih hrest
      · exact hc

/-- What is no white space is not left out. -/
theorem mem_trim {c : Char} {cs : List Char} (hc : c ∈ cs) (h : isBlank c = false) :
    c ∈ trim cs :=
  List.mem_reverse.mpr (mem_trimStart (List.mem_reverse.mpr (mem_trimStart hc h)) h)

/-- A character that is neither a digit nor a plus sign is in no numeral. -/
theorem boundedNumeral?_eq_none {c : Char} {cs : List Char} (hc : c ∈ cs) (hplus : c ≠ '+')
    (hdigit : isDigit c = false) (bound : Nat) : boundedNumeral? bound cs = none := by
  have hnone : ∀ ds : List Char, c ∈ ds → (ds.isEmpty || !ds.all isDigit) = true := by
    intro ds hds
    have hall : ds.all isDigit = false := by
      rw [List.all_eq_false]
      exact ⟨c, hds, Bool.eq_false_iff.mp hdigit⟩
    rw [hall, Bool.not_false, Bool.or_true]
  unfold boundedNumeral?
  split
  · rename_i ds
    rw [if_pos (hnone ds ((List.mem_cons.mp hc).resolve_left hplus))]
  · rw [if_pos (hnone cs hc)]

theorem boundedNumeral?_padded (bound : Nat) (plus : Bool) (width n : Nat) :
    boundedNumeral? bound ((if plus then ['+'] else []) ++ (padded width n).toList)
      = if n < bound then some n else none := by
  have hdigits : ∀ c ∈ (padded width n).toList, isDigit c = true := isDigit_of_mem_padded
  have hread : ((padded width n).toList.isEmpty || !(padded width n).toList.all isDigit)
      = false := by
    rw [List.isEmpty_eq_false_iff.mpr (padded_ne_nil width n), List.all_eq_true.mpr hdigits]
    rfl
  have hplain : ∀ rest, (padded width n).toList ≠ '+' :: rest := by
    intro rest h
    have hplus : isDigit '+' = true := hdigits '+' (h ▸ List.mem_cons_self)
    exact absurd hplus (by decide)
  cases plus with
  | true =>
      rw [if_pos rfl, List.singleton_append]
      simp only [boundedNumeral?, hread, natOfDigits_padded, Bool.false_eq_true, if_false]
  | false =>
      rw [if_neg Bool.false_ne_true, List.nil_append]
      unfold boundedNumeral?
      split
      · rename_i rest h
        exact absurd h (hplain rest)
      · simp only [hread, natOfDigits_padded, Bool.false_eq_true, if_false]

end Text

namespace Json

/-- A double is not written as an integer is. -/
theorem exists_mark_decimalText (d : Decimal) :
    ∃ c ∈ (decimalText d).toList, c = '.' ∨ c = 'e' := by
  unfold decimalText
  dsimp only
  split
  · exact ⟨'.', by simp, Or.inl rfl⟩
  · split
    · exact ⟨'.', by simp, Or.inl rfl⟩
    · split
      · exact ⟨'.', by simp, Or.inl rfl⟩
      · exact ⟨'e', by simp, Or.inr rfl⟩

end Json

namespace Payload

open Text

/-- A text that spells a number: the text it is written as, or for an integer one with a plus sign
or with zeros before it. -/
inductive Spells : Datum → List Char → Prop
  | int (n : Int) : Spells (.int n) (toString n).toList
  | float (x : Binary64) : Spells (.float x) (Json.floatText x).toList
  | numeral (plus : Bool) (width n : Nat) :
      Spells (.int n) ((if plus then ['+'] else []) ++ (padded width n).toList)

theorem valueNumber?_negSucc (n : Nat) : valueNumber? (.int (Int.negSucc n)) = none := by
  have hneg : ¬ 0 ≤ Int.negSucc n := by omega
  simp only [valueNumber?, decide_eq_false hneg, Bool.false_and, Bool.false_eq_true, if_false]

section Around

variable {before after : List Char} (hbefore : ∀ c ∈ before, isBlank c = true)
  (hafter : ∀ c ∈ after, isBlank c = true)

include hbefore hafter in
theorem valueNumber?_numeral (plus : Bool) (width n : Nat) :
    valueNumber? (.text (String.ofList
        (before ++ ((if plus then ['+'] else []) ++ (padded width n).toList) ++ after)))
      = valueNumber? (.int n) := by
  have hplain : ∀ c ∈ (if plus then ['+'] else []) ++ (padded width n).toList,
      isBlank c = false := by
    intro c hc
    rcases List.mem_append.mp hc with hplus | hdigit
    · obtain ⟨-, rfl⟩ : plus = true ∧ c = '+' := by simpa using hplus
      decide
    · exact Instant.isBlank_of_isDigit (isDigit_of_mem_padded c hdigit)
  have hne : (if plus then ['+'] else []) ++ (padded width n).toList ≠ [] :=
    List.append_ne_nil_of_right_ne_nil _ (padded_ne_nil width n)
  rw [valueNumber?_nat, valueNumber?, String.toList_ofList, trim_around hbefore hafter hne hplain,
    boundedNumeral?_padded]

/-- No number is read off a text in which something but digits and white space stands. -/
theorem valueNumber?_eq_none {c : Char} {cs : List Char} (hc : c ∈ cs) (hplus : c ≠ '+')
    (hdigit : isDigit c = false) (hblank : isBlank c = false) (before after : List Char) :
    valueNumber? (.text (String.ofList (before ++ cs ++ after))) = none := by
  have hmem : c ∈ before ++ cs ++ after :=
    List.mem_append_left after (List.mem_append_right before hc)
  rw [valueNumber?, String.toList_ofList]
  exact boundedNumeral?_eq_none (mem_trim hmem hblank) hplus hdigit _

include hbefore hafter in
/-- The same number is read off a number and off a text that spells it. -/
theorem valueNumber?_of_spells {d : Datum} {cs : List Char} (h : Spells d cs) :
    valueNumber? (.text (String.ofList (before ++ cs ++ after))) = valueNumber? d := by
  cases h with
  | int n =>
      cases n with
      | ofNat n =>
          have hpadded : (toString (Int.ofNat n)).toList = (padded 0 n).toList := by
            rw [toList_padded, Nat.zero_sub]
            exact toList_toString n
          have hnumeral := valueNumber?_numeral hbefore hafter false 0 n
          rw [if_neg Bool.false_ne_true, List.nil_append, ← hpadded] at hnumeral
          exact hnumeral
      | negSucc n =>
          have hminus : '-' ∈ (toString (Int.negSucc n)).toList := by
            rw [show toString (Int.negSucc n) = "-" ++ toString (n + 1) from rfl,
              String.toList_append]
            exact List.mem_append_left _ (by decide)
          rw [valueNumber?_eq_none hminus (by decide) (by decide) (by decide), valueNumber?_negSucc]
  | float x =>
      obtain ⟨c, hc, hmark⟩ := Json.exists_mark_decimalText x.shortest
      have hmem : c ∈ (Json.floatText x).toList := by
        rw [Json.floatText, String.toList_append]
        exact List.mem_append_right _ hc
      rcases hmark with rfl | rfl
      · exact valueNumber?_eq_none hmem (by decide) (by decide) (by decide) before after
      · exact valueNumber?_eq_none hmem (by decide) (by decide) (by decide) before after
  | numeral plus width n => exact valueNumber?_numeral hbefore hafter plus width n

end Around

/-! ## Payloads restated -/

/-- One member of a payload is written in another way. -/
inductive Restated : Payload → Payload → Prop
  /-- A text that is an integer as it is written becomes that integer. -/
  | asNumber {p : Payload} {key : String} {n : Int}
      (hmember : p.get? key = some (.text (toString n))) : Restated p (p.insert key (.int n))
  /-- The number of a level becomes a text that spells it, with white space around it. -/
  | asText {p : Payload} {v : Value} (hmember : p.get? "level" = some v) {cs : List Char}
      (hspells : Spells v.tree cs) {before after : List Char}
      (hbefore : ∀ c ∈ before, isBlank c = true) (hafter : ∀ c ∈ after, isBlank c = true) :
      Restated p (p.insert "level" (.text (String.ofList (before ++ cs ++ after))))

/-- What goals read of two payloads is the same: the texts of all members but the level, and the
number of the level. -/
structure Alike (p p' : Payload) : Prop where
  texts : ∀ key, key ≠ "level" → p'.text? key = p.text? key
  level : p'.number? "level" = p.number? "level"

theorem text?_insert (p : Payload) (key : String) (v : Value) (k : String) :
    text? (p.insert key v) k = if key = k then valueText? v.tree else p.text? k := by
  unfold text?
  rw [Dict.get?_insert]
  split <;> rfl

theorem number?_insert (p : Payload) (key : String) (v : Value) (k : String) :
    number? (p.insert key v) k = if key = k then valueNumber? v.tree else p.number? k := by
  unfold number?
  rw [Dict.get?_insert]
  split <;> rfl

theorem Restated.alike {p p' : Payload} (h : Restated p p') : Alike p p' := by
  cases h with
  | @asNumber key n hmember =>
      have hnumber : valueNumber? (.text (toString n)) = valueNumber? (.int n) := by
        have hplain := valueNumber?_of_spells (List.forall_mem_nil _) (List.forall_mem_nil _)
          (Spells.int n)
        rwa [List.nil_append, List.append_nil, String.ofList_toList] at hplain
      refine ⟨fun k _ => ?_, ?_⟩
      · rw [text?_insert]
        split
        · rename_i hkey
          subst hkey
          rw [text?, hmember]
          rfl
        · rfl
      · rw [number?_insert]
        split
        · rename_i hkey
          subst hkey
          rw [number?, hmember]
          exact hnumber.symm
        · rfl
  | @asText v hmember cs hspells before after hbefore hafter =>
      refine ⟨fun k hk => ?_, ?_⟩
      · rw [text?_insert, if_neg hk.symm]
      · rw [number?_insert, if_pos rfl, number?, hmember]
        exact valueNumber?_of_spells hbefore hafter hspells

/-- Restating one member after another, and back, changes nothing that goals read. -/
theorem alike_of_restated {p p' : Payload} (h : Relation.EqvGen Restated p p') : Alike p p' := by
  induction h with
  | rel p p' h => exact h.alike
  | refl p => exact ⟨fun _ _ => rfl, rfl⟩
  | symm p p' _ ih => exact ⟨fun key hkey => (ih.texts key hkey).symm, ih.level.symm⟩
  | trans p p' p'' _ _ ih ih' =>
      exact ⟨fun key hkey => (ih'.texts key hkey).trans (ih.texts key hkey),
        ih'.level.trans ih.level⟩

end Payload

/-- Goals read nothing else of a payload. -/
theorem Goal.fits_congr {p p' : Payload} (h : p.Alike p') (g : Goal) : g.fits p' = g.fits p := by
  have hfield : ∀ key, key ≠ "level" → p'.fieldEquals key = p.fieldEquals key := by
    intro key hkey
    funext expected
    rw [Payload.fieldEquals, Payload.fieldEquals, h.texts key hkey]
  have hitem := hfield "itemId" (by decide)
  have hnpc := hfield "npcTemplateId" (by decide)
  have hoption := hfield "dialogueOption" (by decide)
  have hroom := hfield "roomId" (by decide)
  have hslot := hfield "slot" (by decide)
  cases g with
  | reachLevel level => rw [fits, fits, h.level]
  | _ => simp only [fits, hitem, hnpc, hoption, hroom, hslot]

namespace Objective

theorem isMovedBy_congr {p p' : Payload} (h : p.Alike p') (o : Objective) (event : String) :
    o.isMovedBy event p' = o.isMovedBy event p := by
  rw [isMovedBy, isMovedBy, Goal.fits_congr h]

theorem eventStep_congr {p p' : Payload} (h : p.Alike p') (o : Objective) :
    o.eventStep p' = o.eventStep p := by
  unfold eventStep
  rw [h.level]

end Objective

/-- **Events move the objectives that they answer.** A typed event moves an objective exactly if it
is what the goal waits for. A payload of any other form is judged alike however its numbers are
written: where texts become the integers that they are the text of, or the level becomes a text
that spells its number with any white space around it, in one member after another or back again,
the objective is moved by the same events, and as far. -/
theorem events_answer_goals (o : Objective) :
    (∀ e : GameEvent, o.isMovedBy e.name e.payload = true ↔ o.goal.AnsweredBy e)
    ∧ ∀ (event : String) (p p' : Payload), Relation.EqvGen Payload.Restated p p' →
      o.isMovedBy event p' = o.isMovedBy event p ∧ o.eventStep p' = o.eventStep p := by
  refine ⟨o.isMovedBy_iff_answeredBy, fun event p p' h => ?_⟩
  have halike := Payload.alike_of_restated h
  exact ⟨o.isMovedBy_congr halike event, o.eventStep_congr halike⟩

/-- An NPC is named by a number instead of a text, and a level is spelled with a sign, a zero and
white space. The talk and the level are taken as they are where they are announced in typed form. -/
theorem events_answer_goals_sage :
    let question : Objective := ⟨"question", "", none, .talkToNpc "7" (some "riddle")⟩
    let ascent : Objective := ⟨"ascent", "", none, .reachLevel 12⟩
    let talk := GameEvent.npcTalked "7" (some "riddle")
    let gain := GameEvent.playerLevelUp 14 11
    let talk' := talk.payload.insert "npcTemplateId" (.int 7)
    let gain' := gain.payload.insert "level" (.text "\t+014 ")
    Relation.EqvGen Payload.Restated talk.payload talk'
      ∧ Relation.EqvGen Payload.Restated gain.payload gain'
      ∧ question.isMovedBy talk.name talk' = true
      ∧ ascent.isMovedBy gain.name gain' = true
      ∧ ascent.eventStep gain' = .observed 14 := by
  intro question ascent talk gain talk' gain'
  have htalk : Relation.EqvGen Payload.Restated talk.payload talk' :=
    .rel _ _ (.asNumber (by decide +kernel))
  have hspells : Payload.Spells (.int 14) "+014".toList := .numeral true 3 14
  have hlevel : gain.payload.get? "level" = some (.int 14) := by decide +kernel
  have htab : ∀ c ∈ ['\t'], Text.isBlank c = true := List.forall_mem_singleton.mpr rfl
  have hspace : ∀ c ∈ [' '], Text.isBlank c = true := List.forall_mem_singleton.mpr rfl
  have hgain : Relation.EqvGen Payload.Restated gain.payload gain' :=
    .rel _ _ (.asText hlevel hspells htab hspace)
  obtain ⟨hanswers, hquestion⟩ := events_answer_goals question
  obtain ⟨hanswers', hascent⟩ := events_answer_goals ascent
  refine ⟨htalk, hgain, ?_, ?_, ?_⟩
  · rw [(hquestion talk.name _ _ htalk).1]
    exact (hanswers talk).mpr ⟨rfl, fun _ h => h⟩
  · rw [(hascent gain.name _ _ hgain).1]
    exact (hanswers' gain).mpr (show (12 : UInt32) ≤ 14 by decide)
  · exact (hascent gain.name _ _ hgain).2

end Questline
