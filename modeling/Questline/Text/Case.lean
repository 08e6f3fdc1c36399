import Questline.Text.CaseTable

/-!
# Letter case

Two ways of disregarding case. Player names are compared by their lower-case form
(`lowercase`), which follows the full Unicode mapping: one letter can become two,
and a capital sigma at the end of a word becomes the final small sigma. Class and
race names are compared up to the case of ASCII letters only (`sameUpToAsciiCase`).
-/

namespace Questline.Text

/-- Whether a code point lies in one of the ranges. -/
def inRanges (ranges : List (Nat × Nat)) (c : Char) : Bool :=
  ranges.any fun r => r.1 ≤ c.toNat && c.toNat ≤ r.2

def isCaseIgnorable (c : Char) : Bool := inRanges caseIgnorableRanges c

/-- Whether a character that is not case-ignorable has case. -/
def isCased (c : Char) : Bool := inRanges casedRanges c

/-- The lower-case form of one character, its neighbours left out of account. -/
def lowerChar (c : Char) : List Char :=
  if c.toNat < 0x80 then [c.toLower]
  else if c = Char.ofNat 0x130 then ['i', Char.ofNat 0x307]
  else
    match lowerRuns.find? fun r =>
        r.1 ≤ c.toNat && c.toNat ≤ r.2.1 && (c.toNat - r.1) % r.2.2.1 == 0 with
    | some r => [Char.ofNat ((c.toNat : Int) + r.2.2.2).toNat]
    | none => [c]

/-- Whether the first character that is not passed over has case. -/
def meetsCased (cs : List Char) : Bool :=
  match cs.dropWhile isCaseIgnorable with
  | c :: _ => isCased c
  | [] => false

/-- The lower-case form of a text, given the characters before it in reverse. A
capital sigma that ends a word (a cased character before it, none after it) turns
into the final small sigma. -/
def lowerFrom (before : List Char) : List Char → List Char
  | [] => []
  | c :: rest =>
    (if c = 'Σ' then
      if meetsCased before && !meetsCased rest then ['ς'] else ['σ']
    else lowerChar c) ++ lowerFrom (c :: before) rest

/-- The lower-case form of a text. -/
def lowercase (s : String) : String := String.ofList (lowerFrom [] s.toList)

/-- Equality up to the case of ASCII letters; all other characters count as they are. -/
def sameUpToAsciiCase (s t : String) : Bool :=
  s.toList.map Char.toLower == t.toList.map Char.toLower

end Questline.Text
