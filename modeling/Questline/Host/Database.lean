import Questline.FileTree
import Questline.Store.Repository
import Questline.Text.Numeral

/-!
# Databases

The address of a database says whether it lies in memory or in a file, and whether the
file is made if it is missing. A database file starts with a line that marks it; its rest
is a JSON record with the document of every player. An empty file is an empty database.
-/

namespace Questline

/-! ## Percent encoding -/

def asciiDigit? (byte : UInt8) : Option UInt8 :=
  (Text.digitValue? 16 (Char.ofNat byte.toNat)).map UInt8.ofNat

/-- Replace a percent sign and two hexadecimal digits by the byte they name. -/
def percentDecode : List UInt8 → List UInt8
  | [] => []
  | 37 :: x :: y :: rest =>
    match asciiDigit? x, asciiDigit? y with
    | some high, some low => (high * 16 + low) :: percentDecode rest
    | _, _ => 37 :: percentDecode (x :: y :: rest)
  | b :: rest => b :: percentDecode rest

/-- A text with its percent signs decoded, if the bytes are UTF-8. -/
def percentDecoded? (s : String) : Option String :=
  String.fromUTF8? ⟨(percentDecode s.toUTF8.toList).toArray⟩

/-! ## Addresses -/

/-- Where a database lies. -/
structure DatabaseAddress where
  path : String
  inMemory : Bool
  readOnly : Bool
  /-- Whether a missing file is made. -/
  create : Bool
  deriving DecidableEq, Repr

namespace DatabaseAddress

/-- A text without some text at its start, as often as it stands there. -/
def dropRepeated (start : List Char) (cs : List Char) : List Char :=
  if start.isEmpty then cs
  else if start.isPrefixOf cs then dropRepeated start (cs.drop start.length)
  else cs
  termination_by cs.length
  decreasing_by
    rename_i hne hp
    have hlen : start.length ≤ cs.length := (List.isPrefixOf_iff_prefix.mp hp).length_le
    have hpos : 0 < start.length := by
      cases start with
      | nil => simp at hne
      | cons _ _ => simp
    simp only [List.length_drop]
    omega

/-- Take one setting into account. -/
def setting? (a : DatabaseAddress) (name value : String) : Option DatabaseAddress :=
  match name, value with
  | "mode", "ro" => some { a with readOnly := true }
  | "mode", "rw" => some a
  | "mode", "rwc" => some { a with create := true }
  | "mode", "memory" => some { a with inMemory := true }
  | "cache", "private" | "cache", "shared" => some a
  | "immutable", "true" | "immutable", "1" | "immutable", "false" | "immutable", "0" => some a
  | "vfs", "unix" => some a
  | _, _ => none

/-- A part of a setting: a plus sign stands for a blank. -/
def settingText? (cs : List Char) : Option String :=
  percentDecoded? (String.ofList (cs.map fun c => if c = '+' then ' ' else c))

/-- Take all settings into account, written as `name=value` with ampersands between. -/
def settings? (a : DatabaseAddress) : List String → Option DatabaseAddress
  | [] => some a
  | "" :: rest => settings? a rest
  | s :: rest => do
    let name := s.toList.takeWhile (· ≠ '=')
    let value := (s.toList.drop name.length).tail
    let a ← a.setting? (← settingText? name) (← settingText? value)
    settings? a rest

/-- The address that a URL names. The scheme may be left out. -/
def ofUrl? (url : String) : Option DatabaseAddress := do
  let cs := dropRepeated "sqlite:".toList (dropRepeated "sqlite://".toList url.toList)
  let name := cs.takeWhile (· ≠ '?')
  let params := String.ofList (cs.drop name.length).tail
  let path ← percentDecoded? (String.ofList name)
  settings? ⟨path, path = ":memory:" || path = "", false, false⟩ (params.splitOn "&")

/-- The path of the folder that a file lies in. -/
def folderPath (a : DatabaseAddress) : String :=
  match (FileTree.parts a.path).dropLast with
  | [] => "."
  | [""] => "/"
  | parts => "/".intercalate parts

end DatabaseAddress

/-! ## Files -/

namespace DocumentRepository

/-- The first line of a database file. -/
def fileMark : String := "questline journals 1\n"

/-- The text of a database file. -/
def toFileText (r : DocumentRepository) : String :=
  fileMark ++ Json.write (Datum.ofDict .text r.documents)

/-- The database that a file holds. -/
def ofFileText? (text : String) : Option DocumentRepository :=
  if text.isEmpty then some empty
  else if text.startsWith fileMark then do
    let d ← Json.read? (text.drop fileMark.length).toString
    let documents ← Datum.dictOf? Datum.text? d
    return ⟨documents⟩
  else none

end DocumentRepository

/-- Open the database at an address. `found` is what lies at its path, and `hasFolder`
says whether a file could be made there. -/
def DatabaseAddress.open? (a : DatabaseAddress) (found : Option FileTree) (hasFolder : Bool) :
    Option DocumentRepository :=
  if a.inMemory then some .empty
  else
    match found with
    | some tree => tree.text?.bind DocumentRepository.ofFileText?
    | none => if a.create && !a.readOnly && hasFolder then some .empty else none

end Questline
