import Questline.Catalog
import Questline.FileTree
import Questline.Quest.Record
import Questline.Quest.Validity
import Questline.Toml.Reader

/-!
# Loading catalogs

A catalog is loaded from all quest files below a folder. The files are taken in the order
of their paths, compared part by part, so that the order in which a folder enumerates its
entries makes no difference. Of two quests with one id the later file counts; a file that
does not hold a valid quest is passed over.
-/

namespace Questline

/-- Whether a file name has the extension of quest files. A name that is nothing but the
extension has none. -/
def isQuestFileName (name : String) : Bool :=
  name.endsWith ".toml" && name ≠ ".toml"

/-- A file and the parts of its path. -/
abbrev PathedFile := List String × ByteArray

mutual

/-- The quest files of a tree, whose own path is given. -/
def FileTree.questFiles (path : List String) : FileTree → List PathedFile
  | .file content => if path.getLast?.any isQuestFileName then [(path, content)] else []
  | .folder es => questFilesAmong path es

/-- The quest files of the entries of a folder. -/
def questFilesAmong (path : List String) : List (String × FileTree) → List PathedFile
  | [] => []
  | (name, t) :: rest => t.questFiles (path ++ [name]) ++ questFilesAmong path rest

end

/-- Whether a path comes before another, or is the same: the first parts that differ
decide, and a path comes before its extensions. -/
def pathLE : List String → List String → Bool
  | [], _ => true
  | _ :: _, [] => false
  | a :: as, b :: bs => if a = b then pathLE as bs else decide (a < b)

/-- The quest that the text of a quest file holds under the name `quest`. -/
def Quest.ofText? (text : String) : Option Quest := do
  let d ← Toml.read? text
  let fs ← d.fields? ["quest"] 1 true
  Datum.required "quest" (Quest.read? .toml) fs

/-- The valid quest that a file holds. -/
def Quest.ofFile? (content : ByteArray) : Option Quest :=
  ((String.fromUTF8? content).bind Quest.ofText?).filter fun q => q.defect?.isNone

namespace Catalog

/-- The quests of files, in the order of their paths. -/
def ofQuestFiles (files : List PathedFile) : Catalog :=
  ofQuests ((files.mergeSort fun a b => pathLE a.1 b.1).filterMap fun f => Quest.ofFile? f.2)

/-- The catalog that is found at a place: nothing lies there, or a folder does. A file
in place of the folder is an error. -/
def load? : Option FileTree → Option Catalog
  | none => some ∅
  | some (.file _) => none
  | some (.folder es) => some (ofQuestFiles (questFilesAmong [] es))

end Catalog

end Questline
