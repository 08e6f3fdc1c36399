/-!
# File trees

What lies below a folder, as far as the library reads it. A path is resolved part by
part from the folder it is relative to; nothing outside that folder can be reached.
-/

namespace Questline

inductive FileTree where
  | file (content : ByteArray)
  /-- The entries in the order in which they are enumerated. -/
  | folder (entries : List (String × FileTree))

namespace FileTree

instance : Inhabited FileTree := ⟨folder []⟩

def isFolder : FileTree → Bool
  | folder _ => true
  | file _ => false

/-- The entry of a folder with a name. -/
def child? (name : String) : FileTree → Option FileTree
  | folder es => (es.find? (·.1 = name)).map (·.2)
  | file _ => none

/-- Follow the parts of a path. `above` are the folders that the current one lies in,
innermost first. -/
def walk (above : List FileTree) (here : FileTree) : List String → Option FileTree
  | [] => some here
  | part :: rest =>
    if !here.isFolder then none
    else if part = "" || part = "." then walk above here rest
    else if part = ".." then
      match above with
      | parent :: above => walk above parent rest
      | [] => none
    else
      match here.child? part with
      | some there => walk (here :: above) there rest
      | none => none

/-- The parts of a path between its slashes. -/
def parts (path : String) : List String := path.splitOn "/"

/-- What lies at a path. -/
def find? (root : FileTree) (path : String) : Option FileTree :=
  if path.isEmpty || path.startsWith "/" then none else walk [] root (parts path)

/-- The text of a file that is written in UTF-8. -/
def text? : FileTree → Option String
  | file content => String.fromUTF8? content
  | folder _ => none

/-- Put a tree at a path that is given by its parts, making the folders on the way. A
file takes the place of what lay there; a folder is joined with a folder. -/
def place (t : FileTree) : List String → List (String × FileTree) → List (String × FileTree)
  | [], es => es
  | name :: rest, es =>
    let old := match es.find? (·.1 = name) with
      | some (_, folder inner) => inner
      | _ => []
    let new := match rest, t with
      | [], file content => file content
      | [], folder inner => folder (old ++ inner)
      | _ :: _, t => folder (place t rest old)
    es.filter (·.1 ≠ name) ++ [(name, new)]

/-- The tree that given trees make up at their paths. -/
def ofPlaced (ts : List (String × FileTree)) : FileTree :=
  folder (ts.foldl (fun es t => place t.2 ((parts t.1).filter fun p => p ≠ "" && p ≠ ".") es) [])

end FileTree

end Questline
