import SourceSnapshot.Text.Split

/-!
# Paths as texts

A path in normal form has no empty component and no `.`; a `..` is kept. Two slashes in front are
distinguished from one. The last component of a directory's path is its name.
-/

namespace SourceSnapshot.FileSystem

/-- A path in normal form: what stands before the first component, and the components. -/
structure Path where
  root : String
  components : List String
  deriving DecidableEq

/-- A component that leads nowhere. -/
def isIdle (component : List Char) : Bool := component == [] || component == ['.']

/-- The components of a path text that lead somewhere. -/
def componentsOf (path : String) : List String :=
  ((Text.splitOn '/' path.toList).filter fun c => !isIdle c).map String.ofList

namespace Path

/-- What stands before the first component: nothing, a slash, or exactly two slashes. -/
def rootOf (cs : List Char) : String :=
  match cs with
  | '/' :: '/' :: '/' :: _ => "/"
  | '/' :: '/' :: _ => "//"
  | '/' :: _ => "/"
  | _ => ""

/-- The normal form of a path text. -/
def ofText (path : String) : Path := ⟨rootOf path.toList, componentsOf path⟩

/-- Whether the path starts at the root. -/
def isAbsolute (p : Path) : Bool := p.root != ""

/-- The text of a path. -/
def text (p : Path) : String :=
  if p.root = "" && p.components = [] then "." else p.root ++ "/".intercalate p.components

/-- A path as seen from a directory; an absolute path stays. -/
def under (p directory : Path) : Path :=
  if p.isAbsolute then p else ⟨directory.root, directory.components ++ p.components⟩

/-- The path of the directory that holds the path. -/
def parent (p : Path) : Path := ⟨p.root, p.components.dropLast⟩

end Path

/-- The components after each `..` has taken back the component before it. -/
def collapse (done : List String) : List String → List String
  | [] => done.reverse
  | ".." :: rest => collapse done.tail rest
  | component :: rest => collapse (component :: done) rest

/-- The path of an entry of a directory, from the directory's path; a slash is not doubled. -/
def childPath (directory name : String) : String :=
  if directory.toList.getLast? = some '/' then directory ++ name else directory ++ "/" ++ name

/-- A relative path joined from a directory's, which is empty for the root, and a name. -/
def joinRelative (directory name : String) : String :=
  if directory = "" then name else directory ++ "/" ++ name

end SourceSnapshot.FileSystem
