import SourceSnapshot.Text.Blank
import SourceSnapshot.Text.Quoted

/-!
# Keys of relative paths

Paths are compared by a normal form, their key: without `./` in front and without slashes at its
ends, except that the key of a directory ends in one slash. A path that is absolute, empty or leads
out of the root has no key. The keys of the directories above a path are read off its own key.
-/

namespace SourceSnapshot.Ignore

/-- The normal form of a relative path; that of a directory ends with a slash. -/
structure Key where
  chars : List Char
  deriving DecidableEq

/-- Why a path has no key. -/
inductive PathFault where
  | outside (shown : String)
  | empty
  deriving DecidableEq

/-- What is reported of a path without a key. -/
def PathFault.message : PathFault → String
  | .outside shown => "path should be relative to the scan root, got " ++ Text.quoted shown
  | .empty => "path must not be empty"

namespace Key

/-- The path without the `./` in front, however often it is repeated. -/
def dropHere : List Char → List Char
  | '.' :: '/' :: rest => dropHere rest
  | cs => cs

/-- The key of a relative path. A path that ends with a slash is that of a directory. -/
def ofPath (path : String) (isDir : Bool) : Except PathFault Key :=
  let cs := path.toList
  if cs.head? = some '/' then .error (.outside path)
  else
    let inner := Text.trim (· == '/') (dropHere cs)
    if inner = [] || inner = ['.'] then .error .empty
    else if inner = ['.', '.'] || ['.', '.', '/'].isPrefixOf inner then
      .error (.outside (String.ofList inner))
    else if isDir || Text.endsWith cs ['/'] then .ok ⟨inner ++ ['/']⟩
    else .ok ⟨inner⟩

/-- The text of a key. -/
def text (k : Key) : String := String.ofList k.chars

/-- The key of the directory that holds the path, if it lies below the root. -/
def parent? (k : Key) : Option Key :=
  let bare := Text.dropTrailing (· == '/') k.chars
  let above := Text.dropTrailing (· != '/') bare
  if above = [] then none else some ⟨above⟩

/-- The key and at most `steps` keys of directories above it, from the inside out. -/
def lineageWithin (k : Key) : Nat → List Key
  | 0 => [k]
  | steps + 1 =>
    match k.parent? with
    | some above => k :: above.lineageWithin steps
    | none => [k]

/-- The key and the keys of all directories above it, from the inside out. -/
def lineage (k : Key) : List Key := k.lineageWithin k.chars.length

end Key

end SourceSnapshot.Ignore
