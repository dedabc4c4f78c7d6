import SourceSnapshot.FileSystem.Entry
import SourceSnapshot.FileSystem.Path

/-!
# Looking up paths

A path is followed component by component from the root or from the working directory. Links are
followed, at most forty in one look-up, and names and paths have a greatest length. A path is looked
up to find what is there, or to write a file that is made if it is missing.
-/

namespace SourceSnapshot

/-- A file system: what its root directory holds, the location of the working directory, and what
breaks off the writing of a text into the file that a path leads to. -/
structure FileSystem where
  entries : List FileSystem.Entry
  workingDirectory : List String
  writeFault? : String → Option FileSystem.WriteFault := fun _ => none

namespace FileSystem

/-- Entries as they are found at a location below them. -/
def nest (entries : List Entry) : List String → List Entry
  | [] => entries
  | name :: location => [.directory name false none (nest entries location)]

/-- The file system that holds nothing but a working directory at a location. -/
def ofWorkingDirectory (location : List String) (entries : List Entry) : FileSystem :=
  { entries := nest entries location, workingDirectory := location }

/-- What a path leads to. A location is given by the names that lead to it from the root. A missing
entry is one that its directory does not hold. -/
inductive Place where
  | directory (location : List String)
  | file (data : FileData) (above : List String) (name : String)
  | pipe
  | missing (above : List String) (name : String)

/-- The components of a path as they are followed; those that lead nowhere still ask for a
directory. -/
def steps (path : String) : List String := (Text.splitOn '/' path.toList).map String.ofList

/-- Whether a path starts at the root. -/
def startsAtRoot (path : String) : Bool := path.toList.head? == some '/'

/-- What the directory at a location holds, with the fault of listing it. -/
def contents? (fs : FileSystem) (location : List String) : Option (Option Errno × List Entry) :=
  Entry.directoryAt? location (none, fs.entries)

/-- The entry at a name in the directory at a location. -/
def entryAt? (fs : FileSystem) (location : List String) (name : String) : Option Entry :=
  (fs.contents? location).bind fun (_, entries) => Entry.find? name entries

/-- Where the path of a link starts that stands in the directory at a location. -/
def linkStart (location : List String) (target : String) : List String :=
  if startsAtRoot target then [] else location

/-- What a path is looked up for: for what is there, or for a file to write. -/
inductive Purpose where
  | visit
  | write
  deriving DecidableEq

/-- The most bytes in a name. -/
def maxNameBytes : Nat := 255

/-- The most bytes in a path. -/
def maxPathBytes : Nat := 4095

/-- Why a name is not looked up, from the components behind it: a file to write has no slash behind
its name, and names have a greatest length. -/
def nameFault? (purpose : Purpose) (name : String) (rest : List String) : Option Errno :=
  if purpose = .write && !rest.isEmpty && rest.all (· = "") then some .isDirectory
  else if maxNameBytes < name.utf8ByteSize then some .nameTooLong
  else none

/-- Follows components from a location. What is to be done at a link is left open: it is asked with
the location of the link, its target and the components behind it. -/
def walkWith (fs : FileSystem) (purpose : Purpose)
    (atLink : List String → String → List String → Except Errno Place) :
    List String → List String → Except Errno Place
  | location, [] => .ok (.directory location)
  | location, step :: rest =>
    if isIdle step.toList then walkWith fs purpose atLink location rest
    else if step = ".." then walkWith fs purpose atLink location.dropLast rest
    else if let some errno := nameFault? purpose step rest then .error errno
    else
      match fs.entryAt? location step with
      | none => if rest.isEmpty then .ok (.missing location step) else .error .noEntry
      | some (.directory _ _ _ _) => walkWith fs purpose atLink (location ++ [step]) rest
      | some (.link _ _ target) => atLink location target rest
      | some (.file _ _ data) =>
        if rest.isEmpty then .ok (.file data location step) else .error .notDirectory
      | some (.pipe _ _) => if rest.isEmpty then .ok .pipe else .error .notDirectory
      | some (.unknown _ fault) => .error fault.errno

/-- Follows components from a location, and at most so many links on the way. -/
def walk (fs : FileSystem) (purpose : Purpose) :
    Nat → List String → List String → Except Errno Place
  | 0 => walkWith fs purpose fun _ _ _ => .error .tooManyLinks
  | links + 1 => walkWith fs purpose fun location target rest =>
    walk fs purpose links (linkStart location target) (steps target ++ rest)

/-- The number of links that one look-up may follow. -/
def maxLinks : Nat := 40

/-- Where a path starts. -/
def start (fs : FileSystem) (path : String) : List String :=
  if startsAtRoot path then [] else fs.workingDirectory

/-- Follows components from where a path starts. -/
def walkFrom (fs : FileSystem) (purpose : Purpose) (path : String) (steps : List String) :
    Except AccessFault Place :=
  if path.toList.contains '\x00' then .error .nulInPath
  else if path = "" then .error (.call ⟨.noEntry, path⟩)
  else if maxPathBytes < path.utf8ByteSize then .error (.call ⟨.nameTooLong, path⟩)
  else
    (walk fs purpose maxLinks (fs.start path) steps).mapError fun errno => .call ⟨errno, path⟩

/-- What a path leads to, or a missing entry. -/
def find (fs : FileSystem) (purpose : Purpose) (path : String) : Except AccessFault Place :=
  fs.walkFrom purpose path (steps path)

/-- What a path leads to. -/
def lookUp (fs : FileSystem) (path : String) : Except AccessFault Place := do
  match ← fs.find .visit path with
  | .missing _ _ => throw (.call ⟨.noEntry, path⟩)
  | found => return found

/-- The entries of the directory that a path leads to, in order. -/
def list (fs : FileSystem) (path : String) : Except AccessFault (List Entry) := do
  match ← fs.lookUp path with
  | .directory location =>
    match fs.contents? location with
    | some (none, entries) => return entries
    | some (some errno, _) => throw (.call ⟨errno, path⟩)
    | none => throw (.call ⟨.noEntry, path⟩)
  | _ => throw (.call ⟨.notDirectory, path⟩)

/-- The file that a path leads to, opened for reading. A pipe that nobody writes to is read as
empty. -/
def openFile (fs : FileSystem) (path : String) : Except AccessFault FileData := do
  match ← fs.lookUp path with
  | .file data _ _ =>
    match data.openFault with
    | some errno => throw (.call ⟨errno, path⟩)
    | none => return data
  | .directory _ => throw (.call ⟨.isDirectory, path⟩)
  | _ => return ⟨.empty, none, none⟩

/-- The absolute path of a location. -/
def locationText (location : List String) : String := "/" ++ "/".intercalate location

end FileSystem

end SourceSnapshot
