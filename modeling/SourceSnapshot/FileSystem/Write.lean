import SourceSnapshot.FileSystem.Lookup

/-!
# Changing a file system

Making directories, writing texts, and putting or removing an entry. A written text goes through
links: it replaces the bytes of the file it leads to, or makes a new file where nothing was. If the
writing is broken off, the file holds the beginning of the text. Making a directory makes the
missing ones above it, which stay if it fails after all.
-/

namespace SourceSnapshot.FileSystem

/-- Changes what the directory at a location holds. -/
def changeContents (fs : FileSystem) (location : List String) (change : List Entry → List Entry) :
    FileSystem :=
  { fs with entries := Entry.changeAt change location fs.entries }

/-- Puts an entry into the directory at a location. -/
def putAt (fs : FileSystem) (location : List String) (entry : Entry) : FileSystem :=
  fs.changeContents location (Entry.put entry)

/-- Puts an entry into the directory that a path leads to, if there is one. -/
def putInto (fs : FileSystem) (path : String) (entry : Entry) : FileSystem :=
  match fs.lookUp path with
  | .ok (.directory location) => fs.putAt location entry
  | _ => fs

/-- Takes out the entry that a path names. A link at its end is taken out and not followed. -/
def remove (fs : FileSystem) (path : String) : FileSystem :=
  match (componentsOf path).reverse with
  | [] => fs
  | name :: above =>
    match fs.walkFrom .visit path above.reverse with
    | .ok (.directory location) => fs.changeContents location (Entry.remove name)
    | _ => fs

/-- A new directory. -/
def newDirectory (name : String) : Entry := .directory name false none []

/-- A new file with these bytes. -/
def newFile (name : String) (bytes : ByteArray) : Entry := .file name false ⟨bytes, none, none⟩

/-- Makes the directory that a path names, in a directory that is there. -/
def makeDirectory (fs : FileSystem) (p : Path) : Except AccessFault FileSystem :=
  let fail := fun errno => .error (.call ⟨errno, p.text⟩)
  match p.components.reverse with
  | [] => fail .exists
  | name :: above =>
    match fs.walkFrom .visit p.text above.reverse with
    | .ok (.directory location) =>
      if name = ".." || (fs.entryAt? location name).isSome then fail .exists
      else if maxNameBytes < name.utf8ByteSize then fail .nameTooLong
      else .ok (fs.putAt location (newDirectory name))
    | .ok (.missing _ _) => fail .noEntry
    | .ok _ => fail .notDirectory
    | .error fault => .error fault

/-- Makes the directory that a path names unless it is there. A name that is too long is reported
even if it stands in a link. -/
def ensureDirectory (fs : FileSystem) (p : Path) : Except AccessFault FileSystem :=
  match fs.makeDirectory p with
  | .ok changed => .ok changed
  | .error fault =>
    if fault = .call ⟨.noEntry, p.text⟩ then .error fault
    else
      match fs.lookUp p.text with
      | .ok (.directory _) => .ok fs
      | .error (.call ⟨.nameTooLong, path⟩) => .error (.call ⟨.nameTooLong, path⟩)
      | _ => .error fault

/-- Makes the directory with these components, given from the last one on, and those above it. With
a fault comes what is left behind, as directories above may have been made. -/
def makeDirectoriesUpward (fs : FileSystem) (root : String) :
    List String → Except (AccessFault × FileSystem) FileSystem
  | [] => (fs.ensureDirectory ⟨root, []⟩).mapError (·, fs)
  | name :: above =>
    let p : Path := ⟨root, (name :: above).reverse⟩
    match fs.makeDirectory p with
    | .error (.call ⟨.noEntry, _⟩) => do
      let made ← makeDirectoriesUpward fs root above
      (made.ensureDirectory p).mapError (·, made)
    | _ => (fs.ensureDirectory p).mapError (·, fs)

/-- Makes the directory that a path names and those above it, unless they are there. -/
def makeDirectories (fs : FileSystem) (p : Path) : Except (AccessFault × FileSystem) FileSystem :=
  makeDirectoriesUpward fs p.root p.components.reverse

/-- What comes of writing into a file that was opened: the file system that is left behind, and what
broke off the writing. -/
structure Saved where
  fileSystem : FileSystem
  fault? : Option WriteFault

/-- What is in a file after a text was written into it. -/
def savedBytes (text : String) : Option WriteFault → ByteArray
  | none => text.toUTF8
  | some fault => text.toUTF8.extract 0 fault.kept

/-- Writes a text into the file that a path leads to, and makes the file if nothing is there. -/
def writeText (fs : FileSystem) (p : Path) (text : String) : Except AccessFault Saved := do
  let fault? := fs.writeFault? p.text
  let bytes := savedBytes text fault?
  match ← fs.find .write p.text with
  | .file data above name =>
    let change := fun
      | .file n obscure _ => .file n obscure { data with bytes := bytes }
      | other => other
    let changed := fs.changeContents above fun entries =>
      entries.map fun entry => if entry.name = name then change entry else entry
    return ⟨changed, fault?⟩
  | .missing above name => return ⟨fs.putAt above (newFile name bytes), fault?⟩
  | .directory _ => throw (.call ⟨.isDirectory, p.text⟩)
  | .pipe => return ⟨fs, fault?⟩

/-- The files below the working directory, each with its path as seen from there. -/
def files (fs : FileSystem) : List (String × FileData) :=
  match fs.contents? fs.workingDirectory with
  | some (_, entries) => Entry.filesAmong "" entries
  | none => []

/-- The files below the working directory that another file system does not have, in the order of
their paths. -/
def filesAddedTo (fs older : FileSystem) : List (String × FileData) :=
  let known := older.files.map Prod.fst
  let new := fs.files.filter fun (path, _) => !known.contains path
  new.mergeSort fun a b => !decide (b.1 < a.1)

end SourceSnapshot.FileSystem
