import SourceSnapshot.FileSystem.Fault

/-!
# Entries

What a directory holds, in the order in which it is listed. An entry may carry faults: a directory
that cannot be listed, a file that cannot be opened or whose size cannot be asked for, an entry of
which it cannot be told at first whether it is a directory, and one of which nothing can be told.
-/

namespace SourceSnapshot.FileSystem

/-- A file: its bytes, and what goes wrong when it is opened or its size is asked for. -/
structure FileData where
  bytes : ByteArray
  openFault : Option Errno
  sizeFault : Option Errno

/-- The number of bytes of a file. -/
def FileData.size (d : FileData) : Nat := d.bytes.size

/-- The bytes of a file in order. -/
def FileData.toList (d : FileData) : List UInt8 := d.bytes.data.toList

/-- An entry of a directory. Of an entry whose kind is `obscure` it cannot be told whether it is a
directory; what is asked later on is answered. Of an `unknown` entry only the name is told: whatever
else is asked about it ends in its fault. -/
inductive Entry where
  | file (name : String) (obscure : Bool) (data : FileData)
  | directory (name : String) (obscure : Bool) (listFault : Option Errno) (entries : List Entry)
  | link (name : String) (obscure : Bool) (target : String)
  | pipe (name : String) (obscure : Bool)
  | unknown (name : String) (fault : EntryFault)

namespace Entry

/-- The name of an entry. -/
def name : Entry → String
  | .file name _ _ => name
  | .directory name _ _ _ => name
  | .link name _ _ => name
  | .pipe name _ => name
  | .unknown name _ => name

/-- The entry with this name. -/
def find? (name : String) (entries : List Entry) : Option Entry :=
  entries.find? fun entry => entry.name == name

/-- Puts an entry in the place of the one with its name, or at the end. -/
def put (new : Entry) : List Entry → List Entry
  | [] => [new]
  | entry :: rest => if entry.name = new.name then new :: rest else entry :: put new rest

/-- Takes out the entry with this name. -/
def remove (name : String) (entries : List Entry) : List Entry :=
  entries.filter fun entry => entry.name != name

/-- Changes the contents of the directory at a location, given by the names that lead to it. -/
def changeAt (change : List Entry → List Entry) : List String → List Entry → List Entry
  | [], entries => change entries
  | name :: location, entries =>
    entries.map fun entry =>
      match entry with
      | .directory n obscure fault inner =>
        if n = name then .directory n obscure fault (changeAt change location inner)
        else entry
      | _ => entry

/-- The contents of the directory at a location, with the fault of listing it. -/
def directoryAt? : List String → Option Errno × List Entry → Option (Option Errno × List Entry)
  | [], found => some found
  | name :: location, (_, entries) =>
    match find? name entries with
    | some (.directory _ _ fault inner) => directoryAt? location (fault, inner)
    | _ => none

mutual

/-- The files below an entry, each with its path. -/
def filesOf (above : String) : Entry → List (String × FileData)
  | .file name _ data => [(above ++ name, data)]
  | .directory name _ _ entries => filesAmong (above ++ name ++ "/") entries
  | _ => []

/-- The files below several entries, each with its path. -/
def filesAmong (above : String) : List Entry → List (String × FileData)
  | [] => []
  | entry :: rest => filesOf above entry ++ filesAmong above rest

end

end Entry

end SourceSnapshot.FileSystem
