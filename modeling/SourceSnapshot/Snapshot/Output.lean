import SourceSnapshot.FileSystem.Write
import SourceSnapshot.Json.Layout
import SourceSnapshot.Snapshot.Report

/-!
# Output files

A report is written into a directory, as text, as data, or as both. The name of each file ends with
the time of the snapshot, so that snapshots taken at different times have different files. A tree
that is nested too deep is not written as data. A write that is broken off leaves its file behind.
-/

namespace SourceSnapshot.Snapshot

open FileSystem (AccessFault Path WriteFault)

/-- The forms in which a report is written. -/
inductive Format where
  | json
  | text
  | both
  deriving DecidableEq

namespace Format

/-- The format of this name. -/
def ofName? : String → Option Format
  | "json" => some .json
  | "text" => some .text
  | "both" => some .both
  | _ => none

/-- Whether texts are written. -/
def writesText : Format → Bool
  | .json => false
  | _ => true

/-- Whether data are written. -/
def writesJson : Format → Bool
  | .text => false
  | _ => true

end Format

/-- Why a report was not written. -/
inductive OutputFault where
  | format (name : String)
  | access (fault : AccessFault)
  | write (fault : WriteFault)
  | nesting
  deriving DecidableEq

/-- What is reported of a report that was not written. -/
def OutputFault.message : OutputFault → String
  | .format name =>
    "output_format must be one of ('json', 'text', 'both'), got " ++ Text.quoted name
  | .access fault => fault.message
  | .write fault => fault.message
  | .nesting => "Error serializing to JSON: ValueError: " ++ Json.nestingMessage

/-- The time of a snapshot as a part of file names: without colons and points. -/
def stamp (timestamp : String) : String :=
  String.ofList (timestamp.toList.map fun c => if c = ':' || c = '.' then '-' else c)

/-- A file to write: its path as seen from the output directory, and its text, if it has one. -/
structure Document where
  name : String
  text? : Option String
  deriving DecidableEq

/-- The files of a report in the order in which they are written. -/
def documents (r : Report) (format : Format) : List Document :=
  let stamp := stamp r.metadata.timestamp
  [⟨"metadata-" ++ stamp ++ ".json", r.metadata.toJson.layout⟩] ++
    (if format.writesText then
      [⟨"tree-" ++ stamp ++ ".txt", r.treeText⟩, ⟨"digest-" ++ stamp ++ ".txt", r.filesText⟩]
    else []) ++
    (if format.writesJson then
      [⟨"tree-" ++ stamp ++ ".json", r.tree.toData?.map Json.layout⟩,
        ⟨"digest-" ++ stamp ++ ".json", (Json.array (r.files.map FileText.toJson)).layout⟩]
    else [])

/-- What came of writing: the paths that were written, the path of a file whose writing was broken
off, the fault that ended it, the file system that it leaves behind, and the log. -/
structure Written where
  paths : List Path
  broken? : Option Path
  fault? : Option OutputFault
  fileSystem : FileSystem
  log : List Log.Record

/-- Writes documents into a directory until one fails. -/
def writeAll (fs : FileSystem) (directory : Path) : List Document → Written
  | [] => ⟨[], none, none, fs, []⟩
  | document :: rest =>
    let path := (Path.ofText document.name).under directory
    match document.text? with
    | none => ⟨[], none, some .nesting, fs, []⟩
    | some text =>
      match fs.writeText path text with
      | .error fault => ⟨[], none, some (.access fault), fs, []⟩
      | .ok ⟨changed, some fault⟩ => ⟨[], some path, some (.write fault), changed, []⟩
      | .ok ⟨changed, none⟩ =>
        let others := writeAll changed directory rest
        { others with
          paths := path :: others.paths
          log := ⟨.info, .output, "Wrote " ++ path.text⟩ :: others.log }

/-- Makes the output directory and writes a report into it. -/
def write (fs : FileSystem) (directory : String) (r : Report) (format : Format) : Written :=
  let path := Path.ofText directory
  match fs.makeDirectories path with
  | .error (fault, made) => ⟨[], none, some (.access fault), made, []⟩
  | .ok changed => writeAll changed path (documents r format)

/-- The outcome of writing: all written paths, or the fault. -/
def Written.result (w : Written) : Except OutputFault (List Path) :=
  match w.fault? with
  | some fault => .error fault
  | none => .ok w.paths

end SourceSnapshot.Snapshot
