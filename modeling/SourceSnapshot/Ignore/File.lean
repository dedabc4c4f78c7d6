import SourceSnapshot.FileSystem.Lookup
import SourceSnapshot.Ignore.Engine
import SourceSnapshot.Text.Encoding.Name

/-!
# Ignore files

The rules of one ignore file. The file is UTF-8 with or without a byte order mark and is cut at
every line boundary. A missing file holds no rules; one that cannot be read is an error, and then
the engine is as it was.
-/

namespace SourceSnapshot.Ignore

open FileSystem (Path)

/-- Why an ignore file could not be loaded. -/
inductive FileFault where
  | unreadable (path reason : String)
  | nulInPath
  deriving DecidableEq

/-- What is reported of an ignore file that could not be loaded. -/
def FileFault.message : FileFault → String
  | .unreadable path reason => "Error reading ignore file " ++ path ++ ": " ++ reason
  | .nulInPath => FileSystem.AccessFault.nulInPath.message

/-- The encoding of ignore files. -/
def fileEncoding : Text.Encoding.Named := ⟨"utf-8-sig", .utf8Marked, Or.inl (by rfl)⟩

/-- The lines of an ignore file with this text. -/
def fileLines (text : String) : List String :=
  (Text.lines (Text.unifyBreaks text.toList)).map String.ofList

/-- The lines of the ignore file at a path, or none if it is missing. The message names the path as
it is `shown`. -/
def readLines (fs : FileSystem) (shown : String) : Except FileFault (Option (List String)) :=
  match fs.openFile (Path.ofText shown).text with
  | .error .nulInPath => .error .nulInPath
  | .error (.call fault) =>
    if fault.errno = .noEntry then .ok none else .error (.unreadable shown fault.errno.text)
  | .ok data =>
    match fileEncoding.read data.toList with
    | .error fault => .error (.unreadable shown fault.message)
    | .ok text => .ok (some (fileLines text))

namespace Engine

/-- A record about ignore files. -/
def fileRecord (message : String) : Log.Record := ⟨.debug, .ignore, message⟩

/-- Appends the rules of the ignore file at a path. -/
def loadFile (e : Engine) (fs : FileSystem) (path : String) :
    Except FileFault Engine × List Log.Record :=
  match readLines fs path with
  | .error fault => (.error fault, [])
  | .ok none => (.ok e, [fileRecord ("No ignore file at " ++ path)])
  | .ok (some lines) =>
    let items := lines.map some
    let new := accepted e.ignoreCase items
    (.ok (e.addItems items),
      rejectedReports e.ignoreCase items ++
        [fileRecord ("Loaded " ++ toString new.length ++ " rules from " ++ path)])

/-- The path of an ignore file as seen from a directory, or from the working directory. -/
def filePath (fs : FileSystem) (directory? : Option String) (path : String) : Path :=
  let directory :=
    match directory? with
    | some directory => Path.ofText directory
    | none => ⟨"/", fs.workingDirectory⟩
  (Path.ofText path).under directory

/-- An engine with the caller's rules and behind them those of one ignore file. -/
def ofFile (fs : FileSystem) (ignoreCase : Bool) (items : List (Option String))
    (directory? : Option String) (path : String) : Except FileFault Engine × List Log.Record :=
  let (loaded, log) :=
    ((empty ignoreCase).addItems items).loadFile fs (filePath fs directory? path).text
  (loaded, rejectedReports ignoreCase items ++ log)

end Engine

end SourceSnapshot.Ignore
