import SourceSnapshot.CommandLine.Options
import SourceSnapshot.CommandLine.Transcript
import SourceSnapshot.FileSystem.Resolution
import SourceSnapshot.Number.Rounding
import SourceSnapshot.Snapshot.Session

/-!
# Running the command

The command takes a snapshot of a directory and prints it or writes it into files. It reports on its
error stream; a fault of the ignore file, of the directory or of the output ends it with a message,
any other fault breaks it off.
-/

namespace SourceSnapshot.CommandLine

open FileSystem (AccessFault ResolveFault)
open Number (Binary64)
open Snapshot (Moment OutputFault Report Session SessionFault)

/-- What the command finds around it. `logTime` stands in front of log lines. -/
structure World where
  fileSystem : FileSystem
  environment : List (String × String)
  checkout? : Option Repository.Checkout
  moment : Moment
  logTime : String

/-- What breaks the command off. -/
inductive Crash where
  | nulInPath
  | unresolved (fault : ResolveFault)
  | sizeNotANumber
  | sizeInfinite
  | session (fault : SessionFault)
  | output (fault : OutputFault)

/-- What is reported of a command that was broken off. -/
def Crash.message : Crash → String
  | .nulInPath => AccessFault.nulInPath.message
  | .unresolved fault => fault.message
  | .sizeNotANumber => "cannot convert float NaN to integer"
  | .sizeInfinite => "cannot convert float infinity to integer"
  | .session fault => fault.message
  | .output fault => fault.message

/-- How the command ended. -/
inductive Ending where
  | success
  | failure
  | crash (cause : Crash)
  | misuse (fault : UsageFault)
  | help

/-- The exit code of an ending. -/
def Ending.exitCode : Ending → Nat
  | .success => 0
  | .help => 0
  | .failure => 1
  | .crash _ => 1
  | .misuse _ => 2

/-- What the command leaves behind. -/
structure Outcome where
  ending : Ending
  stdout : String
  stderr : String
  fileSystem : FileSystem

/-- Whether a fault of a session is reported by a message; its text. -/
def reported? : SessionFault → Option String
  | .ignoreFile (.unreadable path reason) =>
    some (SessionFault.ignoreFile (.unreadable path reason)).message
  | .traversal (.unlistable fault) => some (SessionFault.traversal (.unlistable fault)).message
  | .traversal (.unknown fault) => some (SessionFault.traversal (.unknown fault)).message
  | _ => none

/-- The size limit in bytes. -/
def maxFileSize (mebibytes : Binary64) : Except Crash Nat :=
  match mebibytes.scale 20 with
  | .finite negative mantissa exponent =>
    .ok (Binary64.signed negative (Binary64.wholePart mantissa exponent)).toNat
  | .infinite _ => .error .sizeInfinite
  | .notANumber => .error .sizeNotANumber

/-- The directory of a run and the settings of its session. -/
structure Plan where
  root : String
  settings : SnapshotSettings

/-- Works out the directory and the settings. An ignore file that is asked for is found from where
the command runs. -/
def plan (o : Options) (fs : FileSystem) : Except Crash Plan := do
  let root ← (fs.resolve o.directory).mapError Crash.unresolved
  let ignoreFile ←
    if o.ignoreFile = "" then pure defaultIgnoreFile
    else ((fs.resolve o.ignoreFile).mapError Crash.unresolved).map (·.text)
  let maxFileSize ← maxFileSize o.maxSize
  return {
    root := root.text
    settings := {
      ignorePatterns := splitPatterns o.ignore
      ignoreFile := ignoreFile
      ignoreCase := SnapshotSettings.default.ignoreCase
      maxFileSize := maxFileSize
      includeBinaryFiles := o.includeBinary
      includeDotFiles := o.includeDot
      encoding := SnapshotSettings.default.encoding
      maxDepth := o.maxDepth } }

/-- Takes the snapshot. -/
def takeSnapshot (o : Options) (w : World) (p : Plan) :
    Except SessionFault Report × List Log.Record :=
  let prepared := (Session.ofSettings p.settings).prepare w.fileSystem (some p.root)
  match prepared.result with
  | .error fault => (.error fault, prepared.log)
  | .ok _ =>
    let (repository, found) := Repository.resolve p.root w.checkout? o.explicit
    let taken := prepared.session.take w.fileSystem p.root repository w.moment
    (taken.result, prepared.log ++ found ++ taken.log)

/-- The messages that sum up a snapshot. -/
def summary (r : Report) : List String :=
  let s := r.metadata.statistics
  ["\nDigest Summary:",
    "- Files processed: " ++ toString s.processed,
    "- Files skipped: " ++ toString s.skipped,
    "- Total size: " ++ Number.hundredths s.totalSize.toNat (1024 * 1024) ++ " MB",
    "- Execution time: " ++ r.metadata.executionTime] ++
    (if s.errors.isEmpty then []
    else "\nWarning: Some files could not be processed:" ::
      s.errors.map fun e => "- " ++ e.path ++ ": " ++ e.reason)

/-- The message about a fault that ends the command. -/
def errorMessage (text : String) : String := "Error: " ++ text

/-- Prints the snapshot or writes it into files. -/
def deliver (o : Options) (w : World) (before : List Notice) (r : Report) : Outcome :=
  let close := fun notices => transcript o.verbose w.logTime (before ++ notices)
  let summed := (summary r).map Notice.message
  if o.printOnly then
    ⟨.success, messageLine r.treeText ++ messageLine r.filesText, close summed, w.fileSystem⟩
  else
    let written := Snapshot.write w.fileSystem o.output r o.format
    let log := written.log.map Notice.record
    match written.result with
    | .error (.access (.call fault)) =>
      ⟨.failure, "", close (log ++ [.message (errorMessage fault.message)]), written.fileSystem⟩
    | .error (.write ⟨.call errno, _⟩) =>
      ⟨.failure, "", close (log ++ [.message (errorMessage errno.message)]), written.fileSystem⟩
    | .error fault => ⟨.crash (.output fault), "", close log, written.fileSystem⟩
    | .ok paths =>
      let named := paths.map fun path => Notice.message ("✓ Written: " ++ path.text)
      ⟨.success, "", close (log ++ named ++ summed), written.fileSystem⟩

/-- Runs the command with options that are checked. -/
def runWith (o : Options) (w : World) : Outcome :=
  match plan o w.fileSystem with
  | .error crash => ⟨.crash crash, "", "", w.fileSystem⟩
  | .ok p =>
    let (taken, log) := takeSnapshot o w p
    let notices := .message ("Analyzing directory: " ++ p.root) :: log.map Notice.record
    match taken with
    | .ok report => deliver o w notices report
    | .error fault =>
      match reported? fault with
      | some text =>
        let notices := notices ++ [.message (errorMessage text)]
        ⟨.failure, "", transcript o.verbose w.logTime notices, w.fileSystem⟩
      | none =>
        ⟨.crash (.session fault), "", transcript o.verbose w.logTime notices, w.fileSystem⟩

/-- Runs the command. -/
def run (arguments : List String) (w : World) : Outcome :=
  match Options.read w.fileSystem w.environment arguments with
  | .error (.usage fault) => ⟨.misuse fault, "", "", w.fileSystem⟩
  | .error .nulInPath => ⟨.crash .nulInPath, "", "", w.fileSystem⟩
  | .error .help => ⟨.help, "", "", w.fileSystem⟩
  | .ok o => runWith o w

end SourceSnapshot.CommandLine
