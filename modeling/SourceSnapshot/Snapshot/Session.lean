import SourceSnapshot.Ignore.File
import SourceSnapshot.Scan.Run
import SourceSnapshot.Snapshot.Report
import SourceSnapshot.Snapshot.Time
import SourceSnapshot.Tree.Build

/-!
# Sessions

A session has settings and, once it is ready, an ignore engine. It takes snapshots, scans and trees
of directories. Until it is ready it refuses to; getting ready again replaces the rules, unless it
fails, which leaves them as they were.
-/

namespace SourceSnapshot.Snapshot

open Ignore (Engine)
open Traversal (Run)

/-- Why a session has no answer. -/
inductive SessionFault where
  | notReady
  | ignoreFile (fault : Ignore.FileFault)
  | traversal (failure : Traversal.Failure)
  | duration (fault : DurationFault)
  deriving DecidableEq

/-- What is reported of a missing answer. -/
def SessionFault.message : SessionFault → String
  | .notReady => "CodeDigest not initialized. Call initialize() first."
  | .ignoreFile fault => fault.message
  | .traversal failure => failure.message
  | .duration fault => fault.message

/-- Settings, and an engine once the session is ready. -/
structure Session where
  settings : SnapshotSettings
  engine? : Option Engine

/-- The circumstances of a snapshot: two readings of the clock in seconds, and the instant. -/
structure Moment where
  started : Quantity
  stopped : Quantity
  instant : Instant

/-- An answer, the session that it leaves behind, and the log. -/
structure Answer (α : Type) where
  result : Except SessionFault α
  session : Session
  log : List Log.Record

namespace Session

/-- A session that is not ready. -/
def ofSettings (settings : SnapshotSettings) : Session := ⟨settings, none⟩

/-- The lines that the rules come from. -/
def patterns (s : Session) : List String := (s.engine?.map Engine.patterns).getD []

/-- Makes a session ready: the patterns of the settings are taken, and behind them the rules of the
ignore file as seen from a directory. -/
def prepare (s : Session) (fs : FileSystem) (directory? : Option String) : Answer (List String) :=
  let (loaded, log) := Engine.ofFile fs s.settings.ignoreCase (s.settings.ignorePatterns.map some)
    directory? s.settings.ignoreFile
  match loaded with
  | .error fault => ⟨.error (.ignoreFile fault), s, log⟩
  | .ok engine =>
    ⟨.ok engine.patterns, { s with engine? := some engine },
      log ++ [⟨.debug, .snapshot, "Initialized with " ++ toString engine.rules.length ++
        " ignore rules"⟩]⟩

/-- Adds rules to a session that is ready. -/
def add (s : Session) (given : Ignore.Lines) : Session :=
  { s with engine? := s.engine?.map (·.add given) }

/-- The answer of a traversal; only a session that is ready has one. -/
def traverse {α : Type} (s : Session) (run : Option Engine → Run α) : Answer α :=
  match s.engine? with
  | none => ⟨.error .notReady, s, []⟩
  | some engine =>
    let course := run (some engine)
    ⟨course.result.mapError .traversal, { s with engine? := course.engine? }, course.log⟩

/-- An answer goes on with the next one if it is good. -/
def andThen {α β : Type} (a : Answer α) (next : Session → α → Answer β) : Answer β :=
  match a.result with
  | .error fault => ⟨.error fault, a.session, a.log⟩
  | .ok value =>
    let b := next a.session value
    ⟨b.result, b.session, a.log ++ b.log⟩

/-- Scans a directory. -/
def scan (s : Session) (fs : FileSystem) (directory : String) : Answer Scan.Result :=
  s.traverse fun engine? => Scan.run s.settings.scan fs engine? directory

/-- Builds the tree of a directory. -/
def tree (s : Session) (fs : FileSystem) (directory : String) : Answer Tree.Node :=
  s.traverse fun engine? => Tree.build s.settings.tree fs engine? directory

/-- Takes a snapshot of a directory: scans it and then builds its tree. -/
def take (s : Session) (fs : FileSystem) (directory : String) (repository : Repository.Info)
    (moment : Moment) : Answer Report :=
  andThen (s.scan fs directory) fun s scanned =>
    andThen (s.tree fs directory) fun s tree =>
      match elapsedText moment.started moment.stopped with
      | .error fault => ⟨.error (.duration fault), s, []⟩
      | .ok executionTime =>
        ⟨.ok {
          metadata := {
            timestamp := moment.instant.text
            directory := directory
            executionTime := executionTime
            statistics := .ofScan scanned.stats s.patterns
            repository := repository }
          filesText := FileText.layout scanned.files
          files := scanned.files
          treeText := tree.layout
          tree := tree }, s, []⟩

end Session

end SourceSnapshot.Snapshot
