import SourceSnapshot.Scan.Content
import SourceSnapshot.Scan.Visit
import SourceSnapshot.Traversal

/-!
# Scans

A scan walks depth first through a directory, in the order of the listings, and takes the text of
every regular file that is kept. Links are not followed. An entry that fails is recorded and the
scan goes on, except where it cannot be told what the entry is, or where the encoding of the run
refuses a file in another way than by a broken rule.
-/

namespace SourceSnapshot.Scan

open FileSystem (CallFault Entry FileData childPath joinRelative)
open Ignore (Engine)
open Traversal (Run Walk)

/-- The result of a scan. -/
structure Result where
  files : List FileText
  stats : Stats
  deriving DecidableEq

/-- A file whose opening fails if it has a fault. -/
def opened (path : String) (data : FileData) : Except CallFault FileData :=
  match data.openFault with
  | some errno => .error ⟨errno, path⟩
  | none => .ok data

/-- What becomes of a file once its size is known. -/
def Outcome.ofContent (size : Nat) : Except (ContentFault CallFault) String → Outcome
  | .ok content => .taken size content
  | .error .binary => .binary size
  | .error (.access fault) => .unreadable size (.call fault)
  | .error (.read (.malformed fault)) => .unreadable size (.malformed fault)
  | .error (.read fault) => .fatal size fault

/-- What becomes of a file that is kept. -/
def Outcome.ofFile (s : ScanSettings) (path : String) (data : FileData) : Outcome :=
  match data.sizeFault with
  | some errno => .unsized ⟨errno, path⟩
  | none =>
    if s.maxFileSize < data.size then .tooLarge data.size
    else .ofContent data.size (contentOf s path (opened path data))

/-- What stops the scan. -/
def Outcome.stop? : Outcome → Option Traversal.Failure
  | .unknown fault => some (.unknown fault)
  | .fatal _ fault => some (.unreadable fault)
  | _ => none

/-- The walk of a single visit. -/
def Visit.walk (v : Visit) (engine? : Option Engine) : Walk Visit :=
  ⟨engine?, [v], v.log, v.outcome.stop?⟩

/-- Visits an entry that nothing is below: `outcome` is what becomes of it if it is kept. -/
def visitLeaf (s : ScanSettings) (above callAbove name : String) (outcome : String → Outcome)
    (engine? : Option Engine) : Walk Visit :=
  let path := joinRelative above name
  let callPath := childPath callAbove name
  Traversal.decideEntry s.includeDotFiles engine? path name false
    (fun engine? reason => Visit.walk ⟨path, callPath, .excluded reason⟩ engine?)
    (fun engine? => Visit.walk ⟨path, callPath, outcome callPath⟩ engine?)

mutual

/-- Visits an entry of a directory with the given relative path and call path. -/
def visit (s : ScanSettings) (above callAbove : String) (engine? : Option Engine) :
    Entry → Walk Visit
  | .file name _ data => visitLeaf s above callAbove name (.ofFile s · data) engine?
  | .link name _ _ => visitLeaf s above callAbove name (fun _ => .irregular) engine?
  | .pipe name _ => visitLeaf s above callAbove name (fun _ => .irregular) engine?
  | .unknown name fault =>
    visitLeaf s above callAbove name (fun callPath => .unknown ⟨fault.errno, callPath⟩) engine?
  | .directory name true _ _ => visitLeaf s above callAbove name (fun _ => .irregular) engine?
  | .directory name false listFault entries =>
    let path := joinRelative above name
    let callPath := childPath callAbove name
    Traversal.decideEntry s.includeDotFiles engine? path name true
      (fun engine? reason => Visit.walk ⟨path, callPath, .excluded reason⟩ engine?)
      (fun engine? =>
        match listFault with
        | some errno => Visit.walk ⟨path, callPath, .unlistable ⟨errno, callPath⟩⟩ engine?
        | none =>
          (Visit.walk ⟨path, callPath, .entered⟩ engine?).andThen fun engine? =>
            visitAll s path callPath engine? entries)

/-- Visits the entries of a directory in order. -/
def visitAll (s : ScanSettings) (above callAbove : String) (engine? : Option Engine) :
    List Entry → Walk Visit
  | [] => .idle engine? []
  | entry :: rest =>
    (visit s above callAbove engine? entry).andThen fun engine? =>
      visitAll s above callAbove engine? rest

end

/-- The result that is read off the visits. -/
def Result.ofVisits (visits : List Visit) : Result :=
  ⟨visits.filterMap Visit.file?, .ofVisits visits⟩

/-- What is reported at the end of a scan. -/
def summary (directory : String) (stats : Stats) : Log.Record :=
  ⟨.info, .scan, "Scanned " ++ directory ++ ": " ++ toString stats.processed ++ " processed, " ++
    toString stats.skipped ++ " skipped, " ++ toString stats.errors.length ++ " errors"⟩

/-- Scans the directory that a path leads to. -/
def run (s : ScanSettings) (fs : FileSystem) (engine? : Option Engine) (directory : String) :
    Run Result :=
  Traversal.run fs engine? directory (visitAll s "" directory engine?) fun visits =>
    let result := Result.ofVisits visits
    (result, [summary directory result.stats])

/-- The paths about which a given test for binary files is asked in a scan. -/
def testedPaths (s : ScanSettings) (fs : FileSystem) (engine? : Option Engine)
    (directory : String) : List String :=
  match s.includeBinaryFiles, s.binaryTest, fs.list directory with
  | false, some _, .ok entries =>
    ((visitAll s "" directory engine? entries).found.filter fun v => v.outcome.reachedContent).map
      Visit.callPath
  | _, _, _ => []

end SourceSnapshot.Scan
