import SourceSnapshot.FileText
import SourceSnapshot.Ignore.Exclusion
import SourceSnapshot.FileSystem.Fault
import SourceSnapshot.Text.Encoding.Name

/-!
# Visits

What became of each entry that a scan came by, and what is read off the visits of a run: the texts
of the files that were taken, the statistics, and the log.
-/

namespace SourceSnapshot.Scan

open FileSystem (CallFault)
open Ignore (Exclusion)
open Text.Encoding (ReadFault)

/-- Why a file that was wanted could not be read. -/
inductive ReadFailure where
  | call (fault : CallFault)
  | malformed (fault : Text.DecodeFault)
  deriving DecidableEq

/-- What is reported of a file that could not be read. -/
def ReadFailure.message : ReadFailure → String
  | .call fault => fault.message
  | .malformed fault => fault.message

/-- What became of an entry. -/
inductive Outcome where
  /-- The entry was left out. -/
  | excluded (reason : Exclusion)
  /-- The entry is neither a directory nor a regular file. -/
  | irregular
  /-- It cannot be told whether the entry is a regular file, which stops the scan. -/
  | unknown (fault : CallFault)
  /-- The directory was listed. -/
  | entered
  /-- The directory could not be listed. -/
  | unlistable (fault : CallFault)
  /-- The size of the file could not be told. -/
  | unsized (fault : CallFault)
  /-- The file is over the size limit. -/
  | tooLarge (size : Nat)
  /-- The file is binary. -/
  | binary (size : Nat)
  /-- The file could not be read. -/
  | unreadable (size : Nat) (failure : ReadFailure)
  /-- The file stopped the scan. -/
  | fatal (size : Nat) (fault : ReadFault)
  /-- The text of the file was taken. -/
  | taken (size : Nat) (content : String)
  deriving DecidableEq

/-- The visit of an entry: its path as seen from the root of the scan, its path as it is passed to
file system calls, and what became of it. -/
structure Visit where
  path : String
  callPath : String
  outcome : Outcome
  deriving DecidableEq

/-- An error that is kept in the statistics. -/
structure RecordedError where
  path : String
  reason : String
  deriving DecidableEq

/-- The statistics of a scan. -/
structure Stats where
  processed : Nat
  skipped : Nat
  totalSize : Nat
  errors : List RecordedError
  deriving DecidableEq

namespace Outcome

/-- The size that was told. -/
def size : Outcome → Nat
  | .tooLarge size => size
  | .binary size => size
  | .unreadable size _ => size
  | .fatal size _ => size
  | .taken size _ => size
  | _ => 0

/-- The text that was taken. -/
def content? : Outcome → Option String
  | .taken _ content => some content
  | _ => none

/-- The error that is recorded. -/
def error? : Outcome → Option String
  | .unlistable fault => some fault.message
  | .unsized fault => some fault.message
  | .unreadable _ failure => some failure.message
  | _ => none

/-- Whether the entry counts as skipped. -/
def isSkipped : Outcome → Bool
  | .taken _ _ => false
  | .entered => false
  | .unknown _ => false
  | .fatal _ _ => false
  | _ => true

/-- Whether the file came as far as the question of whether it is binary. -/
def reachedContent : Outcome → Bool
  | .binary _ => true
  | .unreadable _ _ => true
  | .fatal _ _ => true
  | .taken _ _ => true
  | _ => false

end Outcome

namespace Visit

/-- The file that was taken. -/
def file? (v : Visit) : Option FileText := v.outcome.content?.map (⟨v.path, ·⟩)

/-- The error that is recorded of the visit. -/
def error? (v : Visit) : Option RecordedError := v.outcome.error?.map (⟨v.path, ·⟩)

/-- What is reported of the visit. -/
def log (v : Visit) : List Log.Record :=
  let skipping := fun path reason =>
    [⟨.debug, .scan, "Skipping " ++ path ++ " (" ++ reason ++ ")"⟩]
  let warning := fun message => [⟨.warning, .scan, message⟩]
  match v.outcome with
  | .excluded reason => skipping v.path reason.text
  | .irregular => skipping v.path "not a regular file"
  | .unlistable fault => warning ("Cannot read directory " ++ v.path ++ ": " ++ fault.message)
  | .unsized fault => warning ("Error reading file " ++ v.path ++ ": " ++ fault.message)
  | .tooLarge size => skipping v.callPath (toString size ++ " bytes, over the size limit")
  | .binary _ => skipping v.callPath "binary"
  | .unreadable _ failure =>
    warning ("Error reading file " ++ v.path ++ ": " ++ failure.message)
  | .entered => []
  | .unknown _ => []
  | .fatal _ _ => []
  | .taken _ _ => []

end Visit

/-- The statistics of a list of visits. -/
def Stats.ofVisits (visits : List Visit) : Stats where
  processed := visits.countP fun v => v.outcome.content?.isSome
  skipped := visits.countP fun v => v.outcome.isSkipped
  totalSize := visits.foldr (fun v total => v.outcome.size + total) 0
  errors := visits.filterMap Visit.error?

/-- The statistics of a scan whose root cannot be listed. -/
def Stats.ofUnlistableRoot (fault : CallFault) : Stats := ⟨0, 0, 0, [⟨fault.path, fault.message⟩]⟩

end SourceSnapshot.Scan
