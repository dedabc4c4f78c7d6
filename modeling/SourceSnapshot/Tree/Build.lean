import SourceSnapshot.FileSystem.Resolution
import SourceSnapshot.Settings
import SourceSnapshot.Traversal
import SourceSnapshot.Tree.Node

/-!
# Building a directory tree

The tree of a directory holds what a scan of it comes by, under the same exclusions and in the same
order, down to the greatest depth. A directory that cannot be listed is a branch without children
that knows why. Where files are shown, an entry of which nothing can be told stops the building.
-/

namespace SourceSnapshot.Tree

open FileSystem (CallFault Entry childPath joinRelative)
open Ignore (Engine)
open Traversal (Run Walk)

/-- What is known about a directory that could not be listed. -/
def listingFacts (fault : CallFault) : List (String × Json) :=
  ("error", .string fault.message) ::
    if fault.errno.isPermission then [("permission_denied", .bool true)] else []

/-- A record about directory trees. -/
def record (level : Log.Level) (message : String) : Log.Record := ⟨level, .tree, message⟩

/-- Grows a node that nothing is below, if its kind can be told. -/
def growLeaf (s : TreeSettings) (above name : String) (told : Except CallFault Kind)
    (engine? : Option Engine) : Walk Node :=
  let path := joinRelative above name
  Traversal.decideEntry s.includeDotFiles engine? path name false
    (fun engine? _ => .idle engine? [])
    (fun engine? =>
      if s.includeFiles then
        match told with
        | .ok kind => .single engine? (.leaf ⟨name, path, kind, []⟩) []
        | .error fault => .stopped engine? (.unknown fault)
      else .idle engine? [])

/-- A branch from the walk through what is below it. -/
def branchOf (label : Label) (below : Walk Node) : Walk Node :=
  { below with found := [.branch label below.found] }

mutual

/-- Grows the node of an entry at a depth; those of the root's entries are at depth one. -/
def grow (s : TreeSettings) (above callAbove : String) (depth : Nat) (engine? : Option Engine) :
    Entry → Walk Node
  | .file name _ _ => growLeaf s above name (.ok .file) engine?
  | .link name _ _ => growLeaf s above name (.ok .link) engine?
  | .pipe name _ => growLeaf s above name (.ok .file) engine?
  | .unknown name fault =>
    growLeaf s above name (.error ⟨fault.errno, childPath callAbove name⟩) engine?
  | .directory name true _ _ => growLeaf s above name (.ok .file) engine?
  | .directory name false listFault entries =>
    let path := joinRelative above name
    let callPath := childPath callAbove name
    Traversal.decideEntry s.includeDotFiles engine? path name true
      (fun engine? _ => .idle engine? [])
      (fun engine? =>
        if s.maxDepth.any (· < depth) then
          .idle engine? [record .debug ("Skipping " ++ path ++ " (deeper than max_depth)")]
        else if !s.includeDirectories then .idle engine? []
        else
          match listFault with
          | some errno =>
            let fault : CallFault := ⟨errno, callPath⟩
            .single engine? (.branch ⟨name, path, .directory, listingFacts fault⟩ [])
              [record .warning ("Cannot read directory " ++ path ++ ": " ++ fault.message)]
          | none =>
            branchOf ⟨name, path, .directory, []⟩
              (growAll s path callPath (depth + 1) engine? entries))

/-- Grows the nodes of the entries of a directory in order. -/
def growAll (s : TreeSettings) (above callAbove : String) (depth : Nat) (engine? : Option Engine) :
    List Entry → Walk Node
  | [] => .idle engine? []
  | entry :: rest =>
    (grow s above callAbove depth engine? entry).andThen fun engine? =>
      growAll s above callAbove depth engine? rest

end

/-- Builds the tree of the directory that a path leads to. -/
def build (s : TreeSettings) (fs : FileSystem) (engine? : Option Engine) (directory : String) :
    Run Node :=
  Traversal.run fs engine? directory (growAll s "" directory 1 engine?) fun children =>
    (.branch ⟨fs.rootName directory, ".", .directory, []⟩ children, [])

end SourceSnapshot.Tree
