import SourceSnapshot.Tree.Node

/-!
# The layout of a directory tree

A tree is shown with a line for each node: the root first, then the nodes below it, each behind the
branch lines of the nodes above it. The last of several siblings closes its branch.
-/

namespace SourceSnapshot.Tree

/-- Whether a node is marked as closed to us. -/
def Label.isDenied (l : Label) : Bool :=
  match Json.member? "permission_denied" l.facts with
  | some v => v.isTruthy
  | none => false

/-- The name of a node as it is shown. -/
def Label.shown (l : Label) : String :=
  let name :=
    match l.kind with
    | .directory => l.name ++ "/"
    | .link => l.name ++ " -> symlink"
    | .file => l.name
  if l.isDenied then name ++ " [Permission Denied]" else name

/-- The branch before a node. -/
def connector (isLast : Bool) : String := if isLast then "└── " else "├── "

/-- What stands below the branch of a node, before the nodes below it. -/
def continuation (isLast : Bool) : String := if isLast then "    " else "│   "

mutual

/-- The lines of a node behind the given start. -/
def Node.lines (start : String) (isLast : Bool) : Node → List String
  | .leaf label => [start ++ connector isLast ++ label.shown]
  | .branch label children =>
    (start ++ connector isLast ++ label.shown) ::
      Node.linesAll (start ++ continuation isLast) children

/-- The lines of siblings behind the given start. -/
def Node.linesAll (start : String) : List Node → List String
  | [] => []
  | node :: rest => Node.lines start rest.isEmpty node ++ Node.linesAll start rest

end

/-- The text of a tree, each line with a line break at its end. -/
def Node.layout (root : Node) : String := String.join ((root.lines "" true).map (· ++ "\n"))

end SourceSnapshot.Tree
