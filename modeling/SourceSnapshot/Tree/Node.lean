import SourceSnapshot.Validation.Field

/-!
# Nodes of a directory tree

A node has a name, a path as seen from the root of the tree, a kind, and what else is known about
it. A branch has children, in order; a leaf has none and is told apart from an empty branch. A tree
that comes in or is handed out as data has a limited depth.
-/

namespace SourceSnapshot

open Validation (Checked Reader)

namespace Tree

/-- What a node stands for. -/
inductive Kind where
  | file
  | directory
  | link
  deriving DecidableEq

/-- The word for a kind. -/
def Kind.text : Kind → String
  | .file => "file"
  | .directory => "directory"
  | .link => "symlink"

/-- What a node says about itself. -/
structure Label where
  name : String
  path : String
  kind : Kind
  facts : List (String × Json)

/-- A node of a directory tree. -/
inductive Node where
  | leaf (label : Label)
  | branch (label : Label) (children : List Node)

namespace Node

/-- What a node says about itself. -/
def label : Node → Label
  | .leaf label => label
  | .branch label _ => label

/-- The children of a node; a leaf has none. -/
def children : Node → List Node
  | .leaf _ => []
  | .branch _ children => children

/-- A node from its label and its children, if it is to have any. -/
def ofLabel (label : Label) : Option (List Node) → Node
  | some children => .branch label children
  | none => .leaf label

mutual

/-- A node as data. -/
def toJson : Node → Json
  | .leaf label =>
    .object [("name", .string label.name), ("path", .string label.path),
      ("node_type", .string label.kind.text), ("children", .null),
      ("metadata", .object label.facts)]
  | .branch label children =>
    .object [("name", .string label.name), ("path", .string label.path),
      ("node_type", .string label.kind.text), ("children", .array (toJsonAll children)),
      ("metadata", .object label.facts)]

/-- Several nodes as data. -/
def toJsonAll : List Node → List Json
  | [] => []
  | node :: rest => node.toJson :: toJsonAll rest

end

mutual

/-- How deep a node and what is known about the nodes below it stand within each other. -/
def nesting : Node → Nat
  | .leaf label => Json.nestingOfMembers label.facts + 1
  | .branch label children =>
    max (Json.nestingOfMembers label.facts) (nestingOfAll children) + 1

/-- The deepest nesting among several nodes. -/
def nestingOfAll : List Node → Nat
  | [] => 0
  | node :: rest => max node.nesting (nestingOfAll rest)

end

/-- A node as data that is handed out, unless it is nested too deep. -/
def toData? (node : Node) : Option Json :=
  if node.nesting ≤ Json.maxNesting then some node.toJson else none

/-- Reads a kind. -/
def readKind : Reader Kind
  | .string "file" => .valid .file
  | .string "directory" => .valid .directory
  | .string "symlink" => .valid .link
  | _ => .broken (.choice "'file', 'directory' or 'symlink'")

/-- Reads what is known about a node besides. -/
def readFacts : Reader (List (String × Json))
  | .object members => .valid members
  | _ => .broken .dictionary

/-- Reads the parts of a label before and behind the children, which are checked between them. -/
def assemble (members : List (String × Json)) (children : Checked (Option (List Node))) :
    Checked Node :=
  (fun name path kind children facts => ofLabel ⟨name, path, kind, facts⟩ children)
    <$> Validation.required members "name" Validation.text
    <*> Validation.required members "path" Validation.text
    <*> Validation.required members "node_type" readKind
    <*> children
    <*> Validation.defaulting members "metadata" [] readFacts

/-- Refuses a node that stands within too many others. -/
def withinReach (above : Nat) (checked : Checked Node) : Checked Node :=
  if above < Json.maxNesting then checked else .broken .nesting

mutual

/-- Reads a node that stands within so many others. -/
def readWithin (above : Nat) : Json → Checked Node
  | .object members => withinReach above (assemble members (readMembers (above + 1) members))
  | _ => withinReach above (.broken (.record "TreeNode"))

/-- Reads the children among the members of an object. -/
def readMembers (above : Nat) : List (String × Json) → Checked (Option (List Node))
  | [] => .valid none
  | (key, value) :: rest =>
    if key = "children" then (readChildren above value).below (.key key)
    else readMembers above rest

/-- Reads the value of the children. -/
def readChildren (above : Nat) : Json → Checked (Option (List Node))
  | .null => .valid none
  | .array items => (readFrom above 0 items).map some
  | _ => .broken .list

/-- Reads several nodes, counted from a position. -/
def readFrom (above position : Nat) : List Json → Checked (List Node)
  | [] => .valid []
  | item :: rest =>
    .both List.cons ((readWithin above item).below (.index position))
      (readFrom above (position + 1) rest)

end

/-- Reads a node. -/
def read : Reader Node := readWithin 0

end Node

end Tree

end SourceSnapshot
