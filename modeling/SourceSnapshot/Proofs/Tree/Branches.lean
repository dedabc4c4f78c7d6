import SourceSnapshot.Proofs.Tree.Addresses
import SourceSnapshot.Tree.Layout

/-!
# Branch lines

What stands before the name of a node in the text of a tree follows from where the node stands. It
is a group of four characters for each node on the way: blanks below the root, a bar below a node
that another child of its parent follows, blanks below any other, and at last the branch of the node
itself.
-/

namespace SourceSnapshot.Tree.Node

/-- Whether a child of the same node follows the node at an address. -/
def isFollowed (root : Node) (address : List Nat) : Bool :=
  match address.getLast? with
  | some i => (root.at? (address.dropLast ++ [i + 1])).isSome
  | none => false

/-- The addresses of the nodes on the way from below the root to above the node at an address. -/
def between (address : List Nat) : List (List Nat) :=
  (List.range' 1 (address.length - 1)).map address.take

/-- The groups for the nodes on that way, from above. -/
def groups (root : Node) (address : List Nat) : List String :=
  (between address).map fun above => if root.isFollowed above then "│   " else "    "

/-- What stands in the line of a node below the root behind the first blanks and before its
name. -/
def branches (root : Node) (address : List Nat) : String :=
  String.join (root.groups address) ++ if root.isFollowed address then "├── " else "└── "

/-- What stands in the line of the node at an address before its name. -/
def lineStart (root : Node) (address : List Nat) : String :=
  if address = [] then "└── " else "    " ++ root.branches address

section

variable {root child : Node} {i : Nat}

theorem isFollowed_singleton (root : Node) (i : Nat) :
    root.isFollowed [i] = (root.children[i + 1]?).isSome := by
  simp [isFollowed, at?]

/-- Whether a node is followed can be told from the child of the root that it is below. -/
theorem isFollowed_cons (hchild : root.children[i]? = some child) {address : List Nat}
    (hne : address ≠ []) : root.isFollowed (i :: address) = child.isFollowed address := by
  obtain ⟨front, last, rfl⟩ : ∃ front last, address = front ++ [last] :=
    ⟨_, _, (List.dropLast_concat_getLast hne).symm⟩
  have hlast : (i :: (front ++ [last])).getLast? = some last := by
    rw [← List.cons_append, List.getLast?_concat]
  have hfront : (i :: (front ++ [last])).dropLast = i :: front := by
    rw [← List.cons_append, List.dropLast_concat]
  simp only [isFollowed, hlast, hfront, List.getLast?_concat, List.dropLast_concat,
    List.cons_append, at?, hchild, Option.bind_some]

/-- Between the root and a node below one of its children stands that child, and then what is
between the child and the node. -/
theorem between_cons (i : Nat) {address : List Nat} (hne : address ≠ []) :
    between (i :: address) = [i] :: (between address).map (i :: ·) := by
  obtain ⟨j, rest, rfl⟩ := List.exists_cons_of_ne_nil hne
  have hdepths : List.range' 1 (rest.length + 1) =
      1 :: (List.range' 1 rest.length).map (1 + ·) := by
    rw [List.range'_succ, List.map_add_range']
  simp only [between, List.length_cons, Nat.add_sub_cancel, hdepths, List.map_cons, List.map_map,
    List.take_succ_cons, List.take_zero]
  refine congrArg (List.cons [i]) (List.map_congr_left fun depth hdepth => ?_)
  simp only [Function.comp_apply, Nat.add_comm 1 depth, List.take_succ_cons]

theorem branches_singleton (root : Node) (i : Nat) :
    root.branches [i] = connector (!root.isFollowed [i]) := by
  have hgroups : root.groups [i] = [] := rfl
  rw [branches, hgroups, String.join_nil, String.empty_append]
  cases root.isFollowed [i] <;> rfl

/-- A node further down has the group of the child of the root that it is below, and then the groups
that it has in the tree of that child. -/
theorem groups_cons (hchild : root.children[i]? = some child) {address : List Nat}
    (hne : address ≠ []) :
    root.groups (i :: address) =
      continuation (!root.isFollowed [i]) :: child.groups address := by
  have hfirst : (if root.isFollowed [i] then "│   " else "    ") =
      continuation (!root.isFollowed [i]) := by
    cases root.isFollowed [i] <;> rfl
  rw [groups, between_cons i hne, List.map_cons, hfirst, List.map_map, groups]
  refine congrArg (List.cons _) (List.map_congr_left fun above habove => ?_)
  have hsome : above ≠ [] := by
    obtain ⟨depth, hdepth, rfl⟩ := List.mem_map.mp habove
    have hpositive := (List.mem_range'_1.mp hdepth).1
    simp only [ne_eq, List.take_eq_nil_iff, hne, or_false]
    omega
  rw [Function.comp_apply, isFollowed_cons hchild hsome]

/-- What stands before the name of a node further down is the same in the tree of the child of the
root, but for the group of that child. -/
theorem branches_cons (hchild : root.children[i]? = some child) {address : List Nat}
    (hne : address ≠ []) :
    root.branches (i :: address) =
      continuation (!root.isFollowed [i]) ++ child.branches address := by
  rw [branches, branches, groups_cons hchild hne, String.join_cons, isFollowed_cons hchild hne,
    String.append_assoc]

end

mutual

/-- Below a root, each node of the tree of a child has a line with its branches and its name. -/
theorem lines_eq_map (root child : Node) {i : Nat} (hchild : root.children[i]? = some child)
    (start : String) :
    child.lines start (!root.isFollowed [i]) = child.located.map fun place =>
      start ++ root.branches (i :: place.1) ++ place.2.label.shown := by
  match child with
  | .leaf label =>
    rw [lines, located, List.map_singleton, branches_singleton, Node.label]
  | .branch label below =>
    have hbelow := linesAll_eq_map (.branch label below) below (i := 0) rfl
      (start ++ continuation (!root.isFollowed [i]))
    rw [lines, located, List.map_cons, branches_singleton, Node.label, hbelow]
    refine congrArg (List.cons _) (List.map_congr_left fun (address, node) hmem => ?_)
    obtain ⟨j, rest, other, rfl, -, -⟩ := (mem_locatedFrom_iff 0 below).mp hmem
    simp only [branches_cons hchild (List.cons_ne_nil _ _), String.append_assoc]
termination_by structural child

/-- Below a root, each node of the trees of the children from a position on has a line with its
branches and its name. -/
theorem linesAll_eq_map (root : Node) (siblings : List Node) {i : Nat}
    (h : root.children.drop i = siblings) (start : String) :
    linesAll start siblings = (locatedFrom i siblings).map fun place =>
      start ++ root.branches place.1 ++ place.2.label.shown := by
  match siblings with
  | [] => rw [linesAll, locatedFrom, List.map_nil]
  | node :: rest =>
    have hnode : root.children[i]? = some node := by
      rw [← List.head?_drop, h, List.head?_cons]
    have hrest : root.children.drop (i + 1) = rest := by
      rw [← List.tail_drop, h, List.tail_cons]
    have hlast : rest.isEmpty = !root.isFollowed [i] := by
      rw [isFollowed_singleton, ← List.head?_drop, hrest]
      cases rest <;> rfl
    rw [linesAll, locatedFrom, List.map_append, List.map_map, hlast,
      lines_eq_map root node hnode start, linesAll_eq_map root rest hrest start]
    rfl
termination_by structural siblings

end

/-- The lines of a tree are those of its nodes in pre-order. -/
theorem lines_eq_map_located (root : Node) :
    root.lines "" true =
      root.located.map fun place => root.lineStart place.1 ++ place.2.label.shown := by
  have hbelow := linesAll_eq_map root root.children (i := 0) List.drop_zero "    "
  have hlines : root.lines "" true =
      ("└── " ++ root.label.shown) :: linesAll "    " root.children := by
    cases root <;> rfl
  rw [hlines, located_eq_cons, List.map_cons, hbelow]
  refine congrArg (List.cons _) (List.map_congr_left fun (address, node) hmem => ?_)
  obtain ⟨j, rest, child, rfl, -, -⟩ := (mem_locatedFrom_iff 0 root.children).mp hmem
  rw [lineStart, if_neg (List.cons_ne_nil _ _)]

/-- The text of a tree has a line for each node, in pre-order, which is the lexicographic order of
the addresses. Before the name of the root stands its branch. Before the name of any other node
stand the blanks below the root, the groups of the nodes between, and the branch of the node. -/
theorem layout_eq_join_located (root : Node) :
    root.layout = String.join (root.located.map fun place =>
        root.lineStart place.1 ++ place.2.label.shown ++ "\n") ∧
      (∀ address node, (address, node) ∈ root.located ↔ root.at? address = some node) ∧
      root.located.Pairwise fun here there => here.1 < there.1 := by
  refine ⟨?_, fun address node => mem_located_iff root, pairwise_located root⟩
  rw [layout, lines_eq_map_located, List.map_map]
  rfl

/-- A directory that has a later sibling is drawn with a bar that runs on beside what it holds. -/
example :
    let label : String → Kind → Label := fun name kind => ⟨name, name, kind, []⟩
    (branch (label "root" .directory) [branch (label "a" .directory) [leaf (label "x" .file)],
      leaf (label "b" .link)]).layout =
        "└── root/\n    ├── a/\n    │   └── x\n    └── b -> symlink\n" := by
  decide +kernel

end SourceSnapshot.Tree.Node
