import SourceSnapshot.Proofs.Text.Pieces
import SourceSnapshot.Proofs.Tree.Branches

/-!
# Reading trees back

The text of a tree shows its picture: the names as they stand in the lines, and which of them stand
below which. The picture can be read back from the text as long as no name has a line break in it,
whatever else the names are made of. In a line the first group that is a branch ends what stands
before the name, so the line tells the depth of its node; and what stands below a line are the
deeper lines right behind it.
-/

namespace SourceSnapshot.Tree

/-- A tree as it is shown: the name of a node in its line, and the trees below the node. -/
inductive Picture where
  | node (name : String) (below : List Picture)

namespace Node

mutual

/-- What is shown of a node. No children are shown like an empty list of children. -/
def picture : Node → Picture
  | .leaf label => .node label.shown []
  | .branch label children => .node label.shown (pictures children)

/-- What is shown of several nodes. -/
def pictures : List Node → List Picture
  | [] => []
  | node :: rest => node.picture :: pictures rest

end

theorem pictures_eq_map (nodes : List Node) : pictures nodes = nodes.map picture := by
  induction nodes with
  | nil => rw [pictures, List.map_nil]
  | cons node rest ih => rw [pictures, ih, List.map_cons]

mutual

/-- Nodes with one picture have the same lines. -/
theorem lines_congr (node other : Node) (h : node.picture = other.picture) (start : String)
    (isLast : Bool) : node.lines start isLast = other.lines start isLast := by
  match node, other with
  | .leaf label, .leaf label' =>
    obtain ⟨hshown, -⟩ := Picture.node.inj h
    rw [lines, lines, hshown]
  | .leaf label, .branch label' children' =>
    obtain ⟨hshown, hbelow⟩ := Picture.node.inj h
    rw [eq_comm, pictures_eq_map, List.map_eq_nil_iff] at hbelow
    rw [lines, lines, hshown, hbelow, linesAll]
  | .branch label children, .leaf label' =>
    obtain ⟨hshown, hbelow⟩ := Picture.node.inj h
    rw [pictures_eq_map, List.map_eq_nil_iff] at hbelow
    rw [lines, lines, hshown, hbelow, linesAll]
  | .branch label children, .branch label' children' =>
    obtain ⟨hshown, hbelow⟩ := Picture.node.inj h
    rw [lines, lines, hshown, linesAll_congr children children' hbelow]
termination_by structural node

/-- Several nodes with the same pictures have the same lines. -/
theorem linesAll_congr (nodes others : List Node) (h : pictures nodes = pictures others)
    (start : String) : linesAll start nodes = linesAll start others := by
  match nodes, others with
  | [], [] => rfl
  | [], _ :: _ => cases h
  | _ :: _, [] => cases h
  | node :: rest, other :: rest' =>
    obtain ⟨hfirst, hrest⟩ := List.cons.inj h
    have hempty : rest.isEmpty = rest'.isEmpty := by
      rw [pictures_eq_map, pictures_eq_map] at hrest
      rw [← List.isEmpty_map (f := picture), hrest, List.isEmpty_map]
    rw [linesAll, linesAll, hempty, lines_congr node other hfirst, linesAll_congr rest rest' hrest]
termination_by structural nodes

end

end Node

/-- Reads a line: how many groups stand before the branch, and the name behind the branch. -/
def readLine : List Char → Option (Nat × String)
  | '└' :: '─' :: '─' :: ' ' :: name => some (0, String.ofList name)
  | '├' :: '─' :: '─' :: ' ' :: name => some (0, String.ofList name)
  | '│' :: ' ' :: ' ' :: ' ' :: rest => (readLine rest).map fun line => (line.1 + 1, line.2)
  | ' ' :: ' ' :: ' ' :: ' ' :: rest => (readLine rest).map fun line => (line.1 + 1, line.2)
  | _ => none

/-- What stands for a node above in the lines of the nodes below it. -/
def IsGroup (group : String) : Prop := group = "│   " ∨ group = "    "

/-- What stands for a node itself in its line. -/
def IsBranch (branch : String) : Prop := branch = "├── " ∨ branch = "└── "

theorem IsGroup.newline_notMem {group : String} (h : IsGroup group) : '\n' ∉ group.toList := by
  rcases h with rfl | rfl
  · decide
  · decide

theorem IsBranch.newline_notMem {branch : String} (h : IsBranch branch) :
    '\n' ∉ branch.toList := by
  rcases h with rfl | rfl
  · decide
  · decide

theorem readLine_branch {branch : String} (h : IsBranch branch) (name : String) :
    readLine (branch ++ name).toList = some (0, name) := by
  rcases h with rfl | rfl
  · simp [readLine]
  · simp [readLine]

/-- Each group adds one to the depth of what is read behind it. -/
theorem readLine_groups {groups : List String} (h : ∀ group ∈ groups, IsGroup group)
    {rest name : String} {depth : Nat} (hrest : readLine rest.toList = some (depth, name)) :
    readLine (String.join groups ++ rest).toList = some (depth + groups.length, name) := by
  induction groups with
  | nil => simpa using hrest
  | cons group groups ih =>
    obtain ⟨hgroup, hgroups⟩ := List.forall_mem_cons.mp h
    have hline : readLine (group ++ (String.join groups ++ rest)).toList =
        (readLine (String.join groups ++ rest).toList).map fun line => (line.1 + 1, line.2) := by
      rcases hgroup with rfl | rfl
      · simp [readLine]
      · simp [readLine]
    rw [String.join_cons, String.append_assoc, hline, ih hgroups, Option.map_some,
      List.length_cons, Nat.add_assoc]

namespace Node

/-- Before the name of a node below the root stand groups, as many as the node is deep, and its
branch. -/
theorem exists_lineStart_eq (root : Node) {address : List Nat} (hne : address ≠ []) :
    ∃ groups branch, root.lineStart address = String.join groups ++ branch ∧
      (∀ group ∈ groups, IsGroup group) ∧ groups.length = address.length ∧ IsBranch branch := by
  refine ⟨"    " :: root.groups address, if root.isFollowed address then "├── " else "└── ",
    ?_, ?_, ?_, ?_⟩
  · rw [lineStart, if_neg hne, branches, String.join_cons, String.append_assoc]
  · intro group hgroup
    rcases List.mem_cons.mp hgroup with rfl | hgroup
    · exact Or.inr rfl
    · obtain ⟨above, -, rfl⟩ := List.mem_map.mp hgroup
      split
      · exact Or.inl rfl
      · exact Or.inr rfl
  · have hpositive := List.length_pos_iff.mpr hne
    rw [groups, between, List.length_cons, List.length_map, List.length_map, List.length_range']
    omega
  · split
    · exact Or.inl rfl
    · exact Or.inr rfl

/-- The line of a node tells its depth and its name. -/
theorem readLine_line (root : Node) (address : List Nat) (name : String) :
    readLine (root.lineStart address ++ name).toList = some (address.length, name) := by
  by_cases hne : address = []
  · rw [hne, lineStart, if_pos rfl, readLine_branch (Or.inr rfl)]
    rfl
  · obtain ⟨groups, branch, hstart, hgroups, hlength, hbranch⟩ := root.exists_lineStart_eq hne
    rw [hstart, String.append_assoc, readLine_groups hgroups (readLine_branch hbranch name),
      hlength, Nat.zero_add]

/-- No line break stands before the name of a node. -/
theorem newline_notMem_lineStart (root : Node) (address : List Nat) :
    '\n' ∉ (root.lineStart address).toList := by
  by_cases hne : address = []
  · rw [hne, lineStart, if_pos rfl]
    decide
  · obtain ⟨groups, branch, hstart, hgroups, -, hbranch⟩ := root.exists_lineStart_eq hne
    rw [hstart, String.toList_append, String.toList_join, List.mem_append, List.mem_flatMap]
    rintro (⟨group, hgroup, hmem⟩ | hmem)
    · exact (hgroups group hgroup).newline_notMem hmem
    · exact hbranch.newline_notMem hmem

end Node

theorem Label.newline_notMem_shown {label : Label} (h : '\n' ∉ label.name.toList) :
    '\n' ∉ label.shown.toList := by
  cases hkind : label.kind <;> cases hdenied : label.isDenied <;>
    simp [shown, hkind, hdenied, h]

/-- Puts a line before trees whose depths are known: the deeper ones right behind it stand below
it. -/
def hang (line : Nat × String) (behind : List (Nat × Picture)) : List (Nat × Picture) :=
  (line.1, .node line.2 ((behind.takeWhile fun next => line.1 < next.1).map Prod.snd)) ::
    behind.dropWhile fun next => line.1 < next.1

/-- Below a line stand the trees that are deeper, up to one that is not. -/
theorem hang_append {depth : Nat} {name : String} (below : List Picture)
    {behind : List (Nat × Picture)} (h : ∀ next ∈ behind.head?, next.1 ≤ depth) :
    hang (depth, name) (below.map (Prod.mk (depth + 1)) ++ behind) =
      (depth, .node name below) :: behind := by
  have hdeeper : ∀ next ∈ below.map (Prod.mk (depth + 1)), decide (depth < next.1) = true := by
    intro next hnext
    obtain ⟨picture, -, rfl⟩ := List.mem_map.mp hnext
    simp
  have htake : behind.takeWhile (fun next => depth < next.1) = [] := by
    cases behind with
    | nil => rfl
    | cons next others =>
      have hle : ¬ depth < next.1 := Nat.not_lt.mpr (h next rfl)
      simp [hle]
  have hdrop : behind.dropWhile (fun next => depth < next.1) = behind := by
    have hboth := List.takeWhile_append_dropWhile (p := fun next => decide (depth < next.1))
      (l := behind)
    rwa [htake, List.nil_append] at hboth
  rw [hang, List.takeWhile_append_of_pos hdeeper, List.dropWhile_append_of_pos hdeeper, htake,
    hdrop, List.append_nil, List.map_map]
  have hsnd : Prod.snd ∘ Prod.mk (depth + 1) = (id : Picture → Picture) := rfl
  rw [hsnd, List.map_id]

/-- What the line of a node tells, below a node at a depth. -/
def Node.rank (depth : Nat) (place : List Nat × Node) : Nat × String :=
  (depth + place.1.length, place.2.label.shown)

mutual

/-- The lines of a node put together are its picture. -/
theorem Node.foldr_hang_located (node : Node) (depth : Nat) {behind : List (Nat × Picture)}
    (h : ∀ next ∈ behind.head?, next.1 ≤ depth) :
    (node.located.map (rank depth)).foldr hang behind = (depth, node.picture) :: behind := by
  match node with
  | .leaf label =>
    rw [located, List.map_singleton, List.foldr_cons, List.foldr_nil, picture]
    exact hang_append [] h
  | .branch label children =>
    rw [located, List.map_cons, List.foldr_cons, foldr_hang_locatedFrom 0 children depth h,
      picture]
    exact hang_append (pictures children) h
termination_by structural node

/-- The lines of several nodes put together are their pictures. -/
theorem Node.foldr_hang_locatedFrom (i : Nat) (siblings : List Node) (depth : Nat)
    {behind : List (Nat × Picture)} (h : ∀ next ∈ behind.head?, next.1 ≤ depth) :
    ((locatedFrom i siblings).map (rank depth)).foldr hang behind =
      (pictures siblings).map (Prod.mk (depth + 1)) ++ behind := by
  match siblings with
  | [] => rw [locatedFrom, pictures, List.map_nil, List.map_nil, List.foldr_nil, List.nil_append]
  | node :: rest =>
    -- The later siblings are put together first, and nothing of them stands deeper than the first.
    have hdeeper : (node.located.map fun place => (i :: place.1, place.2)).map (rank depth) =
        node.located.map (rank (depth + 1)) := by
      rw [List.map_map]
      refine List.map_congr_left fun place _ => ?_
      simp only [Function.comp_apply, rank, List.length_cons]
      rw [Nat.add_right_comm, Nat.add_assoc]
    have hhead : ∀ next ∈ ((pictures rest).map (Prod.mk (depth + 1)) ++ behind).head?,
        next.1 ≤ depth + 1 := by
      intro next hnext
      cases rest with
      | nil => exact Nat.le_succ_of_le (h next hnext)
      | cons node' rest =>
        obtain rfl := Option.mem_some.mp hnext
        exact Nat.le_refl _
    rw [locatedFrom, List.map_append, List.foldr_append,
      foldr_hang_locatedFrom (i + 1) rest depth h, hdeeper,
      foldr_hang_located node (depth + 1) hhead, pictures, List.map_cons, List.cons_append]
termination_by structural siblings

end

/-- Reads the picture of a tree from its text. -/
def Picture.ofText? (text : String) : Option Picture :=
  match ((Text.splitOn '\n' text.toList).filterMap readLine).foldr hang [] with
  | [(_, picture)] => some picture
  | _ => none

/-- The picture of a tree is read from its text if no name has a line break in it. -/
theorem Node.ofText?_layout {root : Node}
    (h : ∀ place ∈ root.located, '\n' ∉ place.2.label.name.toList) :
    Picture.ofText? root.layout = some root.picture := by
  have hlines : ∀ line ∈ root.lines "" true, '\n' ∉ line.toList := by
    intro line hline
    rw [lines_eq_map_located] at hline
    obtain ⟨place, hplace, rfl⟩ := List.mem_map.mp hline
    rw [String.toList_append, List.mem_append, not_or]
    exact ⟨root.newline_notMem_lineStart place.1, Label.newline_notMem_shown (h place hplace)⟩
  have hread : (Text.splitOn '\n' root.layout.toList).filterMap readLine =
      root.located.map (rank 0) := by
    rw [layout, Text.splitOn_join_lines hlines, lines_eq_map_located, List.filterMap_append,
      List.filterMap_map, List.filterMap_map]
    have hline : (readLine ∘ String.toList) ∘
        (fun place => root.lineStart place.1 ++ place.2.label.shown) = some ∘ rank 0 := by
      funext place
      simp only [Function.comp_apply, root.readLine_line, rank, Nat.zero_add]
    rw [hline, List.filterMap_eq_map]
    exact List.append_nil _
  rw [Picture.ofText?, hread, root.foldr_hang_located 0 (by simp)]

/-- If no name has a line break in it, the picture of a tree can be read back from its text, and two
trees have one text just if they have one picture. -/
theorem Node.layout_eq_iff_picture_eq {root other : Node}
    (hroot : ∀ place ∈ root.located, '\n' ∉ place.2.label.name.toList)
    (hother : ∀ place ∈ other.located, '\n' ∉ place.2.label.name.toList) :
    Picture.ofText? root.layout = some root.picture ∧
      Picture.ofText? other.layout = some other.picture ∧
      (root.layout = other.layout ↔ root.picture = other.picture) := by
  refine ⟨ofText?_layout hroot, ofText?_layout hother, ?_, ?_⟩
  · intro htext
    have hread := ofText?_layout hroot
    rw [htext, ofText?_layout hother] at hread
    exact (Option.some.inj hread).symm
  · intro hpicture
    rw [layout, layout, lines_congr root other hpicture]

/-- A tree with names that look like branches, and an entry without children at its end. -/
def deceptiveNode (last : Node) : Node :=
  .branch ⟨"root", ".", .directory, []⟩
    [.branch ⟨"    ├── a", "    ├── a", .directory, []⟩
        [.leaf ⟨"└── b", "    ├── a/└── b", .link, []⟩],
      last]

/-- No children are shown like an empty list of children, and nothing else of the two trees is taken
for what it is not. -/
theorem layout_eq_iff_picture_eq_deceptiveNode :
    let label : Label := ⟨"│   c", "│   c", .directory, [("permission_denied", .bool true)]⟩
    let root := deceptiveNode (.leaf label)
    let other := deceptiveNode (.branch label [])
    root.layout = "└── root/\n    ├──     ├── a/\n    │   └── └── b -> symlink\n" ++
        "    └── │   c/ [Permission Denied]\n" ∧
      Picture.ofText? root.layout = some root.picture ∧
      Picture.ofText? other.layout = some other.picture ∧
      (root.layout = other.layout ↔ root.picture = other.picture) := by
  intro label root other
  exact ⟨by decide +kernel, Node.layout_eq_iff_picture_eq (by decide) (by decide)⟩

end SourceSnapshot.Tree
