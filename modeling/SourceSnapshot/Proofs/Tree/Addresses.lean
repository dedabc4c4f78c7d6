import SourceSnapshot.Tree.Node

/-!
# Addresses of nodes

A node of a tree is found at one address, which says at each step from the root which child to go
to. The nodes of a tree with their addresses, each before those below it, are listed in the
lexicographic order of the addresses; so the list is the pre-order, whatever the tree is like.
-/

namespace SourceSnapshot.Tree.Node

/-- The node at an address. The address of the root is empty; any other starts with the position of
a child of the root, and leads on from there. -/
def at? : List Nat → Node → Option Node
  | [], node => some node
  | i :: address, node => node.children[i]?.bind (at? address)

theorem at?_cons_eq_some_iff {root node : Node} {i : Nat} {address : List Nat} :
    root.at? (i :: address) = some node ↔
      ∃ child, root.children[i]? = some child ∧ child.at? address = some node := by
  rw [at?, Option.bind_eq_some_iff]

mutual

/-- A node and the nodes below it with their addresses, each before what is below it. -/
def located : Node → List (List Nat × Node)
  | .leaf label => [([], .leaf label)]
  | .branch label children => ([], .branch label children) :: locatedFrom 0 children

/-- Several siblings and the nodes below them with their addresses; the first sibling stands at
this position among all of them. -/
def locatedFrom (i : Nat) : List Node → List (List Nat × Node)
  | [] => []
  | node :: rest =>
    node.located.map (fun (address, below) => (i :: address, below)) ++ locatedFrom (i + 1) rest

end

theorem located_eq_cons (node : Node) :
    node.located = ([], node) :: locatedFrom 0 node.children := by
  cases node with
  | leaf label => rw [located, children, locatedFrom]
  | branch label children => rw [located, Node.children]

mutual

/-- A node is listed with the address that leads to it, and with no other. -/
theorem mem_located_iff (root : Node) {address : List Nat} {node : Node} :
    (address, node) ∈ root.located ↔ root.at? address = some node := by
  match root with
  | .leaf label =>
    cases address with
    | nil => simp [located, at?, eq_comm]
    | cons i address => simp [located, at?, children]
  | .branch label below =>
    cases address with
    | nil =>
      have hbelow : ([], node) ∉ locatedFrom 0 below := by
        rw [mem_locatedFrom_iff 0 below]
        rintro ⟨j, others, child, heq, -, -⟩
        cases heq
      simp [located, at?, hbelow, eq_comm]
    | cons i address =>
      rw [located, List.mem_cons, mem_locatedFrom_iff 0 below, at?_cons_eq_some_iff]
      constructor
      · rintro (hroot | ⟨j, others, child, heq, hchild, hfound⟩)
        · cases hroot
        · obtain ⟨rfl, rfl⟩ := List.cons.inj heq
          exact ⟨child, by simpa [children] using hchild, hfound⟩
      · rintro ⟨child, hchild, hfound⟩
        exact Or.inr ⟨i, address, child, by rw [Nat.zero_add], hchild, hfound⟩
termination_by structural root

/-- A node below several siblings is listed with the position of the sibling that it is below, or
that it is, and the address that leads to it from there. -/
theorem mem_locatedFrom_iff (i : Nat) (siblings : List Node) {address : List Nat} {node : Node} :
    (address, node) ∈ locatedFrom i siblings ↔
      ∃ j below child, address = (i + j) :: below ∧ siblings[j]? = some child ∧
        child.at? below = some node := by
  match siblings with
  | [] => simp [locatedFrom]
  | first :: rest =>
    rw [locatedFrom, List.mem_append, List.mem_map, mem_locatedFrom_iff (i + 1) rest]
    constructor
    · rintro (⟨⟨below, found⟩, hmem, heq⟩ | ⟨j, below, child, rfl, hchild, hfound⟩)
      · obtain ⟨rfl, rfl⟩ := Prod.mk.inj heq
        exact ⟨0, below, first, rfl, rfl, (mem_located_iff first).mp hmem⟩
      · refine ⟨j + 1, below, child, ?_, hchild, hfound⟩
        rw [Nat.add_right_comm, Nat.add_assoc]
    · rintro ⟨j, below, child, rfl, hchild, hfound⟩
      cases j with
      | zero =>
        obtain rfl : first = child := Option.some.inj hchild
        exact Or.inl ⟨(below, node), (mem_located_iff first).mpr hfound, rfl⟩
      | succ j =>
        refine Or.inr ⟨j, below, child, ?_, hchild, hfound⟩
        rw [Nat.add_right_comm, Nat.add_assoc]
termination_by structural siblings

end

mutual

/-- The nodes of a tree are listed in the lexicographic order of their addresses. -/
theorem pairwise_located (root : Node) :
    root.located.Pairwise fun here there => here.1 < there.1 := by
  match root with
  | .leaf label => exact List.pairwise_singleton _ _
  | .branch label below =>
    rw [located, List.pairwise_cons]
    refine ⟨?_, pairwise_locatedFrom 0 below⟩
    rintro ⟨address, node⟩ hmem
    obtain ⟨j, rest, child, rfl, -, -⟩ := (mem_locatedFrom_iff 0 below).mp hmem
    exact List.nil_lt_cons _ _
termination_by structural root

/-- The nodes below several siblings are listed in the lexicographic order of their addresses. -/
theorem pairwise_locatedFrom (i : Nat) (siblings : List Node) :
    (locatedFrom i siblings).Pairwise fun here there => here.1 < there.1 := by
  match siblings with
  | [] => exact List.Pairwise.nil
  | first :: rest =>
    rw [locatedFrom, List.pairwise_append, List.pairwise_map]
    refine ⟨?_, pairwise_locatedFrom (i + 1) rest, ?_⟩
    · exact (pairwise_located first).imp fun hlt => List.cons_lt_cons_iff.mpr (Or.inr ⟨rfl, hlt⟩)
    · -- What is below the first sibling has a smaller first step than what is below the others.
      rintro ⟨here, node⟩ hhere ⟨there, other⟩ hthere
      obtain ⟨⟨address, below⟩, -, heq⟩ := List.mem_map.mp hhere
      obtain ⟨j, others, child, rfl, -, -⟩ := (mem_locatedFrom_iff (i + 1) rest).mp hthere
      obtain ⟨rfl, rfl⟩ := Prod.mk.inj heq
      have hlt : i < i + 1 + j := by omega
      exact List.cons_lt_cons_iff.mpr (Or.inl hlt)
termination_by structural siblings

end

end SourceSnapshot.Tree.Node
