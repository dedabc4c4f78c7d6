import SourceSnapshot.Proofs.Tree.Addresses
import SourceSnapshot.Proofs.Tree.Encounters

/-!
# Well-formed trees

A tree that is built of a directory describes it. Every node below the root stands at the path that
the names on the way to it make, no two nodes have one path, and each says of the entry at its path
what kind of entry it is and, if it is a directory that cannot be listed, why. What is left out has
no node, and the nodes below a directory stand in the order of its listing.
-/

namespace SourceSnapshot

open FileSystem (CallFault Entry Errno IsName childPath)
open Ignore (Engine Exclusion Follows Rule)
open Traversal (encountersAmong)

namespace FileSystem.Entry

/-- Whether an entry is a link. -/
def isLink : Entry → Bool
  | .link _ _ _ => true
  | _ => false

/-- Why an entry cannot be listed that is known to be a directory. -/
def listFault? : Entry → Option Errno
  | .directory _ false listFault _ => listFault
  | _ => none

/-- What a well-named entry holds is well-named. -/
theorem areWellNamed_inside {entry : Entry} (h : entry.isWellNamed = true) :
    areWellNamed entry.inside = true := by
  cases entry with
  | file | link | pipe | unknown => rfl
  | directory name obscure listFault entries =>
    rw [isWellNamed, Bool.and_eq_true] at h
    exact h.2

theorem areDistinct_inside {entry : Entry} (h : entry.isDistinct = true) :
    areDistinct entry.inside = true := by
  cases entry with
  | file | link | pipe | unknown => rfl
  | directory name obscure listFault entries => exact h

end FileSystem.Entry

namespace Tree

namespace Node

/-- The children of a node, if it is one that has children. -/
def children? : Node → Option (List Node)
  | .leaf _ => none
  | .branch _ children => some children

/-- The names of the nodes on the way to an address, from below the root down. -/
def namesTo : List Nat → Node → List String
  | [], _ => []
  | i :: address, node =>
    node.children[i]?.elim [] fun child => child.label.name :: namesTo address child

theorem namesTo_cons {root child : Node} {i : Nat} (h : root.children[i]? = some child)
    (address : List Nat) :
    root.namesTo (i :: address) = child.label.name :: child.namesTo address := by
  rw [namesTo, h, Option.elim_some]

/-- A node that is made with a label has it. -/
@[simp] theorem label_ofLabel (label : Label) (below? : Option (List Node)) :
    (ofLabel label below?).label = label := by
  cases below? <;> rfl

/-- A node that is made with children, or as one that has none, is such a node. -/
@[simp] theorem children?_ofLabel (label : Label) (below? : Option (List Node)) :
    (ofLabel label below?).children? = below? := by
  cases below? <;> rfl

theorem children_eq_getD (node : Node) : node.children = node.children?.getD [] := by
  cases node <;> rfl

/-- The node describes the entry that its path leads to, in the tree of a directory with this path
that holds these entries. The names lead to the node from below the root. -/
structure Describes (node : Node) (t : TreeSettings) (engine? : Option Engine) (directory : String)
    (entries : List Entry) (names : List String) (entry : Entry) : Prop where
  /-- The path is made of the names. -/
  path : node.label.path = "/".intercalate names
  /-- The path leads to the entry. -/
  found : Entry.atPath? entries node.label.path = some entry
  /-- The node has the name of the entry. -/
  name : node.label.name = entry.name
  /-- Just those nodes have no children that do not stand for directories. -/
  childless : node.children? = none ↔ node.label.kind ≠ .directory
  /-- A node stands for a directory if the entry is known to be one. -/
  isDirectory : node.label.kind = .directory ↔ entry.isKnownDirectory = true
  /-- A node stands for a link if the entry is one, and is not taken for a directory. -/
  isLink : node.label.kind = .link ↔ entry.isKnownDirectory = false ∧ entry.isLink = true
  /-- Something else is known only about a directory that cannot be listed. -/
  facts : node.label.facts ≠ [] ↔ entry.listFault? ≠ none
  /-- A directory that cannot be listed has no nodes below it. It is known why not, and whether
  rights are lacking. -/
  unlisted : ∀ errno ∈ entry.listFault?, node.children? = some [] ∧
    node.label.facts =
      ("error", .string (CallFault.message ⟨errno, names.foldl childPath directory⟩)) ::
        if errno = .notPermitted ∨ errno = .accessDenied then [("permission_denied", .bool true)]
        else []
  /-- The entry is not left out. -/
  kept : (Exclusion.of t.includeDotFiles engine? node.label.path node.label.name
    (node.label.kind == .directory)).1 = .ok none
  /-- The children stand in the order of the listing. -/
  order : (node.children.map fun child => child.label.name).Sublist (entry.inside.map Entry.name)

/-- A tree of a directory with this path that holds these entries is well-formed. -/
structure IsWellFormed (tree : Node) (t : TreeSettings) (engine? : Option Engine)
    (directory : String) (entries : List Entry) : Prop where
  /-- The path of the root. -/
  path : tree.label.path = "."
  /-- The root stands for a directory, which was listed. -/
  root : tree.label.kind = .directory ∧ tree.children? ≠ none ∧ tree.label.facts = []
  /-- The children of the root stand in the order of the listing. -/
  order : (tree.children.map fun child => child.label.name).Sublist (entries.map Entry.name)
  /-- No two nodes have one path. -/
  distinct : (tree.preorder.map Label.path).Nodup
  /-- Every node below the root describes an entry. -/
  below : ∀ address node, address ≠ [] → tree.at? address = some node →
    ∃ entry, node.Describes t engine? directory entries (tree.namesTo address) entry

end Node

section

variable {t : TreeSettings} {rules? : Option (List Rule)} {above : List String}

/-- The nodes below the node of an entry, if it is one that has children, from the rules alone. -/
def nodesBelow? (t : TreeSettings) (rules? : Option (List Rule)) (above : List String)
    (callAbove : String) : Entry → Option (List Node)
  | .directory name false none entries =>
    some (nodesAmong t rules? (above ++ [name]) (childPath callAbove name) entries)
  | .directory _ false (some _) _ => some []
  | _ => none

/-- Just an entry that is known to be a directory has a node for one. -/
theorem kindOf_eq_directory_iff {entry : Entry} :
    kindOf entry = .directory ↔ entry.isKnownDirectory = true := by
  cases entry with
  | file | link | pipe | unknown => simp [kindOf, Entry.isKnownDirectory]
  | directory name obscure listFault entries =>
    cases obscure <;> simp [kindOf, Entry.isKnownDirectory]

theorem kindOf_eq_link_iff {entry : Entry} :
    kindOf entry = .link ↔ entry.isKnownDirectory = false ∧ entry.isLink = true := by
  cases entry with
  | file | link | pipe | unknown => simp [kindOf, Entry.isKnownDirectory, Entry.isLink]
  | directory name obscure listFault entries => cases obscure <;> simp [kindOf, Entry.isLink]

/-- Just the node of a directory has children. -/
theorem nodesBelow?_eq_none_iff {callAbove : String} {entry : Entry} :
    nodesBelow? t rules? above callAbove entry = none ↔ kindOf entry ≠ .directory := by
  cases entry with
  | file | link | pipe | unknown => simp [nodesBelow?, kindOf]
  | directory name obscure listFault entries =>
    cases obscure <;> cases listFault <;> simp [nodesBelow?, kindOf]

/-- Something else is known just about a directory that cannot be listed. -/
theorem factsOf_ne_nil_iff {callPath : String} {entry : Entry} :
    factsOf callPath entry ≠ [] ↔ entry.listFault? ≠ none := by
  cases entry with
  | file | link | pipe | unknown => simp [factsOf, Entry.listFault?]
  | directory name obscure listFault entries =>
    cases obscure <;> cases listFault <;> simp [factsOf, Entry.listFault?, listingFacts]

/-- Rights are lacking if an operation is not permitted or an access is denied. -/
theorem listingFacts_eq (errno : Errno) (callPath : String) :
    listingFacts ⟨errno, callPath⟩ =
      ("error", .string (CallFault.message ⟨errno, callPath⟩)) ::
        if errno = .notPermitted ∨ errno = .accessDenied then [("permission_denied", .bool true)]
        else [] := by
  cases errno <;> rfl

/-- A directory that cannot be listed has a node without children that knows why. -/
theorem of_listFault?_eq_some {callAbove callPath : String} {entry : Entry} {errno : Errno}
    (h : entry.listFault? = some errno) :
    nodesBelow? t rules? above callAbove entry = some [] ∧
      factsOf callPath entry = listingFacts ⟨errno, callPath⟩ := by
  cases entry with
  | file | link | pipe | unknown => cases h
  | directory name obscure listFault entries =>
    cases obscure with
    | true => cases h
    | false =>
      obtain rfl : listFault = some errno := h
      exact ⟨rfl, rfl⟩

/-- An entry that nothing is below has a node only if it is not left out. -/
theorem of_mem_leafNodes {name : String} {kind : Kind} {node : Node}
    (h : node ∈ leafNodes t rules? above name kind) :
    Exclusion.byRules? t.includeDotFiles rules? above name false = none ∧
      node = .leaf ⟨name, "/".intercalate (above ++ [name]), kind, []⟩ := by
  rw [leafNodes] at h
  split at h
  · rename_i hkept
    exact ⟨hkept.1, List.mem_singleton.mp h⟩
  · cases h

/-- An entry has a node only if it is not left out. The node follows from the entry. -/
theorem of_mem_nodesOf {callAbove : String} {entry : Entry} {node : Node}
    (h : node ∈ nodesOf t rules? above callAbove entry) :
    Exclusion.byRules? t.includeDotFiles rules? above entry.name entry.isKnownDirectory = none ∧
      node = .ofLabel ⟨entry.name, "/".intercalate (above ++ [entry.name]), kindOf entry,
        factsOf (childPath callAbove entry.name) entry⟩
          (nodesBelow? t rules? above callAbove entry) := by
  cases entry with
  | file name obscure data => exact of_mem_leafNodes h
  | link name obscure target => exact of_mem_leafNodes h
  | pipe name obscure => exact of_mem_leafNodes h
  | unknown name fault => exact of_mem_leafNodes h
  | directory name obscure listFault entries =>
    cases obscure with
    | true => exact of_mem_leafNodes h
    | false =>
      simp only [nodesOf] at h
      split at h
      · rename_i hkept
        refine ⟨hkept.1, ?_⟩
        cases listFault with
        | none => exact List.mem_singleton.mp h
        | some errno => exact List.mem_singleton.mp h
      · cases h

theorem name_of_mem_nodesOf {callAbove : String} {entry : Entry} {node : Node}
    (h : node ∈ nodesOf t rules? above callAbove entry) : node.label.name = entry.name := by
  obtain ⟨-, rfl⟩ := of_mem_nodesOf h
  rw [Node.label_ofLabel]

/-- An entry has one node at most. -/
theorem length_nodesOf_le (callAbove : String) (entry : Entry) :
    (nodesOf t rules? above callAbove entry).length ≤ 1 := by
  have hleaf : ∀ name kind, (leafNodes t rules? above name kind).length ≤ 1 := by
    intro name kind
    rw [leafNodes]
    split <;> simp
  cases entry with
  | file name obscure data => exact hleaf name .file
  | link name obscure target => exact hleaf name .link
  | pipe name obscure => exact hleaf name .file
  | unknown name fault => exact hleaf name .file
  | directory name obscure listFault entries =>
    cases obscure with
    | true => exact hleaf name .file
    | false =>
      simp only [nodesOf]
      split
      · cases listFault <;> simp
      · simp

/-- A node of several entries is the node of one of them. -/
theorem exists_mem_nodesOf {callAbove : String} {entries : List Entry} {node : Node}
    (h : node ∈ nodesAmong t rules? above callAbove entries) :
    ∃ entry ∈ entries, node ∈ nodesOf t rules? above callAbove entry := by
  induction entries with
  | nil => cases h
  | cons entry rest ih =>
    rw [nodesAmong, List.mem_append] at h
    rcases h with h | h
    · exact ⟨entry, List.mem_cons_self, h⟩
    · obtain ⟨other, hmem, hother⟩ := ih h
      exact ⟨other, List.mem_cons_of_mem entry hmem, hother⟩

/-- The nodes of several entries stand in the order of the entries. -/
theorem map_name_nodesAmong_sublist (callAbove : String) (entries : List Entry) :
    ((nodesAmong t rules? above callAbove entries).map fun node => node.label.name).Sublist
      (entries.map Entry.name) := by
  induction entries with
  | nil => exact List.Sublist.refl _
  | cons entry rest ih =>
    have hlength : (nodesOf t rules? above callAbove entry).length ≤ 1 :=
      length_nodesOf_le callAbove entry
    rw [nodesAmong, List.map_append, List.map_cons]
    cases hnodes : nodesOf t rules? above callAbove entry with
    | nil => exact ih.cons entry.name
    | cons node others =>
      have hnil : others = [] := by
        rw [hnodes, List.length_cons] at hlength
        exact List.eq_nil_of_length_eq_zero (by omega)
      have hname : node.label.name = entry.name :=
        name_of_mem_nodesOf (hnodes ▸ List.mem_cons_self)
      rw [hnil, List.map_singleton, hname]
      exact ih.cons_cons entry.name

/-- What is below the node of an entry are nodes of what the entry holds. -/
theorem children_of_mem_nodesOf {callAbove : String} {entry : Entry} {node : Node}
    (h : node ∈ nodesOf t rules? above callAbove entry) :
    node.children = [] ∨ node.children =
      nodesAmong t rules? (above ++ [entry.name]) (childPath callAbove entry.name)
        entry.inside := by
  obtain ⟨-, rfl⟩ := of_mem_nodesOf h
  rw [Node.children_eq_getD, Node.children?_ofLabel]
  cases entry with
  | file | link | pipe | unknown => exact Or.inl rfl
  | directory name obscure listFault entries =>
    cases obscure with
    | true => exact Or.inl rfl
    | false =>
      cases listFault with
      | none => exact Or.inr rfl
      | some errno => exact Or.inl rfl

/-- A node at an address below a root with the nodes of some entries is the node of the entry that
the names on the way lead to. -/
theorem exists_entry_of_at? {directory callAbove : String} {root node : Node}
    {entries : List Entry} (hroot : root.children = nodesAmong t rules? above callAbove entries)
    (hcall : callAbove = above.foldl childPath directory)
    (habove : ∀ n ∈ above, IsName n) (hnames : Entry.areWellNamed entries = true)
    (hdistinct : Entry.areDistinct entries = true) {address : List Nat} (hne : address ≠ [])
    (h : root.at? address = some node) :
    ∃ front entry, above ++ root.namesTo address = front ++ [entry.name] ∧
      (∀ n ∈ front ++ [entry.name], IsName n) ∧
      Entry.among? entries (root.namesTo address) = some entry ∧
      node ∈ nodesOf t rules? front (front.foldl childPath directory) entry := by
  induction address generalizing above callAbove root entries with
  | nil => exact absurd rfl hne
  | cons i address ih =>
    obtain ⟨child, hchild, hbelow⟩ := Node.at?_cons_eq_some_iff.mp h
    obtain ⟨entry, hentry, hnode⟩ :=
      exists_mem_nodesOf (hroot ▸ List.mem_of_getElem? hchild)
    have hfirst := Entry.forall_isName_append habove (Entry.areWellNamed_iff.mp hnames entry hentry)
    have hfound := Entry.find?_name hdistinct hentry
    rw [Node.namesTo_cons hchild, name_of_mem_nodesOf hnode, Entry.among?, hfound,
      Option.bind_some]
    cases address with
    | nil =>
      obtain rfl : child = node := Option.some.inj hbelow
      exact ⟨above, entry, rfl, hfirst, rfl, hcall ▸ hnode⟩
    | cons j address =>
      -- The child has children itself, so they are the nodes of what its entry holds.
      obtain ⟨grandchild, hgrandchild, -⟩ := Node.at?_cons_eq_some_iff.mp hbelow
      rcases children_of_mem_nodesOf hnode with hnil | hinside
      · rw [hnil] at hgrandchild
        cases hgrandchild
      · have hinner : childPath callAbove entry.name =
            (above ++ [entry.name]).foldl childPath directory := by
          rw [hcall, List.foldl_append, List.foldl_cons, List.foldl_nil]
        obtain ⟨front, found, hfront, hall, hamong, hmem⟩ := ih hinside hinner hfirst
          (Entry.areWellNamed_inside (Entry.areWellNamed_iff.mp hnames entry hentry))
          (Entry.areDistinct_inside ((Entry.areDistinct_iff.mp hdistinct).2 entry hentry))
          (List.cons_ne_nil j address) hbelow
        rw [List.append_assoc, List.singleton_append] at hfront
        rw [Node.namesTo_cons hgrandchild] at hamong ⊢
        exact ⟨front, found, by rw [← hfront, Node.namesTo_cons hgrandchild], hall, hamong, hmem⟩

/-- The node of an entry describes it. -/
theorem describes_of_mem_nodesOf {engine? : Option Engine} (hf : Follows engine? rules?)
    {directory : String} {entries : List Entry} {entry : Entry} {node : Node}
    (hnames : ∀ n ∈ above ++ [entry.name], IsName n)
    (hfound : Entry.among? entries (above ++ [entry.name]) = some entry)
    (h : node ∈ nodesOf t rules? above (above.foldl childPath directory) entry) :
    node.Describes t engine? directory entries (above ++ [entry.name]) entry := by
  have hcall : childPath (above.foldl childPath directory) entry.name =
      (above ++ [entry.name]).foldl childPath directory := by
    rw [List.foldl_append, List.foldl_cons, List.foldl_nil]
  obtain ⟨hkept, hnode⟩ := of_mem_nodesOf h
  have hlabel : node.label = ⟨entry.name, "/".intercalate (above ++ [entry.name]), kindOf entry,
      factsOf ((above ++ [entry.name]).foldl childPath directory) entry⟩ := by
    rw [hnode, Node.label_ofLabel, hcall]
  have hchildren : node.children? =
      nodesBelow? t rules? above (above.foldl childPath directory) entry := by
    rw [hnode, Node.children?_ofLabel]
  have hkind : (kindOf entry == .directory) = entry.isKnownDirectory := by
    rw [Bool.eq_iff_iff, beq_iff_eq, kindOf_eq_directory_iff]
  constructor
  case path => rw [hlabel]
  case found => rw [hlabel, Entry.atPath?_intercalate entries hnames (by simp), hfound]
  case name => rw [hlabel]
  case childless => rw [hlabel, hchildren, nodesBelow?_eq_none_iff]
  case isDirectory => rw [hlabel, kindOf_eq_directory_iff]
  case isLink => rw [hlabel, kindOf_eq_link_iff]
  case facts => rw [hlabel, factsOf_ne_nil_iff]
  case unlisted =>
    intro errno herrno
    obtain ⟨hbelow, hfacts⟩ := of_listFault?_eq_some herrno
    rw [hlabel, hchildren, hbelow, hfacts, listingFacts_eq]
    exact ⟨rfl, rfl⟩
  case kept =>
    obtain ⟨next?, -, hanswer⟩ := Exclusion.of_follows hf hnames t.includeDotFiles
      entry.isKnownDirectory
    rw [hlabel, hkind, hanswer, hkept]
  case order =>
    rcases children_of_mem_nodesOf h with hnil | hinside
    · rw [hnil]
      exact List.nil_sublist _
    · rw [hinside]
      exact map_name_nodesAmong_sublist _ _

/-- The path of the root is none that names make. -/
theorem ne_dot_of_isName {names : List String} (h : ∀ n ∈ names, IsName n) (hne : names ≠ []) :
    "/".intercalate names ≠ "." := by
  intro hdot
  have hsteps := FileSystem.steps_intercalate h hne
  rw [hdot] at hsteps
  have hname := h "." (hsteps ▸ List.mem_singleton_self ".")
  exact hname.2.2.1 rfl

/-- No two nodes of a tree with the nodes of some entries have one path. -/
theorem nodup_path_preorder {root directory : String} {entries : List Entry}
    (hnames : Entry.areWellNamed entries = true) (hdistinct : Entry.areDistinct entries = true) :
    ((Node.branch ⟨root, ".", .directory, []⟩
      (nodesAmong t rules? [] directory entries)).preorder.map Label.path).Nodup := by
  have hlabels := preorderAll_nodesAmong t rules? directory (List.forall_mem_nil _) rfl entries
    hnames
  have hpaths : (Node.preorderAll (nodesAmong t rules? [] directory entries)).map Label.path =
      ((encountersAmong t.includeDotFiles rules? [] entries).filter (shows t)).map
        Traversal.Encounter.path := by
    rw [List.foldl_nil] at hlabels
    rw [hlabels, List.map_map]
    rfl
  rw [Node.preorder, List.map_cons, hpaths, List.nodup_cons]
  constructor
  · intro hmem
    obtain ⟨c, hc, hdot⟩ := List.mem_map.mp hmem
    obtain ⟨hall, hne⟩ := Traversal.isName_of_mem_encountersAmong hnames (List.mem_filter.mp hc).1
    exact ne_dot_of_isName hall hne hdot
  · exact (Traversal.nodup_path_encountersAmong entries hnames hdistinct).sublist
      (List.filter_sublist.map _)

end

/-- A tree that was built of a directory is well-formed, whatever was asked of its engine before. -/
theorem build_isWellFormed (t : TreeSettings) {engine? : Option Engine}
    (hengine : ∀ e ∈ engine?, e.Reachable) {fs : FileSystem}
    (hfs : fs.IsWellFormed) {directory : String} {tree : Node}
    (hbuild : (build t fs engine? directory).result = .ok tree) :
    ∃ entries, fs.list directory = .ok entries ∧
      tree.IsWellFormed t engine? directory entries := by
  have hf := Ignore.follows_of_reachable hengine
  obtain ⟨entries, hlist, -, rfl⟩ := (build_result_eq_ok_iff hf hfs.toIsWellNamed).mp hbuild
  have hentries := FileSystem.areWellNamed_of_list hfs.toIsWellNamed hlist
  have hsingle := FileSystem.areDistinct_of_list hfs hlist
  refine ⟨entries, hlist, ?_⟩
  constructor
  case path => rfl
  case root => exact ⟨rfl, Option.some_ne_none _, rfl⟩
  case order => exact map_name_nodesAmong_sublist directory entries
  case distinct => exact nodup_path_preorder hentries hsingle
  case below =>
    intro address node hne hnode
    obtain ⟨front, entry, hfront, hall, hamong, hmem⟩ := exists_entry_of_at? rfl rfl
      (List.forall_mem_nil _) hentries hsingle hne hnode
    rw [List.nil_append] at hfront
    rw [hfront] at hamong ⊢
    exact ⟨entry, describes_of_mem_nodesOf hf hall hamong hmem⟩

/-- A project with a directory that rights are lacking for, one that fails to be listed, one that is
not known to be a directory, a link, a directory of products, and a directory with a text. -/
def troublesomeSystem : FileSystem :=
  .ofWorkingDirectory ["work"]
    [.directory "project" false none
      [.directory "secret" false (some .accessDenied) [.file "key" false ⟨⟨#[104]⟩, none, none⟩],
        .directory "broken" false (some .inputOutput) [],
        .directory "obscure" true none [.file "inner" false ⟨⟨#[105]⟩, none, none⟩],
        .link "latest" true "src",
        .directory "build" false none [.file "out.txt" false ⟨⟨#[107]⟩, none, none⟩],
        .directory "src" false none
          [.file ".hidden" false ⟨⟨#[106]⟩, none, none⟩,
            .file "main.txt" false ⟨⟨#[105]⟩, none, none⟩]]]

/-- The two directories that cannot be listed are told apart from the one that is taken for a
file. -/
theorem build_isWellFormed_troublesomeSystem :
    let t := TreeSettings.default
    let engine? := some (Engine.ofHistory true [.add (.list [some "build/"]), .ignores "src" true])
    ∃ tree, (build t troublesomeSystem engine? "project").result = .ok tree ∧
      (tree.preorder.map fun label => (label.path, label.kind)) =
        [(".", .directory), ("secret", .directory), ("broken", .directory), ("obscure", .file),
          ("latest", .link), ("src", .directory), ("src/main.txt", .file)] ∧
      ∃ entries, troublesomeSystem.list "project" = .ok entries ∧
        tree.IsWellFormed t engine? "project" entries := by
  intro t engine?
  have hengine : ∀ e ∈ engine?, e.Reachable := fun e he => ⟨_, _, (Option.some.inj he).symm⟩
  have hlabels : ((build t troublesomeSystem engine? "project").result.map fun tree =>
      tree.preorder.map fun label => (label.path, label.kind)) =
        .ok [(".", .directory), ("secret", .directory), ("broken", .directory), ("obscure", .file),
          ("latest", .link), ("src", .directory), ("src/main.txt", .file)] := by
    decide +kernel
  cases hbuild : (build t troublesomeSystem engine? "project").result with
  | error failure =>
    rw [hbuild] at hlabels
    cases hlabels
  | ok tree =>
    rw [hbuild] at hlabels
    exact ⟨tree, rfl, Except.ok.inj hlabels,
      build_isWellFormed t hengine (by decide) hbuild⟩

end Tree

end SourceSnapshot
