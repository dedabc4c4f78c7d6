import SourceSnapshot.Proofs.Tree.Encounters

/-!
# Pruned trees

The limits of a tree only prune it. From the tree without limits they delete the directories that
are too deep or not asked for, each with all that is below it, and the other nodes if files are not
asked for. What stays, stays as it is and where it is. So a tree can be cut to a smaller depth after
it was built.
-/

namespace SourceSnapshot.Tree

open FileSystem (Entry childPath)
open Ignore (Engine Exclusion Rule)

mutual

/-- A node at a depth without the nodes below it that are not kept at theirs. With a node all that
is below it goes. -/
def Node.prune (keeps : Nat → Label → Bool) (depth : Nat) : Node → Node
  | .leaf label => .leaf label
  | .branch label children => .branch label (Node.pruneAll keeps (depth + 1) children)

/-- Those of several nodes at a depth that are kept, each of them pruned. -/
def Node.pruneAll (keeps : Nat → Label → Bool) (depth : Nat) : List Node → List Node
  | [] => []
  | node :: rest =>
    if keeps depth node.label then node.prune keeps depth :: Node.pruneAll keeps depth rest
    else Node.pruneAll keeps depth rest

end

/-- A pruned node has the label that it had. -/
@[simp] theorem Node.label_prune (keeps : Nat → Label → Bool) (depth : Nat) (node : Node) :
    (node.prune keeps depth).label = node.label := by
  cases node with
  | leaf label => rw [prune]
  | branch label children => rw [prune, Node.label, Node.label]

/-- Several nodes are pruned part by part. -/
theorem Node.pruneAll_append (keeps : Nat → Label → Bool) (depth : Nat) (nodes more : List Node) :
    pruneAll keeps depth (nodes ++ more) =
      pruneAll keeps depth nodes ++ pruneAll keeps depth more := by
  induction nodes with
  | nil => rw [List.nil_append, pruneAll, List.nil_append]
  | cons node rest ih =>
    rw [List.cons_append, pruneAll, pruneAll, ih]
    split
    · rw [List.cons_append]
    · rfl

mutual

/-- To prune a node twice is to keep what is kept both times. -/
theorem Node.prune_prune (keeps keeps' : Nat → Label → Bool) (depth : Nat) (node : Node) :
    (node.prune keeps depth).prune keeps' depth =
      node.prune (fun depth label => keeps depth label && keeps' depth label) depth := by
  match node with
  | .leaf label => simp only [prune]
  | .branch label children =>
    simp only [prune, pruneAll_pruneAll keeps keeps' (depth + 1) children]
termination_by structural node

/-- To prune several nodes twice is to keep what is kept both times. -/
theorem Node.pruneAll_pruneAll (keeps keeps' : Nat → Label → Bool) (depth : Nat)
    (nodes : List Node) :
    pruneAll keeps' depth (pruneAll keeps depth nodes) =
      pruneAll (fun depth label => keeps depth label && keeps' depth label) depth nodes := by
  match nodes with
  | [] => simp only [pruneAll]
  | node :: rest =>
    have hrest := pruneAll_pruneAll keeps keeps' depth rest
    have hnode := prune_prune keeps keeps' depth node
    cases hkept : keeps depth node.label with
    | false => simp [pruneAll, hkept, hrest]
    | true => simp [pruneAll, hkept, hrest, hnode]
termination_by structural nodes

end

mutual

/-- The labels in a pruned node stand in it as they stood before. -/
theorem Node.preorder_prune_sublist (keeps : Nat → Label → Bool) (depth : Nat) (node : Node) :
    (node.prune keeps depth).preorder.Sublist node.preorder := by
  match node with
  | .leaf label => rw [prune]
  | .branch label children =>
    rw [prune, preorder, preorder]
    exact (preorderAll_pruneAll_sublist keeps (depth + 1) children).cons_cons label
termination_by structural node

/-- The labels in several pruned nodes stand in them as they stood before. -/
theorem Node.preorderAll_pruneAll_sublist (keeps : Nat → Label → Bool) (depth : Nat)
    (nodes : List Node) : (preorderAll (pruneAll keeps depth nodes)).Sublist
      (preorderAll nodes) := by
  match nodes with
  | [] => rw [pruneAll]
  | node :: rest =>
    have hrest := preorderAll_pruneAll_sublist keeps depth rest
    rw [pruneAll, preorderAll]
    split
    · rw [preorderAll]
      exact (preorder_prune_sublist keeps depth node).append hrest
    · exact hrest.trans (List.sublist_append_right node.preorder (preorderAll rest))
termination_by structural nodes

end

/-- The settings without limits on depth and on kinds of nodes. -/
def unrestricted (t : TreeSettings) : TreeSettings :=
  { t with maxDepth := none, includeFiles := true, includeDirectories := true }

/-- Whether a node is within a depth or stands for something else than a directory. -/
def isWithin (maxDepth depth : Nat) (label : Label) : Bool :=
  label.kind != .directory || decide (depth ≤ maxDepth)

/-- Whether the settings keep a node at a depth: a directory if it is not too deep and directories
are asked for, anything else if files are. -/
def keeps (t : TreeSettings) (depth : Nat) (label : Label) : Bool :=
  if label.kind = .directory then !t.maxDepth.any (· < depth) && t.includeDirectories
  else t.includeFiles

/-- With the node of an entry that nothing is below goes nothing else. -/
theorem pruneAll_leafNodes (t : TreeSettings) (rules? : Option (List Rule)) (above : List String)
    (name : String) {kind : Kind} (hkind : kind ≠ .directory) (depth : Nat) :
    Node.pruneAll (keeps t) depth (leafNodes (unrestricted t) rules? above name kind) =
      leafNodes t rules? above name kind := by
  have hkeeps : ∀ path facts, keeps t depth ⟨name, path, kind, facts⟩ = t.includeFiles :=
    fun _ _ => if_neg hkind
  rw [leafNodes, leafNodes, unrestricted]
  cases Exclusion.byRules? t.includeDotFiles rules? above name false with
  | some exclusion => simp [Node.pruneAll]
  | none =>
    cases hfiles : t.includeFiles with
    | false => simp [Node.pruneAll, Node.label, hkeeps, hfiles]
    | true => simp [Node.pruneAll, Node.prune, Node.label, hkeeps, hfiles]

mutual

/-- The nodes of an entry are the nodes without limits, pruned. -/
theorem pruneAll_nodesOf (t : TreeSettings) (rules? : Option (List Rule)) (above : List String)
    (callAbove : String) (entry : Entry) :
    Node.pruneAll (keeps t) (above.length + 1)
        (nodesOf (unrestricted t) rules? above callAbove entry) =
      nodesOf t rules? above callAbove entry := by
  match entry with
  | .file name _ _ => exact pruneAll_leafNodes t rules? above name (by simp) _
  | .link name _ _ => exact pruneAll_leafNodes t rules? above name (by simp) _
  | .pipe name _ => exact pruneAll_leafNodes t rules? above name (by simp) _
  | .unknown name _ => exact pruneAll_leafNodes t rules? above name (by simp) _
  | .directory name true _ _ => exact pruneAll_leafNodes t rules? above name (by simp) _
  | .directory name false listFault entries =>
    have hkeeps : ∀ path facts, keeps t (above.length + 1) ⟨name, path, .directory, facts⟩ =
        showsDirectoriesAt t (above.length + 1) := fun _ _ => if_pos rfl
    have hdot : (unrestricted t).includeDotFiles = t.includeDotFiles := rfl
    have hshown : showsDirectoriesAt (unrestricted t) (above.length + 1) = true := rfl
    simp only [nodesOf, hdot, hshown]
    cases Exclusion.byRules? t.includeDotFiles rules? above name true with
    | some exclusion => simp [Node.pruneAll]
    | none =>
      have hbelow := pruneAll_nodesAmong t rules? (above ++ [name]) (childPath callAbove name)
        entries
      rw [List.length_append, List.length_singleton] at hbelow
      cases hdeep : showsDirectoriesAt t (above.length + 1) with
      | false =>
        cases listFault with
        | some errno => simp [Node.pruneAll, Node.label, hkeeps, hdeep]
        | none => simp [Node.pruneAll, Node.label, hkeeps, hdeep]
      | true =>
        cases listFault with
        | some errno => simp [Node.pruneAll, Node.prune, Node.label, hkeeps, hdeep]
        | none => simp [Node.pruneAll, Node.prune, Node.label, hkeeps, hdeep, hbelow]
termination_by structural entry

/-- The nodes of several entries are the nodes without limits, pruned. -/
theorem pruneAll_nodesAmong (t : TreeSettings) (rules? : Option (List Rule))
    (above : List String) (callAbove : String) (entries : List Entry) :
    Node.pruneAll (keeps t) (above.length + 1)
        (nodesAmong (unrestricted t) rules? above callAbove entries) =
      nodesAmong t rules? above callAbove entries := by
  match entries with
  | [] => rw [nodesAmong, nodesAmong, Node.pruneAll]
  | entry :: rest =>
    rw [nodesAmong, nodesAmong, Node.pruneAll_append,
      pruneAll_nodesOf t rules? above callAbove entry,
      pruneAll_nodesAmong t rules? above callAbove rest]
termination_by structural entries

end

/-- What a smaller depth keeps is what the settings keep and the smaller depth does too. -/
theorem keeps_and_isWithin {t : TreeSettings} {m : Nat} (h : ∀ n ∈ t.maxDepth, m ≤ n) :
    (fun depth label => keeps t depth label && isWithin m depth label) =
      keeps { t with maxDepth := some m } := by
  funext depth label
  rw [keeps, keeps, isWithin]
  by_cases hkind : label.kind = .directory
  · rw [if_pos hkind, if_pos hkind, hkind]
    cases t.includeDirectories with
    | false => simp
    | true =>
      rw [Bool.eq_iff_iff]
      simp only [Bool.and_true, bne_self_eq_false, Bool.false_or, Bool.and_eq_true,
        Bool.not_eq_true', Option.any_eq_false, decide_eq_false_iff_not, decide_eq_true_eq,
        Option.some.injEq, forall_eq']
      constructor
      · rintro ⟨-, hdepth⟩
        omega
      · intro hdepth
        refine ⟨fun n hn => ?_, by omega⟩
        have hle := h n hn
        omega
  · rw [if_neg hkind, if_neg hkind]
    simp [hkind]

/-- A root that cannot be listed stops every tree in the same way. -/
theorem exists_failure_of_list_error {fs : FileSystem} {directory : String}
    {fault : FileSystem.AccessFault} (hlist : fs.list directory = .error fault) :
    ∃ failure, ∀ (t : TreeSettings) (engine? : Option Engine),
      (build t fs engine? directory).result = .error failure := by
  cases fault with
  | nulInPath => exact ⟨_, fun t engine? => by rw [build, Traversal.run, hlist]⟩
  | call fault => exact ⟨_, fun t engine? => by rw [build, Traversal.run, hlist]⟩

/-- A tree of smaller depth has the nodes of the tree, cut to that depth. -/
theorem pruneAll_isWithin_nodesAmong (t : TreeSettings) {m : Nat} (hm : ∀ n ∈ t.maxDepth, m ≤ n)
    (rules? : Option (List Rule)) (directory : String) (entries : List Entry) :
    Node.pruneAll (isWithin m) 1 (nodesAmong t rules? [] directory entries) =
      nodesAmong { t with maxDepth := some m } rules? [] directory entries := by
  have hfull := pruneAll_nodesAmong t rules? [] directory entries
  have hcut := pruneAll_nodesAmong { t with maxDepth := some m } rules? [] directory entries
  rw [← keeps_and_isWithin hm] at hcut
  rw [← hfull, ← hcut]
  -- Both settings are the same without their limits.
  exact Node.pruneAll_pruneAll (keeps t) (isWithin m) 1 _

theorem shows_unrestricted {t : TreeSettings} {c : Traversal.Encounter} (h : shows t c = true) :
    shows (unrestricted t) c = true := by
  simp only [shows, Bool.and_eq_true] at h ⊢
  refine ⟨⟨h.1.1, ?_⟩, by simp [unrestricted]⟩
  simp [reaches, showsDirectoriesAt, unrestricted]

/-- What is shown down to a smaller depth is shown. -/
theorem shows_of_shows_within {t : TreeSettings} {m : Nat} (hm : ∀ n ∈ t.maxDepth, m ≤ n)
    {c : Traversal.Encounter} (h : shows { t with maxDepth := some m } c = true) :
    shows t c = true := by
  simp only [shows, Bool.and_eq_true] at h ⊢
  refine ⟨⟨h.1.1, ?_⟩, h.2⟩
  have hdepth := h.1.2
  simp only [reaches, showsDirectoriesAt, Bool.or_eq_true, Bool.and_eq_true, Bool.not_eq_true',
    Option.any_eq_false, decide_eq_false_iff_not, Option.some.injEq, forall_eq'] at hdepth ⊢
  refine hdepth.imp_right fun hreached => ⟨fun n hn => ?_, hreached.2⟩
  have hmost := hm n hn
  have hle := hreached.1
  omega

/-- Only an entry of which nothing can be told stops the building of a tree. -/
theorem exists_unknown_of_stopAmong? {t : TreeSettings} {rules? : Option (List Rule)}
    {directory : String} {entries : List Entry} (hentries : Entry.areWellNamed entries = true)
    {failure : Traversal.Failure} (h : stopAmong? t rules? [] directory entries = some failure) :
    ∃ fault, failure = .unknown fault := by
  have hfirst := stopAmong?_eq_findSome? t rules? directory (List.forall_mem_nil _) rfl entries
    hentries
  rw [List.foldl_nil, h] at hfirst
  obtain ⟨c, -, hc⟩ := List.exists_of_findSome?_eq_some hfirst.symm
  obtain ⟨-, name, fault, -, rfl⟩ := of_stopAt?_eq_some hc
  exact ⟨_, rfl⟩

/-- If a tree shows less than another one and has its nodes after pruning, then it is the other one,
pruned, unless an entry stops the other one of which nothing can be told. -/
theorem build_eq_map_prune {rules? : Option (List Rule)} {engine? engine?' : Option Engine}
    (hf : Ignore.Follows engine? rules?) (hf' : Ignore.Follows engine?' rules?) {fs : FileSystem}
    (hfs : fs.IsWellNamed) {t : TreeSettings} (full : TreeSettings)
    (hdot : t.includeDotFiles = full.includeDotFiles)
    (hshows : ∀ c, shows t c = true → shows full c = true) {keeps : Nat → Label → Bool}
    {directory : String}
    (hnodes : ∀ entries, Node.pruneAll keeps 1 (nodesAmong full rules? [] directory entries) =
      nodesAmong t rules? [] directory entries)
    (htold : ∀ fault, (build full fs engine?' directory).result ≠ .error (.unknown fault)) :
    (build t fs engine? directory).result =
      (build full fs engine?' directory).result.map (Node.prune keeps 0) := by
  cases hlist : fs.list directory with
  | error fault =>
    obtain ⟨failure, hfailure⟩ := exists_failure_of_list_error hlist
    rw [hfailure, hfailure, Except.map]
  | ok entries =>
    have hentries := FileSystem.areWellNamed_of_list hfs hlist
    have hresult := build_result_of_list hf' hfs full hlist
    cases hstop : stopAmong? full rules? [] directory entries with
    | some failure =>
      obtain ⟨fault, rfl⟩ := exists_unknown_of_stopAmong? hentries hstop
      rw [hstop] at hresult
      exact absurd hresult (htold fault)
    | none =>
      have hgrown : stopAmong? t rules? [] directory entries = none := by
        rw [stopAmong?_eq_none_iff hentries] at hstop ⊢
        rw [hdot]
        intro c hc
        cases hstopped : stopAt? t directory c with
        | none => rfl
        | some failure =>
          obtain ⟨hshown, name, fault, hentry, rfl⟩ := of_stopAt?_eq_some hstopped
          have hfull := hstop c hc
          rw [stopAt?, hentry, hshows c hshown] at hfull
          cases hfull
      rw [hstop] at hresult
      rw [hresult, build_result_of_list hf hfs t hlist, hgrown, Except.map, Node.prune,
        hnodes entries]

/-- The limits of a tree only prune it, whatever was asked of the two engines before as long as
their rules are the same: a tree, or the failure to list its root, is that of the settings without
limits after the deletion of what the limits do not keep, unless the tree without limits is not
built because of an entry of which nothing can be told; the labels that stay are unchanged and in
order; and a tree of a smaller depth is the tree, if it is built, cut to that depth. -/
theorem build_prunes (t : TreeSettings) {engine? engine?' : Option Engine}
    (hengine : ∀ e ∈ engine?, e.Reachable) (hengine' : ∀ e ∈ engine?', e.Reachable)
    (hrules : engine?.map Engine.rules = engine?'.map Engine.rules) {fs : FileSystem}
    (hnames : fs.IsWellNamed) (directory : String) :
    ((∀ fault, (build (unrestricted t) fs engine?' directory).result ≠ .error (.unknown fault)) →
        (build t fs engine? directory).result =
          (build (unrestricted t) fs engine?' directory).result.map (Node.prune (keeps t) 0)) ∧
      (∀ tree full, (build t fs engine? directory).result = .ok tree →
        (build (unrestricted t) fs engine?' directory).result = .ok full →
          tree.preorder.Sublist full.preorder) ∧
      ∀ m, (∀ n ∈ t.maxDepth, m ≤ n) →
        (∀ fault, (build t fs engine?' directory).result ≠ .error (.unknown fault)) →
          (build { t with maxDepth := some m } fs engine? directory).result =
            (build t fs engine?' directory).result.map (Node.prune (isWithin m) 0) := by
  have hf := Ignore.follows_of_reachable hengine
  have hf' : Ignore.Follows engine?' (engine?.map Engine.rules) := by
    rw [hrules]
    exact Ignore.follows_of_reachable hengine'
  have hpruned := build_eq_map_prune (t := t) hf hf' hnames (unrestricted t) rfl
    (fun _ => shows_unrestricted) (pruneAll_nodesAmong t _ [] directory)
  refine ⟨hpruned, ?_, ?_⟩
  · intro tree full htree hfull
    have htold : ∀ fault, (build (unrestricted t) fs engine?' directory).result ≠
        .error (.unknown fault) := by
      intro fault
      rw [hfull]
      nofun
    have hsame := hpruned htold
    rw [htree, hfull, Except.map] at hsame
    obtain rfl := Except.ok.inj hsame
    exact Node.preorder_prune_sublist (keeps t) 0 full
  · intro m hm
    exact build_eq_map_prune (t := { t with maxDepth := some m }) hf hf' hnames t rfl
      (fun _ => shows_of_shows_within hm) (pruneAll_isWithin_nodesAmong t hm _ directory)

/-- A project with a text, a directory of products, and directories within each other. -/
def nestedSystem : FileSystem :=
  .ofWorkingDirectory ["work"]
    [.directory "project" false none
      [.file "read.me" false ⟨⟨#[104]⟩, none, none⟩,
        .directory "build" false none [.file "out.txt" false ⟨⟨#[107]⟩, none, none⟩],
        .directory "src" false none
          [.file "main.txt" false ⟨⟨#[105]⟩, none, none⟩,
            .directory "inner" false none [.file "deep.txt" false ⟨⟨#[106]⟩, none, none⟩]]]]

/-- With depth one the tree ends above `src/inner`, as it does if the tree of any depth is cut,
which an engine builds that was asked before. -/
theorem build_prunes_nestedSystem :
    let t := TreeSettings.default
    let engine? := some (Engine.ofHistory true [.add (.list [some "build/"])])
    let engine?' := some (Engine.ofHistory true
      [.add (.list [some "build/"]), .ignores "src" true])
    ((build { t with maxDepth := some 1 } nestedSystem engine? "project").result.map fun tree =>
        tree.preorder.map Label.path) = .ok [".", "read.me", "src", "src/main.txt"] ∧
      (build { t with maxDepth := some 1 } nestedSystem engine? "project").result =
        (build t nestedSystem engine?' "project").result.map (Node.prune (isWithin 1) 0) := by
  intro t engine? engine?'
  have hengine : ∀ e ∈ engine?, e.Reachable := fun e he => ⟨_, _, (Option.some.inj he).symm⟩
  have hengine' : ∀ e ∈ engine?', e.Reachable := fun e he => ⟨_, _, (Option.some.inj he).symm⟩
  have hrules : engine?.map Engine.rules = engine?'.map Engine.rules := by
    simp only [engine?, engine?', Option.map_some, (Engine.ofHistory_spec _ _).1]
    rfl
  have hbuilt : (build t nestedSystem engine?' "project").result.toOption.isSome = true := by
    decide +kernel
  have htold : ∀ fault, (build t nestedSystem engine?' "project").result ≠
      .error (.unknown fault) := by
    intro fault hfault
    rw [hfault] at hbuilt
    cases hbuilt
  refine ⟨by decide +kernel, ?_⟩
  exact (build_prunes t hengine hengine' hrules (by decide) "project").2.2 1 (by decide) htold

end SourceSnapshot.Tree
