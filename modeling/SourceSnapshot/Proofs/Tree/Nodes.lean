import SourceSnapshot.Proofs.Traversal
import SourceSnapshot.Tree.Build

/-!
# Nodes without memory

The nodes of a tree, told from the rules alone and as if nothing stopped its building. The walk that
builds a tree finds exactly these nodes, whatever its engine remembers, unless it comes by an entry
of which nothing can be told and which it would show. So a tree is built of every directory that can
be listed and has no such entry.
-/

namespace SourceSnapshot.Tree

open FileSystem (Entry IsName childPath)
open Ignore (Engine Exclusion Follows Rule)
open Traversal (Failure Walk)

/-- The node of an entry that nothing is below, from the rules alone. -/
def leafNodes (t : TreeSettings) (rules? : Option (List Rule)) (above : List String)
    (name : String) (kind : Kind) : List Node :=
  if Exclusion.byRules? t.includeDotFiles rules? above name false = none ∧ t.includeFiles = true
  then [.leaf ⟨name, "/".intercalate (above ++ [name]), kind, []⟩]
  else []

/-- Whether the directories at a depth are shown. -/
def showsDirectoriesAt (t : TreeSettings) (depth : Nat) : Bool :=
  !t.maxDepth.any (· < depth) && t.includeDirectories

mutual

/-- The nodes of an entry and of what is below it, from the rules alone and as if nothing stopped
the building. -/
def nodesOf (t : TreeSettings) (rules? : Option (List Rule)) (above : List String)
    (callAbove : String) : Entry → List Node
  | .file name _ _ => leafNodes t rules? above name .file
  | .link name _ _ => leafNodes t rules? above name .link
  | .pipe name _ => leafNodes t rules? above name .file
  | .unknown name _ => leafNodes t rules? above name .file
  | .directory name true _ _ => leafNodes t rules? above name .file
  | .directory name false listFault entries =>
    let path := "/".intercalate (above ++ [name])
    let callPath := childPath callAbove name
    if Exclusion.byRules? t.includeDotFiles rules? above name true = none ∧
        showsDirectoriesAt t (above.length + 1) = true then
      match listFault with
      | some errno => [.branch ⟨name, path, .directory, listingFacts ⟨errno, callPath⟩⟩ []]
      | none =>
        [.branch ⟨name, path, .directory, []⟩
          (nodesAmong t rules? (above ++ [name]) callPath entries)]
    else []

/-- The nodes of several entries in order. -/
def nodesAmong (t : TreeSettings) (rules? : Option (List Rule)) (above : List String)
    (callAbove : String) : List Entry → List Node
  | [] => []
  | entry :: rest =>
    nodesOf t rules? above callAbove entry ++ nodesAmong t rules? above callAbove rest

end

mutual

/-- What stops the building of a tree at an entry or below it, from the rules alone. -/
def stopOf? (t : TreeSettings) (rules? : Option (List Rule)) (above : List String)
    (callAbove : String) : Entry → Option Failure
  | .unknown name fault =>
    if Exclusion.byRules? t.includeDotFiles rules? above name false = none ∧ t.includeFiles = true
    then some (.unknown ⟨fault.errno, childPath callAbove name⟩)
    else none
  | .directory name false none entries =>
    if Exclusion.byRules? t.includeDotFiles rules? above name true = none ∧
        showsDirectoriesAt t (above.length + 1) = true then
      stopAmong? t rules? (above ++ [name]) (childPath callAbove name) entries
    else none
  | _ => none

/-- What stops the building of a tree first, at or below several entries. -/
def stopAmong? (t : TreeSettings) (rules? : Option (List Rule)) (above : List String)
    (callAbove : String) : List Entry → Option Failure
  | [] => none
  | entry :: rest =>
    (stopOf? t rules? above callAbove entry).or (stopAmong? t rules? above callAbove rest)

end

/-- A directory stops the building if it is shown and listed, and something below it does. -/
theorem stopOf?_directory (t : TreeSettings) (rules? : Option (List Rule)) (above : List String)
    (callAbove name : String) (listFault : Option FileSystem.Errno) (entries : List Entry) :
    stopOf? t rules? above callAbove (.directory name false listFault entries) =
      if Exclusion.byRules? t.includeDotFiles rules? above name true = none ∧
          showsDirectoriesAt t (above.length + 1) = true ∧ listFault = none then
        stopAmong? t rules? (above ++ [name]) (childPath callAbove name) entries
      else none := by
  cases listFault with
  | none => simp only [stopOf?, and_true]
  | some errno =>
    rw [if_neg fun h => Option.some_ne_none errno h.2.2]
    rfl

/-- The walk is stopped by this, or else finds these nodes, and its engine follows the rules. -/
structure Grows (rules? : Option (List Rule)) (walk : Walk Node) (nodes : List Node)
    (stop? : Option Failure) : Prop where
  follows : Follows walk.engine? rules?
  stop : walk.stop? = stop?
  found : stop? = none → walk.found = nodes

section

variable {rules? : Option (List Rule)}

theorem grows_of_found {walk : Walk Node} {nodes : List Node} (h : Follows walk.engine? rules?)
    (hstop : walk.stop? = none) (hfound : walk.found = nodes) : Grows rules? walk nodes none :=
  ⟨h, hstop, fun _ => hfound⟩

/-- A walk that goes on with the next one finds the nodes of both. -/
theorem Grows.andThen {first : Walk Node} {next : Option Engine → Walk Node}
    {nodes more : List Node} {stop? stop?' : Option Failure} (h : Grows rules? first nodes stop?)
    (hnext : ∀ engine?, Follows engine? rules? → Grows rules? (next engine?) more stop?') :
    Grows rules? (first.andThen next) (nodes ++ more) (stop?.or stop?') := by
  cases stop? with
  | some failure =>
    rw [Walk.andThen_of_some h.stop, Option.some_or]
    exact ⟨h.follows, h.stop, nofun⟩
  | none =>
    rw [Walk.andThen_of_none h.stop, Option.none_or]
    have hlast := hnext first.engine? h.follows
    exact ⟨hlast.follows, hlast.stop, fun hnone =>
      congrArg₂ (· ++ ·) (h.found rfl) (hlast.found hnone)⟩

theorem Grows.branchOf {below : Walk Node} {nodes : List Node} {stop? : Option Failure}
    (h : Grows rules? below nodes stop?) (label : Label) :
    Grows rules? (branchOf label below) [.branch label nodes] stop? :=
  ⟨h.follows, h.stop, fun hnone =>
    congrArg (fun children => [Node.branch label children]) (h.found hnone)⟩

/-- An entry that nothing is below grows its one node, or none. -/
theorem growLeaf_grows {engine? : Option Engine} (hf : Follows engine? rules?)
    {above : List String} {name : String} (h : ∀ n ∈ above ++ [name], IsName n)
    (t : TreeSettings) (kind : Kind) :
    Grows rules? (growLeaf t ("/".intercalate above) name (.ok kind) engine?)
      (leafNodes t rules? above name kind) none := by
  have hpath := FileSystem.intercalate_append_singleton (List.forall_mem_append.mp h).1 name
  rw [growLeaf, leafNodes, ← hpath]
  refine Traversal.decideEntry_cases (motive := (Grows rules? · _ _)) hf h ?_ ?_
  · intro exclusion next? hnext hrules
    simp only [hrules, reduceCtorEq, false_and, if_false]
    exact grows_of_found hnext rfl rfl
  · intro next? hnext hrules
    simp only [hrules, true_and]
    cases t.includeFiles with
    | true => exact grows_of_found hnext rfl rfl
    | false => exact grows_of_found hnext rfl rfl

/-- An entry of which nothing can be told stops the walk if its node is wanted. -/
theorem growLeaf_grows_unknown {engine? : Option Engine} (hf : Follows engine? rules?)
    {above : List String} {name : String} (h : ∀ n ∈ above ++ [name], IsName n)
    (t : TreeSettings) (callAbove : String) (fault : FileSystem.EntryFault) :
    Grows rules? (growLeaf t ("/".intercalate above) name
        (.error ⟨fault.errno, childPath callAbove name⟩) engine?)
      (leafNodes t rules? above name .file)
      (stopOf? t rules? above callAbove (.unknown name fault)) := by
  have hpath := FileSystem.intercalate_append_singleton (List.forall_mem_append.mp h).1 name
  rw [growLeaf, leafNodes, stopOf?, ← hpath]
  refine Traversal.decideEntry_cases (motive := (Grows rules? · _ _)) hf h ?_ ?_
  · intro exclusion next? hnext hrules
    simp only [hrules, reduceCtorEq, false_and, if_false]
    exact grows_of_found hnext rfl rfl
  · intro next? hnext hrules
    simp only [hrules, true_and]
    cases t.includeFiles with
    | true => exact ⟨hnext, rfl, nofun⟩
    | false => exact grows_of_found hnext rfl rfl

mutual

/-- The walk that grows an entry finds the nodes that follow from the rules. -/
theorem grow_grows {engine? : Option Engine} (hf : Follows engine? rules?) {above : List String}
    (h : ∀ n ∈ above, IsName n) (t : TreeSettings) (callAbove : String) (entry : Entry)
    (hentry : entry.isWellNamed = true) :
    Grows rules? (grow t ("/".intercalate above) callAbove (above.length + 1) engine? entry)
      (nodesOf t rules? above callAbove entry) (stopOf? t rules? above callAbove entry) := by
  have hnames := Entry.forall_isName_append h hentry
  match entry with
  | .file name _ _ =>
    rw [grow, nodesOf]
    exact growLeaf_grows hf hnames t .file
  | .link name _ _ =>
    rw [grow, nodesOf]
    exact growLeaf_grows hf hnames t .link
  | .pipe name _ =>
    rw [grow, nodesOf]
    exact growLeaf_grows hf hnames t .file
  | .unknown name fault =>
    rw [grow, nodesOf]
    exact growLeaf_grows_unknown hf hnames t callAbove fault
  | .directory name true _ _ =>
    rw [grow, nodesOf]
    exact growLeaf_grows hf hnames t .file
  | .directory name false listFault entries =>
    simp only [Entry.name] at hnames
    simp only [grow, nodesOf, stopOf?_directory,
      ← FileSystem.intercalate_append_singleton h name]
    refine Traversal.decideEntry_cases (motive := (Grows rules? · _ _)) hf hnames ?_ ?_
    · intro exclusion next? hnext hrules
      simp only [hrules, reduceCtorEq, false_and, if_false]
      exact grows_of_found hnext rfl rfl
    · intro next? hnext hrules
      simp only [hrules, true_and, showsDirectoriesAt]
      cases t.maxDepth.any (· < above.length + 1) with
      | true => exact grows_of_found hnext rfl rfl
      | false =>
        cases t.includeDirectories with
        | false => exact grows_of_found hnext rfl rfl
        | true =>
          cases listFault with
          | some errno => exact grows_of_found hnext rfl rfl
          | none =>
            simp only [Entry.isWellNamed, Bool.and_eq_true] at hentry
            have hbelow := growAll_grows hnext hnames t (childPath callAbove name) entries hentry.2
            rw [List.length_append, List.length_singleton] at hbelow
            exact hbelow.branchOf _
termination_by structural entry

/-- The walk that grows several entries finds the nodes that follow from the rules. -/
theorem growAll_grows {engine? : Option Engine} (hf : Follows engine? rules?)
    {above : List String} (h : ∀ n ∈ above, IsName n) (t : TreeSettings) (callAbove : String)
    (entries : List Entry) (hentries : Entry.areWellNamed entries = true) :
    Grows rules? (growAll t ("/".intercalate above) callAbove (above.length + 1) engine? entries)
      (nodesAmong t rules? above callAbove entries)
      (stopAmong? t rules? above callAbove entries) := by
  match entries with
  | [] => exact grows_of_found hf rfl rfl
  | entry :: rest =>
    simp only [Entry.areWellNamed, Bool.and_eq_true] at hentries
    rw [growAll, nodesAmong, stopAmong?]
    exact (grow_grows hf h t callAbove entry hentries.1).andThen fun _ hnext =>
      growAll_grows hnext h t callAbove rest hentries.2
termination_by structural entries

end

/-- The tree of a directory that can be listed has the nodes that follow from the rules, unless an
entry stops the building. -/
theorem build_result_of_list {engine? : Option Engine} (hf : Follows engine? rules?)
    {fs : FileSystem} (hfs : fs.IsWellNamed) (t : TreeSettings)
    {directory : String} {entries : List Entry} (hlist : fs.list directory = .ok entries) :
    (build t fs engine? directory).result =
      match stopAmong? t rules? [] directory entries with
      | some failure => .error failure
      | none => .ok (.branch ⟨fs.rootName directory, ".", .directory, []⟩
          (nodesAmong t rules? [] directory entries)) := by
  have hgrows := growAll_grows hf (List.forall_mem_nil _) t directory entries
    (FileSystem.areWellNamed_of_list hfs hlist)
  rw [String.intercalate_nil] at hgrows
  rw [build, Traversal.run_result_of_list hlist]
  have hstop : (growAll t "" directory 1 engine? entries).stop? =
      stopAmong? t rules? [] directory entries := hgrows.stop
  rw [hstop]
  cases hfirst : stopAmong? t rules? [] directory entries with
  | some failure => rfl
  | none =>
    have hfound : (growAll t "" directory 1 engine? entries).found =
        nodesAmong t rules? [] directory entries := hgrows.found hfirst
    simp only [hfound]

/-- A tree is built of a directory if it can be listed and no entry stops the building. It has the
nodes that follow from the rules. -/
theorem build_result_eq_ok_iff {engine? : Option Engine} (hf : Follows engine? rules?)
    {fs : FileSystem} (hfs : fs.IsWellNamed) {t : TreeSettings}
    {directory : String} {tree : Node} :
    (build t fs engine? directory).result = .ok tree ↔
      ∃ entries, fs.list directory = .ok entries ∧
        stopAmong? t rules? [] directory entries = none ∧
        .branch ⟨fs.rootName directory, ".", .directory, []⟩
          (nodesAmong t rules? [] directory entries) = tree := by
  constructor
  · intro hbuild
    obtain ⟨entries, hlist, -, -⟩ := Traversal.run_result_eq_ok_iff.mp hbuild
    rw [build_result_of_list hf hfs t hlist] at hbuild
    refine ⟨entries, hlist, ?_⟩
    cases hstop : stopAmong? t rules? [] directory entries with
    | some failure =>
      rw [hstop] at hbuild
      cases hbuild
    | none =>
      rw [hstop] at hbuild
      exact ⟨rfl, Except.ok.inj hbuild⟩
  · rintro ⟨entries, hlist, hstop, rfl⟩
    rw [build_result_of_list hf hfs t hlist, hstop]

end

end SourceSnapshot.Tree
