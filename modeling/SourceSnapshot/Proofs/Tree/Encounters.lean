import SourceSnapshot.Proofs.Traversal.Encounters
import SourceSnapshot.Proofs.Tree.Nodes

/-!
# Labels as encounters

A tree shows those entries that a traversal comes by which are not left out, down to the greatest
depth, each with a label that follows from the encounter alone. In pre-order the labels stand as the
entries are met. What stops the building of a tree is the first of these entries of which nothing
can be told.
-/

namespace SourceSnapshot.Tree

open FileSystem (Entry IsName childPath)
open Ignore (Exclusion Rule)
open Traversal (Encounter Failure encountersOf encountersAmong)

mutual

/-- What a node and the nodes below it say about themselves, each before what is below it. -/
def Node.preorder : Node → List Label
  | .leaf label => [label]
  | .branch label children => label :: Node.preorderAll children

/-- What several nodes and the nodes below them say about themselves. -/
def Node.preorderAll : List Node → List Label
  | [] => []
  | node :: rest => node.preorder ++ Node.preorderAll rest

end

theorem Node.preorderAll_append (nodes more : List Node) :
    preorderAll (nodes ++ more) = preorderAll nodes ++ preorderAll more := by
  induction nodes with
  | nil => rfl
  | cons node rest ih => rw [List.cons_append, preorderAll, preorderAll, ih, List.append_assoc]

/-- What a node stands for that is made of an entry. -/
def kindOf : Entry → Kind
  | .directory _ false _ _ => .directory
  | .link _ _ _ => .link
  | _ => .file

/-- What is known besides about an entry with this call path: why it cannot be listed. -/
def factsOf (callPath : String) : Entry → List (String × Json)
  | .directory _ false (some errno) _ => listingFacts ⟨errno, callPath⟩
  | _ => []

/-- The label of an entry that a tree of a directory comes by. -/
def labelAt (directory : String) (c : Encounter) : Label :=
  ⟨c.entry.name, c.path, kindOf c.entry, factsOf (c.callPath directory) c.entry⟩

/-- The depth of the innermost directory on the way to an entry, which is the entry itself if it is
known to be a directory. -/
def depthOf (c : Encounter) : Nat :=
  if c.entry.isKnownDirectory then c.names.length else c.names.length - 1

/-- Whether the directories down to a depth are shown; the root always is. -/
def reaches (t : TreeSettings) (depth : Nat) : Bool :=
  depth == 0 || showsDirectoriesAt t depth

/-- Whether a tree shows an entry that it comes by. -/
def shows (t : TreeSettings) (c : Encounter) : Bool :=
  c.exclusion?.isNone && reaches t (depthOf c) && (c.entry.isKnownDirectory || t.includeFiles)

/-- What stops the building of a tree of a directory at an entry that it comes by. -/
def stopAt? (t : TreeSettings) (directory : String) (c : Encounter) : Option Failure :=
  match c.entry with
  | .unknown _ fault =>
    if shows t c then some (.unknown ⟨fault.errno, c.callPath directory⟩) else none
  | _ => none

/-- An entry stops the building only if it is shown and nothing can be told of it. -/
theorem of_stopAt?_eq_some {t : TreeSettings} {directory : String} {c : Encounter}
    {failure : Failure} (h : stopAt? t directory c = some failure) :
    shows t c = true ∧ ∃ name fault, c.entry = .unknown name fault ∧
      failure = .unknown ⟨fault.errno, c.callPath directory⟩ := by
  rw [stopAt?] at h
  split at h
  · rename_i name fault hentry
    split at h
    · rename_i hshown
      exact ⟨hshown, name, fault, hentry, (Option.some.inj h).symm⟩
    · cases h
  · cases h

/-- An entry that is not shown does not stop the building. -/
theorem stopAt?_eq_none {t : TreeSettings} {c : Encounter} (directory : String)
    (h : shows t c = false) : stopAt? t directory c = none := by
  cases hstop : stopAt? t directory c with
  | none => rfl
  | some failure =>
    rw [(of_stopAt?_eq_some hstop).1] at h
    cases h

/-- Where the directories at a depth are shown, so are those further up. -/
theorem reaches_of_le {t : TreeSettings} {depth depth' : Nat} (h : reaches t depth' = true)
    (hle : depth ≤ depth') : reaches t depth = true := by
  simp only [reaches, showsDirectoriesAt, Bool.or_eq_true, beq_iff_eq, Bool.and_eq_true,
    Bool.not_eq_true', Option.any_eq_false, decide_eq_false_iff_not] at h ⊢
  by_cases hzero : depth = 0
  · exact Or.inl hzero
  · have hdeep : depth' ≠ 0 := by omega
    obtain ⟨hmax, hdirectories⟩ := h.resolve_left hdeep
    exact Or.inr ⟨fun m hm => by have := hmax m hm; omega, hdirectories⟩

/-- Nothing below a directory is shown that is not itself shown. -/
theorem filter_shows_eq_nil (t : TreeSettings) (rules? : Option (List Rule)) {above : List String}
    (h : ∀ n ∈ above, IsName n) {entries : List Entry}
    (hentries : Entry.areWellNamed entries = true) (hdepth : reaches t above.length = false) :
    (encountersAmong t.includeDotFiles rules? above entries).filter (shows t) = [] := by
  rw [List.filter_eq_nil_iff]
  intro c hc hshown
  obtain ⟨-, first, below, hnames, -⟩ := Traversal.mem_encountersAmong h entries hentries hc
  have hlength : above.length ≤ depthOf c := by
    rw [depthOf, hnames, List.length_append, List.length_cons]
    split <;> omega
  simp only [shows, Bool.and_eq_true] at hshown
  rw [reaches_of_le hshown.1.2 hlength] at hdepth
  cases hdepth

/-- An entry is shown if the rules keep it, if the directories down to it are shown, and if it is
one of them or files are shown. -/
theorem shows_ofEntry (t : TreeSettings) (rules? : Option (List Rule)) (above : List String)
    (entry : Entry) :
    shows t (.ofEntry t.includeDotFiles rules? above entry) =
      ((Exclusion.byRules? t.includeDotFiles rules? above entry.name
          entry.isKnownDirectory).isNone &&
        reaches t (if entry.isKnownDirectory then above.length + 1 else above.length) &&
        (entry.isKnownDirectory || t.includeFiles)) := by
  rw [shows, depthOf, Encounter.ofEntry, List.length_append, List.length_singleton,
    Nat.add_sub_cancel]

/-- The label of an entry below the names above it. -/
theorem labelAt_ofEntry (directory : String) (includeDotNames : Bool)
    (rules? : Option (List Rule)) (above : List String) (entry : Entry) :
    labelAt directory (.ofEntry includeDotNames rules? above entry) =
      ⟨entry.name, "/".intercalate (above ++ [entry.name]), kindOf entry,
        factsOf (childPath (above.foldl childPath directory) entry.name) entry⟩ := by
  rw [labelAt, Encounter.path, Encounter.callPath, Encounter.ofEntry, List.foldl_append,
    List.foldl_cons, List.foldl_nil]

/-- An entry that nothing is below is shown with its label unless it is left out. -/
theorem preorderAll_leafNodes {t : TreeSettings} {rules? : Option (List Rule)}
    {above : List String} (hdepth : reaches t above.length = true) (directory : String)
    (entry : Entry) (hentry : entry.isKnownDirectory = false) :
    Node.preorderAll (leafNodes t rules? above entry.name (kindOf entry)) =
      ([Encounter.ofEntry t.includeDotFiles rules? above entry].filter (shows t)).map
        (labelAt directory) := by
  have hfacts : ∀ callPath, factsOf callPath entry = [] := by
    intro callPath
    cases entry with
    | directory name obscure listFault entries =>
      cases obscure with
      | true => rfl
      | false => cases hentry
    | file | link | pipe | unknown => rfl
  have hshows := shows_ofEntry t rules? above entry
  simp only [hentry, Bool.false_eq_true, if_false, hdepth, Bool.and_true, Bool.false_or] at hshows
  rw [leafNodes, List.filter_cons, hshows, List.filter_nil]
  cases Exclusion.byRules? t.includeDotFiles rules? above entry.name false with
  | some exclusion => rfl
  | none =>
    cases t.includeFiles with
    | false => rfl
    | true =>
      have hlabel := labelAt_ofEntry directory t.includeDotFiles rules? above entry
      rw [hfacts] at hlabel
      rw [if_pos ⟨rfl, rfl⟩]
      exact congrArg (fun label => [label]) hlabel.symm

mutual

/-- In pre-order the labels of the nodes of an entry stand as a traversal comes by what they
label. -/
theorem preorderAll_nodesOf (t : TreeSettings) (rules? : Option (List Rule)) (directory : String)
    {above : List String} (h : ∀ n ∈ above, IsName n) (hdepth : reaches t above.length = true)
    (entry : Entry) (hentry : entry.isWellNamed = true) :
    Node.preorderAll (nodesOf t rules? above (above.foldl childPath directory) entry) =
      ((encountersOf t.includeDotFiles rules? above entry).filter (shows t)).map
        (labelAt directory) := by
  have hnames := Entry.forall_isName_append h hentry
  match entry with
  | .file name obscure data =>
    exact preorderAll_leafNodes hdepth directory (.file name obscure data) rfl
  | .link name obscure target =>
    exact preorderAll_leafNodes hdepth directory (.link name obscure target) rfl
  | .pipe name obscure =>
    exact preorderAll_leafNodes hdepth directory (.pipe name obscure) rfl
  | .unknown name fault =>
    exact preorderAll_leafNodes hdepth directory (.unknown name fault) rfl
  | .directory name true listFault entries =>
    exact preorderAll_leafNodes hdepth directory (.directory name true listFault entries) rfl
  | .directory name false listFault entries =>
    simp only [Entry.isWellNamed, Bool.and_eq_true] at hentry
    simp only [Entry.name] at hnames
    have hreaches : reaches t (above ++ [name]).length =
        showsDirectoriesAt t (above.length + 1) := by
      rw [reaches, List.length_append, List.length_singleton]
      rfl
    have hshows := shows_ofEntry t rules? above (.directory name false listFault entries)
    have hlabel := labelAt_ofEntry directory t.includeDotFiles rules? above
      (.directory name false listFault entries)
    simp only [nodesOf, encountersOf, List.filter_cons, hshows]
    simp only [Entry.isKnownDirectory, Entry.name, Bool.not_false]
    cases Exclusion.byRules? t.includeDotFiles rules? above name true with
    | some exclusion => rfl
    | none =>
      cases hdeep : showsDirectoriesAt t (above.length + 1) with
      | false =>
        -- The tree leaves the directory out, so none of the encounters below it is shown.
        rw [hdeep] at hreaches
        have hbelow := filter_shows_eq_nil t rules? hnames hentry.2 hreaches
        cases listFault with
        | some errno => simp [reaches, hdeep, Node.preorderAll]
        | none => simp [reaches, hdeep, Node.preorderAll, hbelow]
      | true =>
        rw [hdeep] at hreaches
        have hbelow := preorderAll_nodesAmong t rules? directory hnames hreaches entries hentry.2
        rw [List.foldl_append, List.foldl_cons, List.foldl_nil] at hbelow
        cases listFault with
        | some errno =>
          simp [reaches, hdeep, Node.preorderAll, Node.preorder, hlabel, factsOf, kindOf,
            Entry.name]
        | none =>
          simp [reaches, hdeep, Node.preorderAll, Node.preorder, hlabel, factsOf, kindOf,
            Entry.name, hbelow]
termination_by structural entry

/-- In pre-order the labels of the nodes of several entries stand as a traversal comes by what they
label. -/
theorem preorderAll_nodesAmong (t : TreeSettings) (rules? : Option (List Rule))
    (directory : String) {above : List String} (h : ∀ n ∈ above, IsName n)
    (hdepth : reaches t above.length = true) (entries : List Entry)
    (hentries : Entry.areWellNamed entries = true) :
    Node.preorderAll (nodesAmong t rules? above (above.foldl childPath directory) entries) =
      ((encountersAmong t.includeDotFiles rules? above entries).filter (shows t)).map
        (labelAt directory) := by
  match entries with
  | [] => rfl
  | entry :: rest =>
    simp only [Entry.areWellNamed, Bool.and_eq_true] at hentries
    rw [nodesAmong, encountersAmong, Node.preorderAll_append, List.filter_append, List.map_append,
      preorderAll_nodesOf t rules? directory h hdepth entry hentries.1,
      preorderAll_nodesAmong t rules? directory h hdepth rest hentries.2]
termination_by structural entries

end

mutual

/-- What stops the building at an entry or below it is the first of the encounters there that
does. -/
theorem stopOf?_eq_findSome? (t : TreeSettings) (rules? : Option (List Rule)) (directory : String)
    {above : List String} (h : ∀ n ∈ above, IsName n) (hdepth : reaches t above.length = true)
    (entry : Entry) (hentry : entry.isWellNamed = true) :
    stopOf? t rules? above (above.foldl childPath directory) entry =
      (encountersOf t.includeDotFiles rules? above entry).findSome? (stopAt? t directory) := by
  have hnames := Entry.forall_isName_append h hentry
  match entry with
  | .file name obscure data => rfl
  | .link name obscure target => rfl
  | .pipe name obscure => rfl
  | .unknown name fault =>
    have hshows := shows_ofEntry t rules? above (.unknown name fault)
    simp only [Entry.isKnownDirectory, Bool.false_eq_true, if_false, hdepth, Bool.and_true,
      Bool.false_or, Entry.name] at hshows
    have hcall : (Encounter.ofEntry t.includeDotFiles rules? above (.unknown name fault)).callPath
        directory = childPath (above.foldl childPath directory) name := by
      rw [Encounter.callPath, Encounter.ofEntry, List.foldl_append, List.foldl_cons, List.foldl_nil,
        Entry.name]
    rw [stopOf?, encountersOf, List.findSome?_singleton, stopAt?, hcall]
    simp only [Encounter.ofEntry] at hshows ⊢
    simp only [hshows, Bool.and_eq_true, Option.isNone_iff_eq_none]
  | .directory name true listFault entries => rfl
  | .directory name false listFault entries =>
    simp only [Entry.isWellNamed, Bool.and_eq_true] at hentry
    simp only [Entry.name] at hnames
    have hreaches : reaches t (above ++ [name]).length =
        showsDirectoriesAt t (above.length + 1) := by
      rw [reaches, List.length_append, List.length_singleton]
      rfl
    rw [stopOf?_directory, encountersOf, List.findSome?_cons]
    change _ = List.findSome? (stopAt? t directory) _
    by_cases hentered : Exclusion.byRules? t.includeDotFiles rules? above name true = none ∧
        listFault = none
    · rw [if_pos hentered]
      cases hdeep : showsDirectoriesAt t (above.length + 1) with
      | false =>
        -- The tree leaves the directory out, so none of the encounters below it is shown.
        rw [if_neg (by simp), eq_comm, List.findSome?_eq_none_iff]
        intro c hc
        have hbelow := filter_shows_eq_nil t rules? hnames hentry.2 (hreaches.trans hdeep)
        exact stopAt?_eq_none directory
          (Bool.eq_false_iff.mpr (List.filter_eq_nil_iff.mp hbelow c hc))
      | true =>
        have hbelow := stopAmong?_eq_findSome? t rules? directory hnames (hreaches.trans hdeep)
          entries hentry.2
        rw [List.foldl_append, List.foldl_cons, List.foldl_nil] at hbelow
        rw [if_pos ⟨hentered.1, rfl, hentered.2⟩]
        exact hbelow
    · rw [if_neg hentered, if_neg fun h => hentered ⟨h.1, h.2.2⟩, List.findSome?_nil]
termination_by structural entry

/-- What stops the building first is the first of the encounters that does. -/
theorem stopAmong?_eq_findSome? (t : TreeSettings) (rules? : Option (List Rule))
    (directory : String) {above : List String} (h : ∀ n ∈ above, IsName n)
    (hdepth : reaches t above.length = true) (entries : List Entry)
    (hentries : Entry.areWellNamed entries = true) :
    stopAmong? t rules? above (above.foldl childPath directory) entries =
      (encountersAmong t.includeDotFiles rules? above entries).findSome?
        (stopAt? t directory) := by
  match entries with
  | [] => rfl
  | entry :: rest =>
    simp only [Entry.areWellNamed, Bool.and_eq_true] at hentries
    rw [stopAmong?, encountersAmong, List.findSome?_append,
      stopOf?_eq_findSome? t rules? directory h hdepth entry hentries.1,
      stopAmong?_eq_findSome? t rules? directory h hdepth rest hentries.2]
termination_by structural entries

end

/-- Nothing stops the building of a tree if none of the encounters from its root does. -/
theorem stopAmong?_eq_none_iff {t : TreeSettings} {rules? : Option (List Rule)}
    {directory : String} {entries : List Entry} (hentries : Entry.areWellNamed entries = true) :
    stopAmong? t rules? [] directory entries = none ↔
      ∀ c ∈ encountersAmong t.includeDotFiles rules? [] entries, stopAt? t directory c = none := by
  have hfirst := stopAmong?_eq_findSome? t rules? directory (List.forall_mem_nil _) rfl entries
    hentries
  rw [List.foldl_nil] at hfirst
  rw [hfirst, List.findSome?_eq_none_iff]

end SourceSnapshot.Tree
