import SourceSnapshot.Proofs.Scan.Agreement
import SourceSnapshot.Proofs.Scan.Encounters
import SourceSnapshot.Proofs.Tree.Agreement
import SourceSnapshot.Proofs.Tree.Encounters

/-!
# Scans beside trees

A scan and a tree of one directory are two views of the same encounters. What the scan takes stands
in the tree, in the same order; what the tree shows as a file the scan accounts for; and both know
the same directories that cannot be listed, with the same messages.
-/

namespace SourceSnapshot.Snapshot

open FileSystem (Entry IsName childPath steps)
open Ignore (Engine Exclusion Rule)
open Scan (RecordedError outcomeAt visitAt)
open Traversal (Encounter encountersAmong)
open SourceSnapshot.Tree (Label labelAt shows)

/-- Whether a path has at most as many slashes as a tree has levels below its root. -/
def isWithin (t : TreeSettings) (path : String) : Bool :=
  t.maxDepth.all fun depth => path.toList.count '/' ≤ depth

/-- The error that a directory is labelled with, as a scan would record it. -/
def listingError? (label : Label) : Option RecordedError :=
  match label.kind, label.facts.lookup "error" with
  | .directory, some (.string reason) => some ⟨label.path, reason⟩
  | _, _ => none

/-- The result of a scan and a tree of a directory with these entries are views of the same. -/
structure Corresponds (s : ScanSettings) (t : TreeSettings) (directory : String)
    (entries : List Entry) (result : Scan.Result) (tree : Tree.Node) : Prop where
  /-- The files that were taken, down to the depth of the tree, stand in it as files in the same
  order. -/
  files : ((result.files.map FileText.path).filter (isWithin t)).Sublist
    ((tree.preorder.filter fun label => label.kind = .file).map Label.path)
  /-- Nothing deeper stands in the tree. -/
  depth : ∀ label ∈ tree.preorder, isWithin t label.path = true
  /-- A regular file that stands in the tree was taken, has an error recorded, is over the size
  limit, or counts as binary where such files are not wanted. -/
  accounted : ∀ label ∈ tree.preorder, label.kind = .file → ∀ name obscure data,
    Entry.atPath? entries label.path = some (.file name obscure data) →
      let callPath := (steps label.path).foldl childPath directory
      label.path ∈ result.files.map FileText.path ∨
        label.path ∈ result.stats.errors.map RecordedError.path ∨
        (data.sizeFault = none ∧ s.maxFileSize < data.size) ∨
        (s.includeBinaryFiles = false ∧
          Scan.isBinary s callPath (Scan.opened callPath data) = .ok true)
  /-- In a tree of any depth, the directories that could not be listed are labelled with the errors
  that the scan recorded of directories, in the same order. -/
  errors : t.maxDepth = none →
    result.stats.errors.filter (fun error =>
        (Entry.atPath? entries error.path).any Entry.isKnownDirectory) =
      tree.preorder.filterMap listingError?

/-- Where directories are shown, they are shown down to the greatest depth. -/
theorem reaches_eq {t : TreeSettings} (hdirectories : t.includeDirectories = true) (depth : Nat) :
    Tree.reaches t depth = t.maxDepth.all fun most => depth ≤ most := by
  cases hmax : t.maxDepth with
  | none => simp [Tree.reaches, Tree.showsDirectoriesAt, hmax, hdirectories]
  | some most =>
    rw [Tree.reaches, Tree.showsDirectoriesAt, hmax, hdirectories, Bool.eq_iff_iff]
    simp
    omega

/-- The slashes of the path of an encounter tell how many names stand before the last. -/
theorem isWithin_path {t : TreeSettings} {c : Encounter} (h : ∀ n ∈ c.names, IsName n)
    (hne : c.names ≠ []) :
    isWithin t c.path = t.maxDepth.all fun depth => c.names.length - 1 ≤ depth := by
  obtain ⟨first, rest, hnames⟩ := List.exists_cons_of_ne_nil hne
  rw [hnames] at h
  rw [isWithin, Encounter.path, hnames, FileSystem.count_slash_intercalate h, List.length_cons,
    Nat.add_sub_cancel]

/-- What a tree shows is not too deep. -/
theorem isWithin_of_shows {t : TreeSettings} (hdirectories : t.includeDirectories = true)
    {c : Encounter} (h : ∀ n ∈ c.names, IsName n) (hne : c.names ≠ []) (hshows : shows t c = true) :
    isWithin t c.path = true := by
  rw [shows, Bool.and_eq_true, Bool.and_eq_true] at hshows
  have hle : c.names.length - 1 ≤ Tree.depthOf c := by
    rw [Tree.depthOf]
    split <;> omega
  rw [isWithin_path h hne, ← reaches_eq hdirectories]
  exact Tree.reaches_of_le hshows.1.2 hle

/-- A regular file that is not left out and not too deep is shown. -/
theorem shows_of_file {t : TreeSettings} (hfiles : t.includeFiles = true)
    (hdirectories : t.includeDirectories = true) {c : Encounter} (h : ∀ n ∈ c.names, IsName n)
    (hne : c.names ≠ []) (hkept : c.exclusion? = none) (hfile : c.entry.isKnownDirectory = false)
    (hwithin : isWithin t c.path = true) : shows t c = true := by
  rw [isWithin_path h hne, ← reaches_eq hdirectories] at hwithin
  rw [shows, Tree.depthOf, hkept, hfile, if_neg Bool.false_ne_true, hwithin, hfiles]
  rfl

/-- The error that a scan records of an encounter with a directory is the one that a tree labels the
directory with. -/
theorem error?_visitAt {t : TreeSettings} (hfiles : t.includeFiles = true)
    (hdirectories : t.includeDirectories = true) (hmax : t.maxDepth = none) (s : ScanSettings)
    (directory : String) (c : Encounter) :
    (if c.entry.isKnownDirectory then (visitAt s directory c).error? else none) =
      if shows t c then listingError? (labelAt directory c) else none := by
  obtain ⟨names, entry, exclusion?⟩ := c
  have hreaches : ∀ depth, Tree.reaches t depth = true := by
    intro depth
    rw [reaches_eq hdirectories, hmax]
    rfl
  cases exclusion? with
  | some exclusion => exact ite_self _
  | none =>
    have hshows : shows t ⟨names, entry, none⟩ = true := by simp [shows, hreaches, hfiles]
    rw [hshows, if_pos rfl]
    cases entry with
    | file | link | pipe | unknown => rfl
    | directory name obscure listFault entries =>
      cases obscure with
      | true => rfl
      | false =>
        cases listFault with
        | none => rfl
        | some errno => rfl

/-- What stops the building of a tree stops a scan as well. -/
theorem stop?_of_stopAt? {t : TreeSettings} {directory : String} {c : Encounter}
    {failure : Traversal.Failure} (h : Tree.stopAt? t directory c = some failure)
    (s : ScanSettings) : (outcomeAt s directory c).stop? = some failure := by
  obtain ⟨hshows, name, fault, hentry, rfl⟩ := Tree.of_stopAt?_eq_some h
  rw [shows, Bool.and_eq_true, Bool.and_eq_true, Option.isNone_iff_eq_none] at hshows
  rw [outcomeAt, hshows.1.1, hentry]
  rfl

/-- What passes a stronger test of the members stands among what passes a weaker one. -/
theorem filter_sublist_filter {α : Type} {p q : α → Bool} {l : List α}
    (h : ∀ a ∈ l, p a = true → q a = true) : (l.filter p).Sublist (l.filter q) := by
  have hboth : l.filter p = (l.filter q).filter p := by
    rw [List.filter_filter]
    refine List.filter_congr fun a ha => ?_
    cases hp : p a with
    | false => rfl
    | true => rw [h a ha hp, Bool.true_and]
  rw [hboth]
  exact List.filter_sublist

/-- The views of the same encounters correspond. -/
theorem corresponds_ofVisits {s : ScanSettings} {t : TreeSettings}
    (hfiles : t.includeFiles = true) (hdirectories : t.includeDirectories = true)
    {rules? : Option (List Rule)} {directory : String} {entries : List Entry}
    (hnames : Entry.areWellNamed entries = true) (hdistinct : Entry.areDistinct entries = true)
    {encounters : List Encounter}
    (hencounters : encounters = encountersAmong s.includeDotFiles rules? [] entries)
    (hstop : ∀ c ∈ encounters, (outcomeAt s directory c).stop? = none) {tree : Tree.Node}
    {root : String} (htree : tree.preorder = ⟨root, ".", .directory, []⟩ ::
      (encounters.filter (shows t)).map (labelAt directory)) :
    Corresponds s t directory entries (.ofVisits (encounters.map (visitAt s directory))) tree := by
  -- As names are distinct, the path of an encounter leads back to the entry that is met.
  have hmem : ∀ c ∈ encounters, (∀ n ∈ c.names, IsName n) ∧ c.names ≠ [] ∧
      Entry.atPath? entries c.path = some c.entry := by
    intro c hc
    rw [hencounters] at hc
    obtain ⟨hall, first, below, heq, -⟩ :=
      Traversal.mem_encountersAmong (List.forall_mem_nil _) entries hnames hc
    have hne : c.names ≠ [] := heq ▸ List.cons_ne_nil first below
    exact ⟨hall, hne, Traversal.atPath?_of_mem_encountersAmong hnames hdistinct hc⟩
  have hlabels : ∀ label ∈ tree.preorder, label = ⟨root, ".", .directory, []⟩ ∨
      ∃ c ∈ encounters, shows t c = true ∧ label = labelAt directory c := by
    intro label hlabel
    rw [htree, List.mem_cons, List.mem_map] at hlabel
    refine hlabel.imp_right ?_
    rintro ⟨c, hc, rfl⟩
    exact ⟨c, (List.mem_filter.mp hc).1, (List.mem_filter.mp hc).2, rfl⟩
  refine ⟨?_, ?_, ?_, ?_⟩
  · have hkept : ∀ c ∈ encounters, (outcomeAt s directory c).content?.isSome = true →
        isWithin t c.path = true → shows t c = true ∧ (labelAt directory c).kind = .file := by
      intro c hc htaken hwithin
      obtain ⟨hall, hne, -⟩ := hmem c hc
      obtain ⟨hnone, name, obscure, data, hentry⟩ := Scan.entry_of_isSome_content? htaken
      refine ⟨shows_of_file hfiles hdirectories hall hne hnone (by rw [hentry]; rfl) hwithin, ?_⟩
      rw [labelAt, hentry]
      rfl
    have hsub : (encounters.filter fun c =>
          isWithin t c.path && (outcomeAt s directory c).content?.isSome).Sublist
        (encounters.filter fun c => decide ((labelAt directory c).kind = .file) && shows t c) := by
      refine filter_sublist_filter fun c hc h => ?_
      rw [Bool.and_eq_true] at h
      obtain ⟨hshows, hkind⟩ := hkept c hc h.2 h.1
      rw [hkind, hshows]
      rfl
    rw [Scan.map_path_files_ofVisits, htree, List.filter_cons_of_neg (by simp), List.filter_map,
      List.filter_map, List.map_map, List.filter_filter, List.filter_filter]
    exact hsub.map Encounter.path
  · intro label hlabel
    rcases hlabels label hlabel with rfl | ⟨c, hc, hshows, rfl⟩
    · rw [isWithin]
      cases t.maxDepth <;> simp
    · exact isWithin_of_shows hdirectories (hmem c hc).1 (hmem c hc).2.1 hshows
  · intro label hlabel hkind name obscure data hdata
    rcases hlabels label hlabel with rfl | ⟨c, hc, hshows, rfl⟩
    · cases hkind
    · obtain ⟨hall, hne, hentry⟩ := hmem c hc
      obtain hfile : c.entry = .file name obscure data := Option.some.inj (hentry.symm.trans hdata)
      have hcall : (steps c.path).foldl childPath directory = c.callPath directory := by
        rw [Encounter.path, FileSystem.steps_intercalate hall hne, Encounter.callPath]
      have houtcome : outcomeAt s directory c = .ofFile s (c.callPath directory) data := by
        rw [shows, Bool.and_eq_true, Bool.and_eq_true, Option.isNone_iff_eq_none] at hshows
        rw [outcomeAt, hshows.1.1, hfile]
      have hcases := Scan.ofFile_cases s (c.callPath directory) data
      rw [← houtcome, hstop c hc] at hcases
      have hpath : (labelAt directory c).path = c.path := rfl
      simp only [hpath, hcall]
      rw [Scan.map_path_files_ofVisits, Scan.map_path_errors_ofVisits]
      rcases hcases with htaken | herror | hstopped | hlarge | hbinary
      · exact Or.inl (List.mem_map_of_mem (List.mem_filter.mpr ⟨hc, htaken⟩))
      · exact Or.inr (Or.inl (List.mem_map_of_mem (List.mem_filter.mpr ⟨hc, herror⟩)))
      · cases hstopped
      · exact Or.inr (Or.inr (Or.inl hlarge))
      · exact Or.inr (Or.inr (Or.inr hbinary))
  · -- Entry by entry, the scan and the tree know the same error of a directory, or none.
    intro hmax
    have hroot : listingError? ⟨root, ".", .directory, []⟩ = none := rfl
    rw [htree, List.filterMap_cons_none hroot, List.filterMap_map, List.filterMap_filter]
    refine (congrArg (List.filter _) List.filterMap_map).trans ?_
    rw [List.filter_filterMap]
    refine List.filterMap_congr fun c hc => ?_
    rw [Function.comp_apply, Function.comp_apply, ← error?_visitAt hfiles hdirectories hmax s,
      Scan.Visit.error?]
    cases hreason : (visitAt s directory c).outcome.error? with
    | none => exact (ite_self none).symm
    | some reason =>
      have hentry : Entry.atPath? entries (visitAt s directory c).path = some c.entry :=
        (hmem c hc).2.2
      rw [Option.map_some, Option.filter_some, hentry, Option.any_some]

/-- Whenever a scan returns, a tree of the same directory under the same policy on names is built as
well, with the engine as it was before the scan or as the scan leaves it behind, and a scan with the
engine that the tree leaves behind returns the same again. The result and the tree correspond. -/
theorem scan_corresponds_to_tree {s : ScanSettings} {t : TreeSettings}
    (hdot : t.includeDotFiles = s.includeDotFiles) (hfiles : t.includeFiles = true)
    (hdirectories : t.includeDirectories = true) {engine? : Option Engine}
    (hengine : ∀ e ∈ engine?, e.Reachable) {fs : FileSystem}
    (hfs : fs.IsWellFormed) {directory : String} {result : Scan.Result}
    (hscan : (Scan.run s fs engine? directory).result = .ok result) :
    ∃ entries tree, fs.list directory = .ok entries ∧
      (Tree.build t fs engine? directory).result = .ok tree ∧
      (Tree.build t fs (Scan.run s fs engine? directory).engine? directory).result = .ok tree ∧
      (Scan.run s fs (Tree.build t fs engine? directory).engine? directory).result = .ok result ∧
      Corresponds s t directory entries result tree := by
  have hf := Ignore.follows_of_reachable hengine
  obtain ⟨entries, hlist, hstop, rfl⟩ :=
    (Scan.run_result_eq_ok_iff_encounters hf hfs.toIsWellNamed).mp hscan
  have hentries := FileSystem.areWellNamed_of_list hfs.toIsWellNamed hlist
  have hgrown : Tree.stopAmong? t (engine?.map Engine.rules) [] directory entries = none := by
    rw [Tree.stopAmong?_eq_none_iff hentries, hdot]
    intro c hc
    cases hstopped : Tree.stopAt? t directory c with
    | none => rfl
    | some failure =>
      have hscanned := hstop c hc
      rw [stop?_of_stopAt? hstopped s] at hscanned
      cases hscanned
  have hbuild :=
    (Tree.build_result_eq_ok_iff hf hfs.toIsWellNamed).mpr ⟨entries, hlist, hgrown, rfl⟩
  have hrecalls := Ignore.recalls_of_reachable hengine
  have hscanned := Scan.run_agree_of_recalls s fs directory hrecalls hrecalls
  have hbuilt := Tree.build_agree_of_recalls t fs directory hrecalls hrecalls
  have hagain := Tree.build_agree_of_recalls t fs directory hscanned.left hrecalls
  have hrescanned := Scan.run_agree_of_recalls s fs directory hbuilt.left hrecalls
  refine ⟨entries, _, hlist, hbuild, hagain.result.trans hbuild, hrescanned.result.trans hscan, ?_⟩
  refine corresponds_ofVisits hfiles hdirectories hentries
    (FileSystem.areDistinct_of_list hfs hlist) rfl hstop
    (congrArg (List.cons _) ?_)
  have hlabels := Tree.preorderAll_nodesAmong t (engine?.map Engine.rules) directory
    (List.forall_mem_nil _) rfl entries hentries
  rwa [hdot] at hlabels

/-- A project with a directory of products, one that cannot be listed, a link, a file over four
bytes, and below another directory a text and a file that is binary. -/
def mixedSystem : FileSystem :=
  .ofWorkingDirectory ["work"]
    [.directory "project" false none
      [.directory "build" false none [.file "out.txt" false ⟨⟨#[107]⟩, none, none⟩],
        .directory "locked" false (some .accessDenied) [],
        .link "latest" false "build",
        .file "large" false ⟨⟨#[1, 2, 3, 4, 5]⟩, none, none⟩,
        .directory "src" false none
          [.file "image" false ⟨⟨#[1, 0]⟩, none, none⟩,
            .file "main.txt" false ⟨⟨#[104, 105]⟩, none, none⟩]]]

/-- With the rule `build/` and a limit of four bytes, the scan takes one text and records one
error. -/
theorem scan_corresponds_to_tree_mixedSystem :
    let s : ScanSettings := { ScanSettings.default with maxFileSize := 4 }
    let engine? := some (Engine.ofHistory true [.add (.list [some "build/"])])
    let result : Scan.Result := ⟨[⟨"src/main.txt", "hi"⟩],
      ⟨1, 5, 9, [⟨"locked", "[Errno 13] Permission denied: 'project/locked'"⟩]⟩⟩
    (Scan.run s mixedSystem engine? "project").result = .ok result ∧
      ∃ entries tree, mixedSystem.list "project" = .ok entries ∧
        (Tree.build .default mixedSystem engine? "project").result = .ok tree ∧
        (Tree.build .default mixedSystem (Scan.run s mixedSystem engine? "project").engine?
          "project").result = .ok tree ∧
        (Scan.run s mixedSystem (Tree.build .default mixedSystem engine? "project").engine?
          "project").result = .ok result ∧
        Corresponds s .default "project" entries result tree := by
  intro s engine? result
  have hscan : (Scan.run s mixedSystem engine? "project").result = .ok result := by decide +kernel
  have hengine : ∀ e ∈ engine?, e.Reachable := fun e he => ⟨_, _, (Option.some.inj he).symm⟩
  exact ⟨hscan, scan_corresponds_to_tree rfl rfl rfl hengine (by decide) hscan⟩

end SourceSnapshot.Snapshot
