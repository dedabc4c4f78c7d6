import SourceSnapshot.Proofs.Scan.Agreement
import SourceSnapshot.Proofs.Tree.Agreement
import SourceSnapshot.Tree.Layout

/-!
# Hidden material

A scan and a tree tell nothing about what they are not to show. Two roots may differ in the files
and below the directories that are left out, in the targets of links, and in the bytes of files that
are too large: the results are the same, and so is the failure if there is one.
-/

namespace SourceSnapshot.Snapshot

open FileSystem (Entry Errno FileData)
open FileSystem.Entry (Alike AllAlike)
open Ignore (Engine Exclusion)

/-- Which entries the engine and the policy on names that start with a dot leave out. -/
def excludes (includeDotNames : Bool) (engine? : Option Engine) : Entry.Hiding :=
  fun path name isDir =>
    ∃ exclusion, (Exclusion.of includeDotNames engine? path name isDir).1 = .ok (some exclusion)

/-- A fresh engine leaves out what an engine does that recalls it. -/
theorem leavesOut_excludes {engine? fresh? : Option Engine} (h : Ignore.Recalls engine? fresh?)
    (includeDotNames : Bool) :
    Exclusion.LeavesOut includeDotNames fresh? (excludes includeDotNames engine?) := by
  rintro path name isDir ⟨exclusion, hexcluded⟩ hkept
  obtain ⟨next?, -, hanswer⟩ := Exclusion.of_recalls h includeDotNames path name isDir
  rw [hanswer, hkept] at hexcluded
  cases hexcluded

/-- Two roots that a path leads to without a link, and that differ only in what is in files and
below directories that are left out, in the targets of links, and in the bytes of files over the
size limit, have the same scan, or the same failure of it, and the same tree, as data and as text.
-/
theorem scan_and_tree_eq_of_alike {s : ScanSettings} {t : TreeSettings}
    (hdot : t.includeDotFiles = s.includeDotFiles) {engine? : Option Engine}
    (hengine : ∀ e ∈ engine?, e.Reachable) {fs fs' : FileSystem}
    (hworking : fs.workingDirectory = fs'.workingDirectory) {directory : String}
    {location location' : List String} (hroot : fs.LeadsStraight directory location)
    (hroot' : fs'.LeadsStraight directory location') {fault : Option Errno}
    {entries entries' : List Entry} (hcontents : fs.contents? location = some (fault, entries))
    (hcontents' : fs'.contents? location' = some (fault, entries'))
    (halike : AllAlike (excludes s.includeDotFiles engine?) s.maxFileSize "" entries entries') :
    (Scan.run s fs engine? directory).result = (Scan.run s fs' engine? directory).result ∧
      (Tree.build t fs engine? directory).result.map (fun root => (root.layout, root)) =
        (Tree.build t fs' engine? directory).result.map fun root => (root.layout, root) := by
  have hrecalls := Ignore.recalls_of_reachable hengine
  have hlist := FileSystem.sameListing_of_leadsStraight hroot hroot' hcontents hcontents' halike
  have hhides := leavesOut_excludes hrecalls s.includeDotFiles
  constructor
  · exact (Scan.run_agree hhides hlist hrecalls hrecalls).result
  · rw [← hdot] at hhides hlist
    rw [(Tree.build_agree hhides hworking hlist hrecalls hrecalls).result]

/-- A project in which a directory of products, a file with a secret, the target of a link and a
file of five bytes are left open. -/
def projectWith (products : List Entry) (secret : FileData) (target : String) (five : FileData) :
    List Entry :=
  [.directory "build" false none products, .file "key.pem" false secret,
    .link "latest" false target, .file "image" false five,
    .file "main.txt" false ⟨⟨#[104, 105]⟩, none, none⟩]

/-- The file system that holds only such a project. -/
def systemWith (products : List Entry) (secret : FileData) (target : String) (five : FileData) :
    FileSystem :=
  .ofWorkingDirectory ["work"]
    [.directory "project" false none (projectWith products secret target five)]

/-- With the rules `build/` and `*.pem` and a limit of four bytes, neither an empty nor a nested
directory of products, neither secret, neither target and neither large file shows. -/
theorem scan_and_tree_eq_of_projects :
    let s : ScanSettings := { ScanSettings.default with maxFileSize := 4 }
    let engine := Engine.ofHistory true [.add (.list [some "build/", some "*.pem"])]
    let fs := systemWith [] ⟨⟨#[1]⟩, none, none⟩ "main.txt" ⟨⟨#[1, 2, 3, 4, 5]⟩, none, none⟩
    let fs' := systemWith [.directory "out" false (some .accessDenied) [], .pipe "log" false]
      ⟨⟨#[2, 2]⟩, some .inputOutput, none⟩ "latest" ⟨⟨#[5, 4, 3, 2, 1]⟩, none, none⟩
    (Scan.run s fs (some engine) "project").result =
        (Scan.run s fs' (some engine) "project").result ∧
      (Tree.build .default fs (some engine) "project").result.map
          (fun root => (root.layout, root)) =
        (Tree.build .default fs' (some engine) "project").result.map
          fun root => (root.layout, root) := by
  intro s engine fs fs'
  have hengine : ∀ e ∈ some engine, e.Reachable := fun e he => ⟨_, _, (Option.some.inj he).symm⟩
  have hworking : fs.workingDirectory = fs'.workingDirectory := rfl
  have hroot : fs.LeadsStraight "project" ["work", "project"] :=
    FileSystem.leadsStraight_name (by decide) (by decide) rfl
  have hroot' : fs'.LeadsStraight "project" ["work", "project"] :=
    FileSystem.leadsStraight_name (by decide) (by decide) rfl
  have hbuild : excludes s.includeDotFiles (some engine) "build" "build" true :=
    ⟨.rule, by decide +kernel⟩
  have hkey : excludes s.includeDotFiles (some engine) "key.pem" "key.pem" false :=
    ⟨.rule, by decide +kernel⟩
  have halike : AllAlike (excludes s.includeDotFiles (some engine)) s.maxFileSize ""
      (projectWith [] ⟨⟨#[1]⟩, none, none⟩ "main.txt" ⟨⟨#[1, 2, 3, 4, 5]⟩, none, none⟩)
      (projectWith [.directory "out" false (some .accessDenied) [], .pipe "log" false]
        ⟨⟨#[2, 2]⟩, some .inputOutput, none⟩ "latest" ⟨⟨#[5, 4, 3, 2, 1]⟩, none, none⟩) := by
    refine .cons _ _ _ _ _ (.hiddenDirectory _ _ _ _ _ _ _ hbuild) ?_
    refine .cons _ _ _ _ _ (.hiddenFile _ _ _ _ _ hkey) ?_
    refine .cons _ _ _ _ _ (.link _ _ _ _ _) ?_
    refine .cons _ _ _ _ _ (.largeFile _ _ _ _ _ (by decide) rfl rfl) ?_
    exact AllAlike.refl _ _ _ _
  exact scan_and_tree_eq_of_alike rfl hengine hworking hroot hroot' rfl rfl halike

end SourceSnapshot.Snapshot
