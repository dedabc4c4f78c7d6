import SourceSnapshot.Proofs.Scan.Questions
import SourceSnapshot.Proofs.Tree.Questions

/-!
# Keys of entries and keys above them

The keys that an engine reaches step by step above the path of an entry are the very keys under
which a scan and a tree have asked it about the directories above that entry. Each step leads to a
shorter key, so the recursion over the directories above ends.
-/

namespace SourceSnapshot.Snapshot

open FileSystem (Entry IsName joined)
open Ignore (Engine Key Question RecursAbove judge leavesOut)
open Traversal (AsksOnly)

/-- A path that is joined from names has a key. The steps from it to the directories above lead to
the keys of the beginnings of the names, from the longest to the shortest, and then to the root; as
each step leads to a shorter key, both recursions over the directories above have exactly one
solution, which is what an engine does along a lineage. A scan and a tree ask their engine about
paths that are joined from names, each behind the directories above it, and about nothing else. -/
theorem keys_above_joined {names : List String} (h : ∀ n ∈ names, IsName n) (hne : names ≠ [])
    (isDir : Bool) :
    (∃ k, Key.ofPath (joined names) isDir = .ok k ∧
      (∀ i, 0 < i → i < names.length → ∃ above, k.up (names.length - i) = some above ∧
        Key.ofPath ("/".intercalate (names.take i)) true = .ok above ∧
        (Question.above ⟨names, isDir⟩ i).key = .ok above) ∧
      k.up names.length = none) ∧
    (∀ k above : Key, k.parent? = some above → above.chars.length < k.chars.length) ∧
    (∀ rules answer,
      RecursAbove false (fun aboveIgnored k => aboveIgnored || leavesOut rules k) answer ↔
        answer = fun k memo => Engine.resolve rules k.lineage memo) ∧
    (∀ rules answer,
      RecursAbove .undecided
          (fun aboveVerdict k => if aboveVerdict.ignored then aboveVerdict else judge rules k)
          answer ↔
        answer = fun k memo => Engine.resolveVerdict rules k.lineage memo) ∧
    ∀ e : Engine, e.Reachable → ∀ fs : FileSystem, fs.IsWellNamed →
      ∀ directory entries, fs.list directory = .ok entries →
        (∀ s, AsksOnly e (Scan.run s fs (some e) directory).engine?
          (Scan.questions s e.rules directory entries)) ∧
        ∀ t, AsksOnly e (Tree.build t fs (some e) directory).engine?
          (Tree.questions t e.rules entries) := by
  refine ⟨⟨Key.ofNames names isDir, ?_, ?_, ?_⟩, ?_, ?_, ?_, ?_⟩
  · exact Question.key_eq (q := ⟨names, isDir⟩) h hne
  · intro i hpos hlt
    have htake : ∀ n ∈ names.take i, IsName n := fun n hn => h n (List.mem_of_mem_take hn)
    have hback : names.length - (names.length - i) = i := by omega
    have habove := Question.key_above (q := ⟨names, isDir⟩) h hpos hlt
    refine ⟨Key.ofBeginning names isDir i, ?_, ?_, habove⟩
    · rw [Key.up_ofNames h hne, if_pos (by omega), hback]
    · rw [← FileSystem.joined_eq_intercalate htake]
      exact habove
  · rw [Key.up_ofNames h hne, if_neg (Nat.lt_irrefl _)]
  · intro k above
    exact Key.length_parent?
  · intro rules answer
    simp only [Engine.resolve_eq_resolveWith]
    exact Ignore.recursAbove_iff
  · intro rules answer
    simp only [Engine.resolveVerdict_eq_resolveWith]
    exact Ignore.recursAbove_iff
  · intro e he fs hfs directory entries hlist
    exact ⟨fun s => Scan.run_asksOnly s he.consistent hfs hlist,
      fun t => Tree.build_asksOnly t he.consistent hfs hlist⟩

/-- Entries whose names begin with dots, are blank, or have a backslash and a line break in them. -/
def oddlyNamedEntries : List Entry :=
  [.directory "..x" false none
    [.directory " " false none [.file ".a\\b\nc" false ⟨⟨#[104, 105]⟩, none, none⟩]]]

/-- A project with these entries. -/
def oddlyNamedSystem : FileSystem :=
  .ofWorkingDirectory ["work"] [.directory "project" false none oddlyNamedEntries]

/-- A scan that includes such names asks about the file behind both directories; a tree of depth one
asks about the inner directory, which it does not show, and not about the file. -/
theorem keys_above_joined_oddlyNamed :
    let names := ["..x", " ", ".a\\b\nc"]
    let e := Engine.ofHistory true [.add (.list [some "*.log"])]
    let s : ScanSettings := { ScanSettings.default with includeDotFiles := true }
    let t : TreeSettings :=
      { TreeSettings.default with includeDotFiles := true, maxDepth := some 1 }
    (∀ n ∈ names, IsName n) ∧ names ≠ [] ∧
      (∃ k, Key.ofPath (joined names) false = .ok k ∧
        (∃ above, k.up 1 = some above ∧ Key.ofPath "..x/ " true = .ok above) ∧
        (∃ above, k.up 2 = some above ∧ Key.ofPath "..x" true = .ok above) ∧ k.up 3 = none) ∧
      AsksOnly e (Scan.run s oddlyNamedSystem (some e) "project").engine?
        [⟨["..x"], true⟩, ⟨["..x", " "], true⟩, ⟨names, false⟩] ∧
      AsksOnly e (Tree.build t oddlyNamedSystem (some e) "project").engine?
        [⟨["..x"], true⟩, ⟨["..x", " "], true⟩] := by
  intro names e s t
  have h : ∀ n ∈ names, IsName n := by decide
  have he : e.Reachable := ⟨_, _, rfl⟩
  have hlist : oddlyNamedSystem.list "project" = .ok oddlyNamedEntries := rfl
  have hscanned : Scan.questions s e.rules "project" oddlyNamedEntries =
      [⟨["..x"], true⟩, ⟨["..x", " "], true⟩, ⟨names, false⟩] := by decide +kernel
  have hgrown : Tree.questions t e.rules oddlyNamedEntries =
      [⟨["..x"], true⟩, ⟨["..x", " "], true⟩] := by decide +kernel
  obtain ⟨⟨k, hk, hkeys, hroot⟩, -, -, -, hruns⟩ := keys_above_joined h (by decide) false
  obtain ⟨hscan, htree⟩ := hruns e he oddlyNamedSystem (by decide) "project" _ hlist
  refine ⟨h, by decide, ⟨k, hk, ?_, ?_, hroot⟩, ?_, ?_⟩
  · obtain ⟨above, hup, hkey, -⟩ := hkeys 2 (by decide) (by decide)
    exact ⟨above, hup, hkey⟩
  · obtain ⟨above, hup, hkey, -⟩ := hkeys 1 (by decide) (by decide)
    exact ⟨above, hup, hkey⟩
  · exact hscanned ▸ hscan s
  · exact hgrown ▸ htree t

end SourceSnapshot.Snapshot
