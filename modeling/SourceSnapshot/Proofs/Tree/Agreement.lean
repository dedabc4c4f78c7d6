import SourceSnapshot.Proofs.Traversal.Agreement
import SourceSnapshot.Tree.Build

/-!
# Trees that agree

The trees of roots that look alike are the same, whatever the engines remember: a tree shows names,
kinds and failures to list, and nothing of what is in a file, where a link leads, or what is below a
directory that is left out.
-/

namespace SourceSnapshot.Tree

open FileSystem (CallFault Entry childPath joinRelative)
open FileSystem.Entry (Alike AllAlike Hiding SameListing)
open Ignore (Engine Exclusion Recalls)
open Traversal (Run Walk)

variable {fresh? : Option Engine}

/-- Nodes of one name that nothing is below agree if the same is told of them wherever they are
kept. -/
theorem growLeaf_agree {engine? engine?' : Option Engine} (h : Recalls engine? fresh?)
    (h' : Recalls engine?' fresh?) {t : TreeSettings} {above name : String}
    {told told' : Except CallFault Kind}
    (hsame : (Exclusion.of t.includeDotFiles fresh? (joinRelative above name) name false).1 =
      .ok none → told = told') :
    (growLeaf t above name told engine?).Agree fresh? (growLeaf t above name told' engine?') := by
  rw [growLeaf, growLeaf]
  refine Traversal.decideEntry_agree h h' ?_ ?_
  · intro exclusion e? e?' he he'
    exact Walk.agree_idle he he' []
  · intro hkept e? e?' he he'
    obtain rfl := hsame hkept
    cases t.includeFiles with
    | false => exact Walk.agree_idle he he' []
    | true =>
      cases told with
      | ok kind => exact Walk.agree_single he he' _ []
      | error fault => exact ⟨rfl, rfl, rfl, he, he'⟩

theorem branchOf_agree {a b : Walk Node} (h : a.Agree fresh? b) (label : Label) :
    (branchOf label a).Agree fresh? (branchOf label b) := by
  refine ⟨?_, h.log, h.stop, h.left, h.right⟩
  rw [branchOf, branchOf, h.found]

mutual

/-- Nodes of entries that look alike agree. -/
theorem grow_agree {t : TreeSettings} {hides : Hiding} {limit : Nat}
    (hhides : Exclusion.LeavesOut t.includeDotFiles fresh? hides)
    {engine? engine?' : Option Engine} (h : Recalls engine? fresh?)
    (h' : Recalls engine?' fresh?) (above callAbove : String) (depth : Nat) (entry entry' : Entry)
    (halike : Alike hides limit above entry entry') :
    (grow t above callAbove depth engine? entry).Agree fresh?
      (grow t above callAbove depth engine?' entry') := by
  match entry with
  | .file name obscure data =>
    cases halike with
    | file | hiddenFile | largeFile =>
      rw [grow, grow]
      exact growLeaf_agree h h' fun _ => rfl
  | .link name obscure target =>
    cases halike with
    | link =>
      rw [grow, grow]
      exact growLeaf_agree h h' fun _ => rfl
  | .pipe name obscure =>
    cases halike with
    | pipe =>
      rw [grow, grow]
      exact growLeaf_agree h h' fun _ => rfl
  | .unknown name fault =>
    cases halike with
    | unknown =>
      rw [grow]
      exact growLeaf_agree h h' fun _ => rfl
    | hiddenUnknown _ _ _ fault' hidden =>
      rw [grow, grow]
      exact growLeaf_agree h h' fun hkept => absurd hkept (hhides _ _ _ hidden)
  | .directory name true fault entries =>
    cases halike with
    | hiddenDirectory | directory =>
      rw [grow, grow]
      exact growLeaf_agree h h' fun _ => rfl
  | .directory name false fault entries =>
    cases halike with
    | hiddenDirectory _ _ _ _ fault' _ entries' hidden =>
      rw [grow, grow]
      refine Traversal.decideEntry_agree h h' ?_ ?_
      · intro exclusion e? e?' he he'
        exact Walk.agree_idle he he' []
      · intro hkept
        exact absurd hkept (hhides _ _ _ hidden)
    | directory _ _ _ _ _ entries' inside =>
      rw [grow, grow]
      refine Traversal.decideEntry_agree h h' ?_ ?_
      · intro exclusion e? e?' he he'
        exact Walk.agree_idle he he' []
      · intro hkept e? e?' he he'
        split
        · exact Walk.agree_idle he he' _
        · split
          · exact Walk.agree_idle he he' []
          · cases fault with
            | some errno => exact Walk.agree_single he he' _ _
            | none =>
              exact branchOf_agree
                (growAll_agree hhides he he' _ _ (depth + 1) entries entries' inside) _
termination_by structural entry

/-- Nodes of lists of entries that look alike agree. -/
theorem growAll_agree {t : TreeSettings} {hides : Hiding} {limit : Nat}
    (hhides : Exclusion.LeavesOut t.includeDotFiles fresh? hides)
    {engine? engine?' : Option Engine} (h : Recalls engine? fresh?)
    (h' : Recalls engine?' fresh?) (above callAbove : String) (depth : Nat)
    (entries entries' : List Entry) (halike : AllAlike hides limit above entries entries') :
    (growAll t above callAbove depth engine? entries).Agree fresh?
      (growAll t above callAbove depth engine?' entries') := by
  match entries with
  | [] =>
    cases halike with
    | nil => exact Walk.agree_idle h h' []
  | entry :: rest =>
    cases halike with
    | cons _ _ entry' _ rest' first others =>
      rw [growAll, growAll]
      exact (grow_agree hhides h h' above callAbove depth entry entry' first).andThen
        fun next? next?' hnext hnext' =>
          growAll_agree hhides hnext hnext' above callAbove depth rest rest' others
termination_by structural entries

end

theorem rootName_congr {fs fs' : FileSystem} (h : fs.workingDirectory = fs'.workingDirectory)
    (directory : String) : fs.rootName directory = fs'.rootName directory := by
  simp only [FileSystem.rootName, FileSystem.absolute, h]

/-- Trees of roots that are listed alike agree. -/
theorem build_agree {t : TreeSettings} {hides : Hiding} {limit : Nat}
    (hhides : Exclusion.LeavesOut t.includeDotFiles fresh? hides)
    {fs fs' : FileSystem} (hdirectory : fs.workingDirectory = fs'.workingDirectory)
    {directory : String}
    (hlist : SameListing hides limit (fs.list directory) (fs'.list directory))
    {engine? engine?' : Option Engine} (h : Recalls engine? fresh?)
    (h' : Recalls engine?' fresh?) :
    (build t fs engine? directory).Agree fresh? (build t fs' engine?' directory) := by
  rw [build, build, rootName_congr hdirectory]
  exact Traversal.run_agree hlist h h' (fun entries entries' halike =>
    growAll_agree hhides h h' "" directory 1 entries entries' halike) _

/-- Trees of one root agree whatever their engines remember. -/
theorem build_agree_of_recalls (t : TreeSettings) (fs : FileSystem) (directory : String)
    {engine? engine?' : Option Engine} (h : Recalls engine? fresh?)
    (h' : Recalls engine?' fresh?) :
    (build t fs engine? directory).Agree fresh? (build t fs engine?' directory) :=
  build_agree (Exclusion.leavesOut_nothing _ _) rfl (SameListing.refl _ 0 _) h h'

end SourceSnapshot.Tree
