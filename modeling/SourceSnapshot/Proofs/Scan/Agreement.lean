import SourceSnapshot.Proofs.Traversal.Agreement
import SourceSnapshot.Scan.Run

/-!
# Scans that agree

Scans of roots that look alike have the same result, whatever their engines remember: what becomes
of an entry that is left out does not depend on what is in it, a link is never followed, and a file
that is too large is not opened.
-/

namespace SourceSnapshot.Scan

open FileSystem (Entry FileData childPath joinRelative)
open FileSystem.Entry (Alike AllAlike Hiding SameListing)
open Ignore (Engine Exclusion Recalls)
open Traversal (Run Walk)

variable {fresh? : Option Engine}

theorem visit_walk_agree {engine? engine?' : Option Engine} (h : Recalls engine? fresh?)
    (h' : Recalls engine?' fresh?) (v : Visit) :
    (v.walk engine?).Agree fresh? (v.walk engine?') :=
  ⟨rfl, rfl, rfl, h, h'⟩

/-- Visits of an entry that nothing is below agree if the same becomes of it wherever it is kept. -/
theorem visitLeaf_agree {engine? engine?' : Option Engine} (h : Recalls engine? fresh?)
    (h' : Recalls engine?' fresh?) {s : ScanSettings} {above name : String} (callAbove : String)
    {outcome outcome' : String → Outcome}
    (hsame : (Exclusion.of s.includeDotFiles fresh? (joinRelative above name) name false).1 =
      .ok none → outcome = outcome') :
    (visitLeaf s above callAbove name outcome engine?).Agree fresh?
      (visitLeaf s above callAbove name outcome' engine?') := by
  rw [visitLeaf, visitLeaf]
  refine Traversal.decideEntry_agree h h' ?_ ?_
  · intro exclusion e? e?' he he'
    exact visit_walk_agree he he' _
  · intro hkept e? e?' he he'
    rw [hsame hkept]
    exact visit_walk_agree he he' _

theorem ofFile_eq_of_large {s : ScanSettings} {data data' : FileData}
    (hlarge : s.maxFileSize < data.size) (hsize : data'.size = data.size)
    (hfault : data'.sizeFault = data.sizeFault) (callPath : String) :
    Outcome.ofFile s callPath data' = Outcome.ofFile s callPath data := by
  rw [Outcome.ofFile, Outcome.ofFile, hfault, hsize, if_pos hlarge, if_pos hlarge]

mutual

/-- Visits of entries that look alike agree. -/
theorem visit_agree {s : ScanSettings} {hides : Hiding}
    (hhides : Exclusion.LeavesOut s.includeDotFiles fresh? hides)
    {engine? engine?' : Option Engine} (h : Recalls engine? fresh?)
    (h' : Recalls engine?' fresh?) (above callAbove : String) (entry entry' : Entry)
    (halike : Alike hides s.maxFileSize above entry entry') :
    (visit s above callAbove engine? entry).Agree fresh?
      (visit s above callAbove engine?' entry') := by
  match entry with
  | .file name obscure data =>
    cases halike with
    | file =>
      rw [visit]
      exact visitLeaf_agree h h' callAbove fun _ => rfl
    | hiddenFile _ _ _ _ data' hidden =>
      rw [visit, visit]
      exact visitLeaf_agree h h' callAbove fun hkept => absurd hkept (hhides _ _ _ hidden)
    | largeFile _ _ _ _ data' large size sizeFault =>
      rw [visit, visit]
      refine visitLeaf_agree h h' callAbove fun _ => funext fun callPath => ?_
      exact (ofFile_eq_of_large large size sizeFault callPath).symm
  | .link name obscure target =>
    cases halike with
    | link =>
      rw [visit, visit]
      exact visitLeaf_agree h h' callAbove fun _ => rfl
  | .pipe name obscure =>
    cases halike with
    | pipe =>
      rw [visit]
      exact visitLeaf_agree h h' callAbove fun _ => rfl
  | .unknown name fault =>
    cases halike with
    | unknown =>
      rw [visit]
      exact visitLeaf_agree h h' callAbove fun _ => rfl
    | hiddenUnknown _ _ _ fault' hidden =>
      rw [visit, visit]
      exact visitLeaf_agree h h' callAbove fun hkept => absurd hkept (hhides _ _ _ hidden)
  | .directory name true fault entries =>
    cases halike with
    | hiddenDirectory | directory =>
      rw [visit, visit]
      exact visitLeaf_agree h h' callAbove fun _ => rfl
  | .directory name false fault entries =>
    cases halike with
    | hiddenDirectory _ _ _ _ fault' _ entries' hidden =>
      rw [visit, visit]
      refine Traversal.decideEntry_agree h h' ?_ ?_
      · intro exclusion e? e?' he he'
        exact visit_walk_agree he he' _
      · intro hkept
        exact absurd hkept (hhides _ _ _ hidden)
    | directory _ _ _ _ _ entries' inside =>
      rw [visit, visit]
      refine Traversal.decideEntry_agree h h' ?_ ?_
      · intro exclusion e? e?' he he'
        exact visit_walk_agree he he' _
      · intro hkept e? e?' he he'
        cases fault with
        | some errno => exact visit_walk_agree he he' _
        | none =>
          exact (visit_walk_agree he he' _).andThen fun next? next?' hnext hnext' =>
            visitAll_agree hhides hnext hnext' _ _ entries entries' inside
termination_by structural entry

/-- Visits of lists of entries that look alike agree. -/
theorem visitAll_agree {s : ScanSettings} {hides : Hiding}
    (hhides : Exclusion.LeavesOut s.includeDotFiles fresh? hides)
    {engine? engine?' : Option Engine} (h : Recalls engine? fresh?)
    (h' : Recalls engine?' fresh?) (above callAbove : String) (entries entries' : List Entry)
    (halike : AllAlike hides s.maxFileSize above entries entries') :
    (visitAll s above callAbove engine? entries).Agree fresh?
      (visitAll s above callAbove engine?' entries') := by
  match entries with
  | [] =>
    cases halike with
    | nil => exact Walk.agree_idle h h' []
  | entry :: rest =>
    cases halike with
    | cons _ _ entry' _ rest' first others =>
      rw [visitAll, visitAll]
      exact (visit_agree hhides h h' above callAbove entry entry' first).andThen
        fun next? next?' hnext hnext' =>
          visitAll_agree hhides hnext hnext' above callAbove rest rest' others
termination_by structural entries

end

/-- Scans of roots that are listed alike agree. -/
theorem run_agree {s : ScanSettings} {hides : Hiding}
    (hhides : Exclusion.LeavesOut s.includeDotFiles fresh? hides)
    {fs fs' : FileSystem} {directory : String}
    (hlist : SameListing hides s.maxFileSize (fs.list directory) (fs'.list directory))
    {engine? engine?' : Option Engine} (h : Recalls engine? fresh?)
    (h' : Recalls engine?' fresh?) :
    (run s fs engine? directory).Agree fresh? (run s fs' engine?' directory) := by
  rw [run, run]
  exact Traversal.run_agree hlist h h' (fun entries entries' halike =>
    visitAll_agree hhides h h' "" directory entries entries' halike) _

/-- Scans of one root agree whatever their engines remember. -/
theorem run_agree_of_recalls (s : ScanSettings) (fs : FileSystem) (directory : String)
    {engine? engine?' : Option Engine} (h : Recalls engine? fresh?)
    (h' : Recalls engine?' fresh?) :
    (run s fs engine? directory).Agree fresh? (run s fs engine?' directory) :=
  run_agree (Exclusion.leavesOut_nothing _ _) (SameListing.refl _ _ _) h h'

end SourceSnapshot.Scan
