import SourceSnapshot.Proofs.Traversal
import SourceSnapshot.Scan.Run

/-!
# Visits without memory

The visits of a scan, told from the rules alone and as if nothing stopped it. A scan makes exactly
these visits in this order, up to the first one that stops it, whatever its engine remembers.
-/

namespace SourceSnapshot.Scan

open FileSystem (Entry IsName childPath joinRelative)
open Ignore (Engine Exclusion Follows Rule)
open Traversal (Walk)

/-- The visit of an entry that nothing is below, from the rules alone. -/
def leafVisit (s : ScanSettings) (rules? : Option (List Rule)) (above : List String)
    (callAbove name : String) (outcome : String → Outcome) : Visit where
  path := "/".intercalate (above ++ [name])
  callPath := childPath callAbove name
  outcome :=
    match Exclusion.byRules? s.includeDotFiles rules? above name false with
    | some exclusion => .excluded exclusion
    | none => outcome (childPath callAbove name)

mutual

/-- The visits of an entry and of all that is below it, from the rules alone. -/
def visitsOf (s : ScanSettings) (rules? : Option (List Rule)) (above : List String)
    (callAbove : String) : Entry → List Visit
  | .file name _ data => [leafVisit s rules? above callAbove name (.ofFile s · data)]
  | .link name _ _ => [leafVisit s rules? above callAbove name fun _ => .irregular]
  | .pipe name _ => [leafVisit s rules? above callAbove name fun _ => .irregular]
  | .unknown name fault =>
    [leafVisit s rules? above callAbove name fun callPath => .unknown ⟨fault.errno, callPath⟩]
  | .directory name true _ _ => [leafVisit s rules? above callAbove name fun _ => .irregular]
  | .directory name false listFault entries =>
    let path := "/".intercalate (above ++ [name])
    let callPath := childPath callAbove name
    match Exclusion.byRules? s.includeDotFiles rules? above name true with
    | some exclusion => [⟨path, callPath, .excluded exclusion⟩]
    | none =>
      match listFault with
      | some errno => [⟨path, callPath, .unlistable ⟨errno, callPath⟩⟩]
      | none =>
        ⟨path, callPath, .entered⟩ :: visitsAmong s rules? (above ++ [name]) callPath entries

/-- The visits of several entries in order. -/
def visitsAmong (s : ScanSettings) (rules? : Option (List Rule)) (above : List String)
    (callAbove : String) : List Entry → List Visit
  | [] => []
  | entry :: rest =>
    visitsOf s rules? above callAbove entry ++ visitsAmong s rules? above callAbove rest

end

/-- What stops the scan at the first of several visits that does. -/
def stopAmong? (visits : List Visit) : Option Traversal.Failure :=
  visits.findSome? fun v => v.outcome.stop?

/-- The visits up to the first one that stops the scan. -/
def untilStop : List Visit → List Visit
  | [] => []
  | v :: rest => if v.outcome.stop?.isSome then [v] else v :: untilStop rest

/-- If nothing stops the scan, all visits are made. -/
theorem untilStop_append_of_none {visits : List Visit} (h : stopAmong? visits = none)
    (more : List Visit) : untilStop (visits ++ more) = visits ++ untilStop more := by
  induction visits with
  | nil => rfl
  | cons v rest ih =>
    rw [stopAmong?, List.findSome?_cons] at h
    cases hv : v.outcome.stop? with
    | some failure => simp [hv] at h
    | none =>
      rw [hv] at h
      simp only [List.cons_append, untilStop, hv, Option.isSome_none, Bool.false_eq_true, if_false,
        ih h]

/-- What follows a visit that stops the scan is not visited. -/
theorem untilStop_append_of_some {visits : List Visit} {failure : Traversal.Failure}
    (h : stopAmong? visits = some failure) (more : List Visit) :
    untilStop (visits ++ more) = untilStop visits := by
  induction visits with
  | nil => cases h
  | cons v rest ih =>
    rw [stopAmong?, List.findSome?_cons] at h
    cases hv : v.outcome.stop? with
    | some failure => simp [untilStop, hv]
    | none =>
      rw [hv] at h
      simp only [List.cons_append, untilStop, hv, Option.isSome_none, Bool.false_eq_true, if_false,
        ih h]

theorem untilStop_eq_self {visits : List Visit} (h : stopAmong? visits = none) :
    untilStop visits = visits := by
  simpa [untilStop] using untilStop_append_of_none h []

/-- The walk makes these visits up to the first one that stops it, and its engine follows the
rules. -/
structure Mirrors (rules? : Option (List Rule)) (walk : Walk Visit) (visits : List Visit) :
    Prop where
  follows : Follows walk.engine? rules?
  found : walk.found = untilStop visits
  log : walk.log = (untilStop visits).flatMap Visit.log
  stop : walk.stop? = stopAmong? visits

section

variable {rules? : Option (List Rule)}

/-- The walk of a single visit. -/
theorem mirrors_walk {engine? : Option Engine} (h : Follows engine? rules?) (v : Visit) :
    Mirrors rules? (v.walk engine?) [v] := by
  have huntil : untilStop [v] = [v] := by
    rw [untilStop, untilStop, ite_self]
  refine ⟨h, huntil.symm, ?_, ?_⟩
  · rw [huntil, List.flatMap_singleton, Visit.walk]
  · rw [stopAmong?, List.findSome?_singleton, Visit.walk]

theorem mirrors_idle {engine? : Option Engine} (h : Follows engine? rules?) :
    Mirrors rules? (.idle engine? []) [] :=
  ⟨h, rfl, rfl, rfl⟩

/-- A walk that goes on with the next one makes the visits of both. -/
theorem Mirrors.andThen {first : Walk Visit} {next : Option Engine → Walk Visit}
    {visits more : List Visit} (h : Mirrors rules? first visits)
    (hnext : ∀ engine?, Follows engine? rules? → Mirrors rules? (next engine?) more) :
    Mirrors rules? (first.andThen next) (visits ++ more) := by
  have hstop : stopAmong? (visits ++ more) = (stopAmong? visits).or (stopAmong? more) :=
    List.findSome?_append
  cases hv : stopAmong? visits with
  | some failure =>
    rw [Walk.andThen_of_some (h.stop.trans hv)]
    rw [hv, Option.some_or] at hstop
    refine ⟨h.follows, ?_, ?_, ?_⟩
    · rw [untilStop_append_of_some hv, h.found]
    · rw [untilStop_append_of_some hv, h.log]
    · rw [h.stop, hv, hstop]
  | none =>
    rw [Walk.andThen_of_none (h.stop.trans hv)]
    rw [hv, Option.none_or] at hstop
    have hm := hnext first.engine? h.follows
    have hfound := h.found
    have hlog := h.log
    rw [untilStop_eq_self hv] at hfound hlog
    refine ⟨hm.follows, ?_, ?_, ?_⟩
    · rw [untilStop_append_of_none hv, hfound, hm.found]
    · rw [untilStop_append_of_none hv, hlog, hm.log, List.flatMap_append]
    · rw [hm.stop, hstop]

/-- An entry that nothing is below gets its one visit. -/
theorem visitLeaf_mirrors {engine? : Option Engine} (hf : Follows engine? rules?)
    {above : List String} {name : String} (h : ∀ n ∈ above ++ [name], IsName n)
    (s : ScanSettings) (callAbove : String) (outcome : String → Outcome) :
    Mirrors rules? (visitLeaf s ("/".intercalate above) callAbove name outcome engine?)
      [leafVisit s rules? above callAbove name outcome] := by
  have hpath := FileSystem.intercalate_append_singleton (List.forall_mem_append.mp h).1 name
  rw [visitLeaf, ← hpath]
  refine Traversal.decideEntry_cases (motive := (Mirrors rules? · _)) hf h ?_ ?_
  · intro exclusion next? hnext hrules
    rw [leafVisit, hrules]
    exact mirrors_walk hnext _
  · intro next? hnext hrules
    rw [leafVisit, hrules]
    exact mirrors_walk hnext _

mutual

/-- The walk through an entry makes the visits that follow from the rules. -/
theorem visit_mirrors {engine? : Option Engine} (hf : Follows engine? rules?)
    {above : List String} (h : ∀ n ∈ above, IsName n) (s : ScanSettings) (callAbove : String)
    (entry : Entry) (hentry : entry.isWellNamed = true) :
    Mirrors rules? (visit s ("/".intercalate above) callAbove engine? entry)
      (visitsOf s rules? above callAbove entry) := by
  have hnames := Entry.forall_isName_append h hentry
  match entry with
  | .file name _ data =>
    rw [visit, visitsOf]
    exact visitLeaf_mirrors hf hnames s callAbove _
  | .link name _ _ =>
    rw [visit, visitsOf]
    exact visitLeaf_mirrors hf hnames s callAbove _
  | .pipe name _ =>
    rw [visit, visitsOf]
    exact visitLeaf_mirrors hf hnames s callAbove _
  | .unknown name _ =>
    rw [visit, visitsOf]
    exact visitLeaf_mirrors hf hnames s callAbove _
  | .directory name true _ _ =>
    rw [visit, visitsOf]
    exact visitLeaf_mirrors hf hnames s callAbove _
  | .directory name false listFault entries =>
    simp only [Entry.name] at hnames
    simp only [visit, visitsOf, ← FileSystem.intercalate_append_singleton h name]
    refine Traversal.decideEntry_cases (motive := (Mirrors rules? · _)) hf hnames ?_ ?_
    · intro exclusion next? hnext hrules
      simp only [hrules]
      exact mirrors_walk hnext _
    · intro next? hnext hrules
      simp only [hrules]
      cases listFault with
      | some errno => exact mirrors_walk hnext _
      | none =>
        simp only [Entry.isWellNamed, Bool.and_eq_true] at hentry
        exact (mirrors_walk hnext _).andThen fun _ hlast =>
          visitAll_mirrors hlast hnames s _ entries hentry.2
termination_by structural entry

/-- The walk through several entries makes the visits that follow from the rules. -/
theorem visitAll_mirrors {engine? : Option Engine} (hf : Follows engine? rules?)
    {above : List String} (h : ∀ n ∈ above, IsName n) (s : ScanSettings) (callAbove : String)
    (entries : List Entry) (hentries : Entry.areWellNamed entries = true) :
    Mirrors rules? (visitAll s ("/".intercalate above) callAbove engine? entries)
      (visitsAmong s rules? above callAbove entries) := by
  match entries with
  | [] => exact mirrors_idle hf
  | entry :: rest =>
    simp only [Entry.areWellNamed, Bool.and_eq_true] at hentries
    rw [visitAll, visitsAmong]
    exact (visit_mirrors hf h s callAbove entry hentries.1).andThen fun _ hnext =>
      visitAll_mirrors hnext h s callAbove rest hentries.2
termination_by structural entries

end

/-- A scan returns the result of the visits that follow from the rules if its root can be listed and
no visit stops it. -/
theorem run_result_eq_ok_iff {engine? : Option Engine} (hf : Follows engine? rules?)
    {fs : FileSystem} (hfs : fs.IsWellNamed) {s : ScanSettings}
    {directory : String} {result : Result} :
    (run s fs engine? directory).result = .ok result ↔
      ∃ entries, fs.list directory = .ok entries ∧
        stopAmong? (visitsAmong s rules? [] directory entries) = none ∧
        Result.ofVisits (visitsAmong s rules? [] directory entries) = result := by
  rw [run, Traversal.run_result_eq_ok_iff]
  refine exists_congr fun entries => and_congr_right fun hlist => ?_
  have hm := visitAll_mirrors hf (fun _ hn => absurd hn List.not_mem_nil) s directory entries
    (FileSystem.areWellNamed_of_list hfs hlist)
  rw [String.intercalate_nil] at hm
  rw [hm.stop]
  refine and_congr_right fun hstop => ?_
  rw [hm.found, untilStop_eq_self hstop]

end

end SourceSnapshot.Scan
