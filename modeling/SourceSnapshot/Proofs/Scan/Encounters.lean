import SourceSnapshot.Proofs.Scan.Visits
import SourceSnapshot.Proofs.Traversal.Encounters

/-!
# Visits as encounters

A scan makes one visit of every entry that a traversal comes by, and what becomes of the entry
follows from the encounter alone. So the result of a scan is read off the encounters.
-/

namespace SourceSnapshot.Scan

open FileSystem (CallFault Entry FileData childPath)
open Ignore (Engine Exclusion Follows Rule)
open Traversal (Encounter encountersOf encountersAmong)

/-- What becomes of an entry that a scan of a directory comes by. -/
def outcomeAt (s : ScanSettings) (directory : String) (c : Encounter) : Outcome :=
  match c.exclusion? with
  | some exclusion => .excluded exclusion
  | none =>
    match c.entry with
    | .file _ _ data => .ofFile s (c.callPath directory) data
    | .directory _ false (some errno) _ => .unlistable ⟨errno, c.callPath directory⟩
    | .directory _ false none _ => .entered
    | .unknown _ fault => .unknown ⟨fault.errno, c.callPath directory⟩
    | _ => .irregular

/-- The visit of an entry that a scan of a directory comes by. -/
def visitAt (s : ScanSettings) (directory : String) (c : Encounter) : Visit :=
  ⟨c.path, c.callPath directory, outcomeAt s directory c⟩

/-- The call path of an encounter is joined from that of the directory that holds the entry. -/
theorem callPath_ofEntry (includeDotNames : Bool) (rules? : Option (List Rule))
    (above : List String) (entry : Entry) (directory : String) :
    (Encounter.ofEntry includeDotNames rules? above entry).callPath directory =
      childPath (above.foldl childPath directory) entry.name := by
  rw [Encounter.callPath, Encounter.ofEntry, List.foldl_append, List.foldl_cons, List.foldl_nil]

mutual

/-- The visits of an entry are those of the encounters with it and with what is below it. -/
theorem visitsOf_eq_map (s : ScanSettings) (rules? : Option (List Rule)) (directory : String)
    (above : List String) (entry : Entry) :
    visitsOf s rules? above (above.foldl childPath directory) entry =
      (encountersOf s.includeDotFiles rules? above entry).map (visitAt s directory) := by
  have hcall := callPath_ofEntry s.includeDotFiles rules? above entry directory
  match entry with
  | .file name obscure data =>
    rw [visitsOf, encountersOf, List.map_singleton, visitAt, hcall, leafVisit, outcomeAt, hcall]
    rfl
  | .link name obscure target =>
    rw [visitsOf, encountersOf, List.map_singleton, visitAt, hcall]
    rfl
  | .pipe name obscure =>
    rw [visitsOf, encountersOf, List.map_singleton, visitAt, hcall]
    rfl
  | .unknown name fault =>
    rw [visitsOf, encountersOf, List.map_singleton, visitAt, hcall, leafVisit, outcomeAt, hcall]
    rfl
  | .directory name true listFault entries =>
    rw [visitsOf, encountersOf, List.map_singleton, visitAt, hcall]
    rfl
  | .directory name false listFault entries =>
    have hbelow := visitsAmong_eq_map s rules? directory (above ++ [name]) entries
    rw [List.foldl_append, List.foldl_cons, List.foldl_nil] at hbelow
    simp only [visitsOf, encountersOf, List.map_cons, visitAt, hcall, outcomeAt]
    simp only [Encounter.ofEntry, Encounter.path, Entry.name, Entry.isKnownDirectory,
      Bool.not_false]
    cases Exclusion.byRules? s.includeDotFiles rules? above name true with
    | some exclusion => rfl
    | none =>
      cases listFault with
      | some errno => rfl
      | none => exact congrArg _ hbelow
termination_by structural entry

/-- The visits of several entries are those of the encounters with them and with what is below
them. -/
theorem visitsAmong_eq_map (s : ScanSettings) (rules? : Option (List Rule)) (directory : String)
    (above : List String) (entries : List Entry) :
    visitsAmong s rules? above (above.foldl childPath directory) entries =
      (encountersAmong s.includeDotFiles rules? above entries).map (visitAt s directory) := by
  match entries with
  | [] => rfl
  | entry :: rest =>
    rw [visitsAmong, encountersAmong, List.map_append, visitsOf_eq_map, visitsAmong_eq_map]
termination_by structural entries

end

/-- The visits of the entries of the root are those of all encounters. -/
theorem visitsAmong_nil_eq_map (s : ScanSettings) (rules? : Option (List Rule))
    (directory : String) (entries : List Entry) :
    visitsAmong s rules? [] directory entries =
      (encountersAmong s.includeDotFiles rules? [] entries).map (visitAt s directory) :=
  visitsAmong_eq_map s rules? directory [] entries

/-- A scan of a root that can be listed ends at the first encounter that stops it, and otherwise
returns the result of the visits of all encounters. -/
theorem run_result_of_list {engine? : Option Engine} {rules? : Option (List Rule)}
    (hf : Follows engine? rules?) {fs : FileSystem} (hfs : fs.IsWellNamed)
    (s : ScanSettings) {directory : String} {entries : List Entry}
    (hlist : fs.list directory = .ok entries) :
    (run s fs engine? directory).result =
      match (encountersAmong s.includeDotFiles rules? [] entries).findSome? fun c =>
        (outcomeAt s directory c).stop? with
      | some failure => .error failure
      | none => .ok (.ofVisits ((encountersAmong s.includeDotFiles rules? [] entries).map
          (visitAt s directory))) := by
  have hm := visitAll_mirrors hf (List.forall_mem_nil _) s directory entries
    (FileSystem.areWellNamed_of_list hfs hlist)
  rw [String.intercalate_nil, visitsAmong_nil_eq_map] at hm
  have hstop : (visitAll s "" directory engine? entries).stop? =
      (encountersAmong s.includeDotFiles rules? [] entries).findSome? fun c =>
        (outcomeAt s directory c).stop? := by
    rw [hm.stop, stopAmong?, List.findSome?_map]
    rfl
  rw [run, Traversal.run_result_of_list hlist, hstop]
  cases hfirst : (encountersAmong s.includeDotFiles rules? [] entries).findSome? fun c =>
      (outcomeAt s directory c).stop? with
  | some failure => rfl
  | none =>
    have hfound := hm.found
    rw [untilStop_eq_self (hm.stop.symm.trans (hstop.trans hfirst))] at hfound
    exact congrArg (fun visits => Except.ok (Result.ofVisits visits)) hfound

/-- A scan returns if its root can be listed and no encounter stops it. -/
theorem run_result_eq_ok_iff_encounters {engine? : Option Engine} {rules? : Option (List Rule)}
    (hf : Follows engine? rules?) {fs : FileSystem} (hfs : fs.IsWellNamed)
    {s : ScanSettings} {directory : String} {result : Result} :
    (run s fs engine? directory).result = .ok result ↔
      ∃ entries, fs.list directory = .ok entries ∧
        (∀ c ∈ encountersAmong s.includeDotFiles rules? [] entries,
          (outcomeAt s directory c).stop? = none) ∧
        Result.ofVisits ((encountersAmong s.includeDotFiles rules? [] entries).map
          (visitAt s directory)) = result := by
  rw [run_result_eq_ok_iff hf hfs]
  refine exists_congr fun entries => and_congr_right fun _ => ?_
  rw [visitsAmong_nil_eq_map, stopAmong?, List.findSome?_map, List.findSome?_eq_none_iff]
  rfl

/-- What is read off the visits and bears the path of its visit has the paths of those visits that
something is read off. -/
theorem map_path_filterMap {α β : Type} (read? : Outcome → Option α) (make : String → α → β)
    {path : β → String} (hpath : ∀ p a, path (make p a) = p) (visits : List Visit) :
    (visits.filterMap fun v => (read? v.outcome).map (make v.path)).map path =
      (visits.filter fun v => (read? v.outcome).isSome).map Visit.path := by
  induction visits with
  | nil => rfl
  | cons v rest ih =>
    rw [List.filterMap_cons, List.filter_cons]
    cases read? v.outcome with
    | none => exact ih
    | some a => exact congrArg₂ List.cons (hpath v.path a) ih

/-- The paths of the files that are taken are those of the encounters that yield a text. -/
theorem map_path_files_ofVisits (s : ScanSettings) (directory : String)
    (encounters : List Encounter) :
    (Result.ofVisits (encounters.map (visitAt s directory))).files.map FileText.path =
      (encounters.filter fun c => (outcomeAt s directory c).content?.isSome).map
        Encounter.path := by
  refine (map_path_filterMap Outcome.content? FileText.mk (fun _ _ => rfl) _).trans ?_
  rw [List.filter_map, List.map_map]
  rfl

/-- The paths of the errors that are recorded are those of the encounters that yield one. -/
theorem map_path_errors_ofVisits (s : ScanSettings) (directory : String)
    (encounters : List Encounter) :
    (Result.ofVisits (encounters.map (visitAt s directory))).stats.errors.map RecordedError.path =
      (encounters.filter fun c => (outcomeAt s directory c).error?.isSome).map Encounter.path := by
  refine (map_path_filterMap Outcome.error? RecordedError.mk (fun _ _ => rfl) _).trans ?_
  rw [List.filter_map, List.map_map]
  rfl

section

variable {s : ScanSettings} {directory : String} {encounters : List Encounter}
  (hpaths : (encounters.map Encounter.path).Nodup) {c : Encounter} (hc : c ∈ encounters)

include hpaths hc

/-- If no two encounters have one path, what is found under the path of one of them was read off
that one. -/
theorem mem_filterMap_visitAt_iff {α β : Type} (read? : Outcome → Option α) {make : String → α → β}
    (hmake : ∀ {p q a b}, make p a = make q b → p = q ∧ a = b) {a : α} :
    make c.path a ∈ ((encounters.map (visitAt s directory)).filterMap fun v =>
        (read? v.outcome).map (make v.path)) ↔
      read? (outcomeAt s directory c) = some a := by
  rw [List.mem_filterMap]
  constructor
  · rintro ⟨v, hv, hread⟩
    obtain ⟨d, hd, rfl⟩ := List.mem_map.mp hv
    obtain ⟨b, hb, heq⟩ := Option.map_eq_some_iff.mp hread
    obtain ⟨hpath, rfl⟩ := hmake heq
    obtain rfl : d = c := List.inj_on_of_nodup_map hpaths hd hc hpath
    exact hb
  · intro hread
    refine ⟨visitAt s directory c, List.mem_map_of_mem hc, ?_⟩
    exact Option.map_eq_some_iff.mpr ⟨a, hread, rfl⟩

theorem mem_files_ofVisits_iff {content : String} :
    ⟨c.path, content⟩ ∈ (Result.ofVisits (encounters.map (visitAt s directory))).files ↔
      (outcomeAt s directory c).content? = some content :=
  mem_filterMap_visitAt_iff hpaths hc Outcome.content? FileText.mk.inj

theorem mem_errors_ofVisits_iff {reason : String} :
    ⟨c.path, reason⟩ ∈ (Result.ofVisits (encounters.map (visitAt s directory))).stats.errors ↔
      (outcomeAt s directory c).error? = some reason :=
  mem_filterMap_visitAt_iff hpaths hc Outcome.error? RecordedError.mk.inj

/-- The path of an encounter is among those of the files that are taken if a text was taken there.
-/
theorem mem_map_path_files_iff :
    c.path ∈ (Result.ofVisits (encounters.map (visitAt s directory))).files.map FileText.path ↔
      (outcomeAt s directory c).content?.isSome = true := by
  rw [Option.isSome_iff_exists, List.mem_map]
  constructor
  · rintro ⟨f, hf, hpath⟩
    exact ⟨f.content, (mem_files_ofVisits_iff hpaths hc).mp (hpath ▸ hf)⟩
  · rintro ⟨content, hcontent⟩
    exact ⟨⟨c.path, content⟩, (mem_files_ofVisits_iff hpaths hc).mpr hcontent, rfl⟩

/-- The path of an encounter is among those of the errors that are recorded if one was found
there. -/
theorem mem_map_path_errors_iff :
    c.path ∈ (Result.ofVisits (encounters.map
        (visitAt s directory))).stats.errors.map RecordedError.path ↔
      (outcomeAt s directory c).error?.isSome = true := by
  rw [Option.isSome_iff_exists, List.mem_map]
  constructor
  · rintro ⟨error, herror, hpath⟩
    exact ⟨error.reason, (mem_errors_ofVisits_iff hpaths hc).mp (hpath ▸ herror)⟩
  · rintro ⟨reason, hreason⟩
    exact ⟨⟨c.path, reason⟩, (mem_errors_ofVisits_iff hpaths hc).mpr hreason, rfl⟩

end

/-- Only regular files that are not left out are taken. -/
theorem entry_of_isSome_content? {s : ScanSettings} {directory : String} {c : Encounter}
    (h : (outcomeAt s directory c).content?.isSome = true) :
    c.exclusion? = none ∧ ∃ name obscure data, c.entry = .file name obscure data := by
  rw [outcomeAt] at h
  split at h
  · cases h
  · rename_i hnone
    split at h
    · rename_i name obscure data hentry
      exact ⟨hnone, name, obscure, data, hentry⟩
    · cases h
    · cases h
    · cases h
    · cases h

/-- A file that does not count as binary, or may, has the content that its text is. -/
theorem contentOf_eq_readText {s : ScanSettings} {callPath : String}
    {file : Except CallFault FileData}
    (h : ¬(s.includeBinaryFiles = false ∧ isBinary s callPath file = .ok true)) :
    contentOf s callPath file = readText s file := by
  rw [contentOf]
  by_cases hwanted : s.includeBinaryFiles = true
  · rw [if_pos hwanted]
  · rw [if_neg hwanted]
    rw [Bool.not_eq_true] at hwanted
    cases hbinary : isBinary s callPath file with
    | ok answer =>
      cases answer with
      | true => exact absurd ⟨hwanted, hbinary⟩ h
      | false => rfl
    | error fault =>
      -- Only the opening can have failed, and then so does the reading.
      rw [isBinary] at hbinary
      split at hbinary
      · cases hbinary
      · cases file with
        | ok data => cases hbinary
        | error opening =>
          obtain rfl := Except.error.inj hbinary
          rfl

/-- A regular file that is not left out is taken, has its error recorded or stops the scan, unless
it is too large or counts as binary. -/
theorem ofFile_cases (s : ScanSettings) (callPath : String) (data : FileData) :
    (Outcome.ofFile s callPath data).content?.isSome = true ∨
      (Outcome.ofFile s callPath data).error?.isSome = true ∨
      (Outcome.ofFile s callPath data).stop?.isSome = true ∨
      (data.sizeFault = none ∧ s.maxFileSize < data.size) ∨
      (s.includeBinaryFiles = false ∧ isBinary s callPath (opened callPath data) = .ok true) := by
  rw [Outcome.ofFile]
  cases data.sizeFault with
  | some errno => exact Or.inr (Or.inl rfl)
  | none =>
    by_cases hlarge : s.maxFileSize < data.size
    · exact Or.inr (Or.inr (Or.inr (Or.inl ⟨rfl, hlarge⟩)))
    · by_cases hbinary : s.includeBinaryFiles = false ∧
          isBinary s callPath (opened callPath data) = .ok true
      · exact Or.inr (Or.inr (Or.inr (Or.inr hbinary)))
      · rw [if_neg hlarge, contentOf_eq_readText hbinary, opened]
        cases data.openFault with
        | some errno => exact Or.inr (Or.inl rfl)
        | none =>
          rw [readText]
          cases s.encoding.read data.toList with
          | ok content => exact Or.inl rfl
          | error fault =>
            cases fault with
            | malformed rule => exact Or.inr (Or.inl rfl)
            | unmarked | notText | refused => exact Or.inr (Or.inr (Or.inl rfl))

end SourceSnapshot.Scan
