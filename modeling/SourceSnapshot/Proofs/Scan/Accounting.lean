import SourceSnapshot.Proofs.Scan.Failures

/-!
# The accounts of a scan

A scan that returns accounts for every entry of the listings on its way once: the entry is taken,
it counts as skipped, or it is a directory that is entered. An error is recorded of some of those
that are skipped. The total size is that of all regular files whose size is asked for and told,
whatever becomes of them.
-/

namespace SourceSnapshot.Scan

open FileSystem (Entry FileData)
open Ignore (Engine)
open Traversal (Encounter encountersAmong listedBelow)

/-- The size that is told of an entry: that of a regular file that is not left out, if asking for it
does not fail. -/
def toldSize? (c : Encounter) : Option Nat :=
  match c.exclusion?, c.entry with
  | none, .file _ _ data => if data.sizeFault = none then some data.size else none
  | _, _ => none

/-- The result of a scan of a directory with these entries accounts for all that the scan comes
by. -/
structure Accounts (s : ScanSettings) (directory : String) (entries : List Entry)
    (encounters : List Encounter) (result : Result) : Prop where
  processed : result.stats.processed = result.files.length
  /-- Every entry of the root and of the directories that are entered is taken, skipped or
  entered. -/
  listed : result.stats.processed + result.stats.skipped +
      (encounters.filterMap Encounter.listing?).length = entries.length + listedBelow encounters
  errorPaths : (result.stats.errors.map RecordedError.path).Nodup
  filePaths : (result.files.map FileText.path).Nodup
  apart : (result.stats.errors.map RecordedError.path).Disjoint (result.files.map FileText.path)
  skipped : result.stats.skipped =
    result.stats.errors.length + encounters.countP (isPassedOverAt s directory)
  totalSize : result.stats.totalSize = (encounters.filterMap toldSize?).foldr (· + ·) 0

/-- An entry that does not stop the scan is taken, counts as skipped, or is entered. -/
theorem Outcome.not_isSome_content? {outcome : Outcome} (h : outcome.stop? = none) :
    (decide ¬outcome.content?.isSome = true).toNat =
      outcome.isSkipped.toNat + (decide (outcome = .entered)).toNat := by
  cases outcome with
  | unknown fault => cases h
  | fatal size fault => cases h
  | _ => rfl

theorem Outcome.isSome_error?_of_isSome_content? {outcome : Outcome}
    (h : outcome.content?.isSome = true) : outcome.error?.isSome = false := by
  cases outcome with
  | taken size content => rfl
  | _ => cases h

theorem Outcome.size_ofContent (size : Nat)
    (content : Except (ContentFault FileSystem.CallFault) String) :
    (Outcome.ofContent size content).size = size := by
  unfold ofContent
  split <;> rfl

theorem Outcome.ofContent_ne_entered (size : Nat)
    (content : Except (ContentFault FileSystem.CallFault) String) :
    Outcome.ofContent size content ≠ .entered := by
  unfold ofContent
  split <;> nofun

/-- The size that is kept of a file is the one that is told. -/
theorem Outcome.size_ofFile (s : ScanSettings) (callPath : String) (data : FileData) :
    (Outcome.ofFile s callPath data).size = if data.sizeFault = none then data.size else 0 := by
  rw [ofFile]
  cases data.sizeFault with
  | some errno => rfl
  | none =>
    by_cases hlarge : s.maxFileSize < data.size
    · rw [if_pos hlarge, if_pos rfl, size]
    · rw [if_neg hlarge, if_pos rfl, size_ofContent]

/-- No file is entered. -/
theorem Outcome.ofFile_ne_entered (s : ScanSettings) (callPath : String) (data : FileData) :
    Outcome.ofFile s callPath data ≠ .entered := by
  rw [ofFile]
  cases data.sizeFault with
  | some errno => exact Outcome.noConfusion
  | none =>
    by_cases hlarge : s.maxFileSize < data.size
    · rw [if_pos hlarge]
      exact Outcome.noConfusion
    · rw [if_neg hlarge]
      exact ofContent_ne_entered _ _

/-- The entries that are entered are the directories whose listings are on the way. -/
theorem outcomeAt_eq_entered_iff (s : ScanSettings) (directory : String) (c : Encounter) :
    outcomeAt s directory c = .entered ↔ c.listing?.isSome = true := by
  obtain ⟨names, entry, exclusion?⟩ := c
  cases exclusion? with
  | some exclusion => exact iff_of_false nofun nofun
  | none =>
    cases entry with
    | file name obscure data => exact iff_of_false (Outcome.ofFile_ne_entered s _ data) nofun
    | link | pipe | unknown => exact iff_of_false nofun nofun
    | directory name obscure listFault entries =>
      cases obscure with
      | true => exact iff_of_false nofun nofun
      | false =>
        cases listFault with
        | some errno => exact iff_of_false nofun nofun
        | none => exact iff_of_true rfl rfl

/-- The size that is kept of an entry is the one that is told, if any. -/
theorem size_outcomeAt (s : ScanSettings) (directory : String) (c : Encounter) :
    (outcomeAt s directory c).size = (toldSize? c).getD 0 := by
  obtain ⟨names, entry, exclusion?⟩ := c
  cases exclusion? with
  | some exclusion => rfl
  | none =>
    cases entry with
    | file name obscure data =>
      refine (Outcome.size_ofFile s _ data).trans ?_
      simp only [toldSize?]
      split <;> rfl
    | link | pipe | unknown => rfl
    | directory name obscure listFault entries =>
      cases obscure with
      | true => rfl
      | false => cases listFault <;> rfl

section

variable {s : ScanSettings} {directory : String} {encounters : List Encounter}

/-- If no entry stops the scan, each is taken, counts as skipped, or is entered. -/
theorem length_eq_processed_add (hstop : ∀ c ∈ encounters, (outcomeAt s directory c).stop? = none) :
    let stats := Stats.ofVisits (encounters.map (visitAt s directory))
    encounters.length = stats.processed + stats.skipped +
      (encounters.filterMap Encounter.listing?).length := by
  intro stats
  have hprocessed : stats.processed =
      encounters.countP fun c => (outcomeAt s directory c).content?.isSome := List.countP_map
  have hskipped : stats.skipped =
      encounters.countP fun c => (outcomeAt s directory c).isSkipped := List.countP_map
  have hrest : (encounters.countP fun c =>
        decide ¬(outcomeAt s directory c).content?.isSome = true) =
      (encounters.countP fun c => (outcomeAt s directory c).isSkipped) +
        encounters.countP fun c => c.listing?.isSome := by
    refine countP_eq_add fun c hc => ?_
    have hentered : decide (outcomeAt s directory c = .entered) = c.listing?.isSome := by
      rw [Bool.eq_iff_iff, decide_eq_true_iff]
      exact outcomeAt_eq_entered_iff s directory c
    rw [Outcome.not_isSome_content? (hstop c hc), hentered]
  rw [List.length_filterMap_eq_countP, hprocessed, hskipped, Nat.add_assoc, ← hrest]
  exact List.length_eq_countP_add_countP _

/-- The total size is the sum of the sizes that are told. -/
theorem totalSize_ofVisits (s : ScanSettings) (directory : String) (encounters : List Encounter) :
    (Stats.ofVisits (encounters.map (visitAt s directory))).totalSize =
      (encounters.filterMap toldSize?).foldr (· + ·) 0 := by
  induction encounters with
  | nil => rfl
  | cons c rest ih =>
    have hcons : (Stats.ofVisits ((c :: rest).map (visitAt s directory))).totalSize =
        (outcomeAt s directory c).size +
          (Stats.ofVisits (rest.map (visitAt s directory))).totalSize := rfl
    rw [hcons, ih, size_outcomeAt, List.filterMap_cons]
    cases toldSize? c with
    | none => exact Nat.zero_add _
    | some size => rfl

/-- If no two encounters have one path, those that something is read off have different paths, and
share none with the ones that something else is read off that the former do not yield. -/
theorem paths_apart (hpaths : (encounters.map Encounter.path).Nodup) {p q : Encounter → Bool}
    (hpq : ∀ c, p c = true → q c = false) :
    ((encounters.filter q).map Encounter.path).Disjoint
      ((encounters.filter p).map Encounter.path) := by
  intro path hq hp
  obtain ⟨c, hc, rfl⟩ := List.mem_map.mp hq
  obtain ⟨d, hd, hpath⟩ := List.mem_map.mp hp
  rw [List.mem_filter] at hc hd
  obtain rfl := List.inj_on_of_nodup_map hpaths hd.1 hc.1 hpath
  rw [hpq d hd.2] at hc
  cases hc.2

/-- The result of visits none of which stops the scan accounts for all of them. -/
theorem accounts_ofVisits {rules? : Option (List Ignore.Rule)} {entries : List Entry}
    (hentries : Entry.areWellNamed entries = true) (hdistinct : Entry.areDistinct entries = true)
    (hencounters : encounters = encountersAmong s.includeDotFiles rules? [] entries)
    (hstop : ∀ c ∈ encounters, (outcomeAt s directory c).stop? = none) :
    Accounts s directory entries encounters
      (.ofVisits (encounters.map (visitAt s directory))) := by
  have hpaths : (encounters.map Encounter.path).Nodup := by
    rw [hencounters]
    exact Traversal.nodup_path_encountersAmong entries hentries hdistinct
  have hnodup : ∀ p : Encounter → Bool, ((encounters.filter p).map Encounter.path).Nodup :=
    fun p => hpaths.sublist (List.filter_sublist.map Encounter.path)
  have hlength : encounters.length = entries.length + listedBelow encounters := by
    rw [hencounters]
    exact Traversal.length_encountersAmong [] entries
  constructor
  · exact (List.countP_congr fun v _ => by rw [Visit.file?, Option.isSome_map]).trans
      List.length_filterMap_eq_countP.symm
  · exact (length_eq_processed_add hstop).symm.trans hlength
  · rw [map_path_errors_ofVisits]
    exact hnodup _
  · rw [map_path_files_ofVisits]
    exact hnodup _
  · rw [map_path_errors_ofVisits, map_path_files_ofVisits]
    exact paths_apart hpaths fun c => Outcome.isSome_error?_of_isSome_content?
  · exact (stats_ofVisits hstop).2
  · exact totalSize_ofVisits s directory encounters

end

/-- Whenever a scan returns, its result accounts for every entry of the root and of all directories
that are entered. -/
theorem run_accounts {s : ScanSettings} {engine? : Option Engine}
    (hengine : ∀ e ∈ engine?, e.Reachable) {fs : FileSystem}
    (hfs : fs.IsWellFormed) {directory : String} {result : Result}
    (hscan : (run s fs engine? directory).result = .ok result) :
    ∃ entries, fs.list directory = .ok entries ∧
      Accounts s directory entries
        (encountersAmong s.includeDotFiles (engine?.map Engine.rules) [] entries) result := by
  have hf := Ignore.follows_of_reachable hengine
  obtain ⟨entries, hlist, hstop, rfl⟩ :=
    (run_result_eq_ok_iff_encounters hf hfs.toIsWellNamed).mp hscan
  exact ⟨entries, hlist, accounts_ofVisits (FileSystem.areWellNamed_of_list hfs.toIsWellNamed hlist)
    (FileSystem.areDistinct_of_list hfs hlist) rfl hstop⟩

/-- A project with an entry of every kind: what a rule or a dot leaves out, a directory that cannot
be listed, files without a size, over four bytes, binary, that cannot be opened and that are no
text, a pipe, and below another directory two texts. -/
def crowdedSystem : FileSystem :=
  .ofWorkingDirectory ["work"]
    [.directory "project" false none
      [.directory "build" false none [.file "out.txt" false ⟨⟨#[107]⟩, none, none⟩],
        .file ".hidden" false ⟨⟨#[104]⟩, none, none⟩,
        .directory "locked" false (some .accessDenied) [],
        .file "lost" false ⟨⟨#[97]⟩, none, some .inputOutput⟩,
        .file "large" false ⟨⟨#[1, 2, 3, 4, 5]⟩, none, none⟩,
        .pipe "queue" false,
        .directory "src" false none
          [.file "image" false ⟨⟨#[1, 0]⟩, none, none⟩,
            .file "shut" false ⟨⟨#[97, 98, 99]⟩, some .accessDenied, none⟩,
            .file "broken" false ⟨⟨#[255]⟩, none, none⟩,
            .directory "lib" false none [.file "main.txt" false ⟨⟨#[104, 105]⟩, none, none⟩],
            .file "notes.txt" false ⟨⟨#[111, 107]⟩, none, none⟩]]]

/-- Of the seven entries of the project, the five of `src` and the one of `src/lib`, two are taken,
nine are skipped and two are entered; four of the skipped ones have errors. -/
theorem run_accounts_crowdedSystem :
    let s : ScanSettings := { ScanSettings.default with maxFileSize := 4 }
    let engine? := some (Engine.ofHistory true [.add (.list [some "build/"])])
    let result : Result := ⟨[⟨"src/lib/main.txt", "hi"⟩, ⟨"src/notes.txt", "ok"⟩],
      ⟨2, 9, 15, [⟨"locked", "[Errno 13] Permission denied: 'project/locked'"⟩,
        ⟨"lost", "[Errno 5] Input/output error: 'project/lost'"⟩,
        ⟨"src/shut", "[Errno 13] Permission denied: 'project/src/shut'"⟩,
        ⟨"src/broken",
          "'utf-8' codec can't decode byte 0xff in position 0: invalid start byte"⟩]⟩⟩
    (run s crowdedSystem engine? "project").result = .ok result ∧
      ∃ entries, crowdedSystem.list "project" = .ok entries ∧
        Accounts s "project" entries
          (encountersAmong s.includeDotFiles (engine?.map Engine.rules) [] entries) result := by
  intro s engine? result
  have hscan : (run s crowdedSystem engine? "project").result = .ok result := by decide +kernel
  have hengine : ∀ e ∈ engine?, e.Reachable := fun e he => ⟨_, _, (Option.some.inj he).symm⟩
  exact ⟨hscan, run_accounts hengine (by decide) hscan⟩

end SourceSnapshot.Scan
