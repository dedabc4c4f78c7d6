import SourceSnapshot.Proofs.Scan.Accounting
import SourceSnapshot.Proofs.Traversal.Changes

/-!
# Failures are isolated

If a file that a scan takes can no longer be opened, the scan loses that file and records one error
in its place. If a directory that a scan enters can no longer be listed, the scan loses what it made
of all that is below it, and records one error in its place. All that comes before and after stays
as it is.
-/

namespace SourceSnapshot.Scan

open FileSystem (CallFault Entry Errno FileData IsName childPath isBelow steps)
open Ignore (Engine Exclusion Follows Rule)
open Traversal (Encounter encountersOf encountersAmong)

theorem files_ofVisits_append (visits more : List Visit) :
    (Result.ofVisits (visits ++ more)).files =
      (Result.ofVisits visits).files ++ (Result.ofVisits more).files :=
  List.filterMap_append

/-- The statistics of some visits and of others are added up. -/
theorem Stats.ofVisits_append (visits more : List Visit) :
    Stats.ofVisits (visits ++ more) =
      ⟨(Stats.ofVisits visits).processed + (Stats.ofVisits more).processed,
        (Stats.ofVisits visits).skipped + (Stats.ofVisits more).skipped,
        (Stats.ofVisits visits).totalSize + (Stats.ofVisits more).totalSize,
        (Stats.ofVisits visits).errors ++ (Stats.ofVisits more).errors⟩ := by
  have hsize : (Stats.ofVisits (visits ++ more)).totalSize =
      (Stats.ofVisits visits).totalSize + (Stats.ofVisits more).totalSize := by
    induction visits with
    | nil => exact (Nat.zero_add _).symm
    | cons v rest ih => exact (congrArg (v.outcome.size + ·) ih).trans (Nat.add_assoc _ _ _).symm
  have hparts : ∀ stats : Stats,
      stats = ⟨stats.processed, stats.skipped, stats.totalSize, stats.errors⟩ := fun _ => rfl
  rw [hparts (Stats.ofVisits (visits ++ more)), hsize]
  congr 1
  · exact List.countP_append
  · exact List.countP_append
  · exact List.filterMap_append

/-- The statistics of one visit. -/
theorem Stats.ofVisits_singleton (v : Visit) :
    Stats.ofVisits [v] =
      ⟨v.outcome.content?.isSome.toNat, v.outcome.isSkipped.toNat, v.outcome.size,
        v.error?.toList⟩ := by
  cases hcontent : v.outcome.content?.isSome <;> cases hskipped : v.outcome.isSkipped <;>
    cases herror : v.error? <;> simp [Stats.ofVisits, hcontent, hskipped, herror]

/-- What one result has and the other one lost, if a file could not be opened the second time: the
file is missing, and in its place among what was visited before and after it stands an error. -/
structure LosesFile (before : List Visit) (f : FileText) (fault : CallFault)
    (after : List Visit) (result result' : Result) : Prop where
  files : result.files = (Result.ofVisits before).files ++ f :: (Result.ofVisits after).files
  files_lost : result'.files = (Result.ofVisits before).files ++ (Result.ofVisits after).files
  errors : result.stats.errors = (Stats.ofVisits before).errors ++ (Stats.ofVisits after).errors
  errors_lost : result'.stats.errors = (Stats.ofVisits before).errors ++
    ⟨f.path, fault.message⟩ :: (Stats.ofVisits after).errors
  processed : result.stats.processed = result'.stats.processed + 1
  skipped : result'.stats.skipped = result.stats.skipped + 1
  totalSize : result'.stats.totalSize = result.stats.totalSize

/-- What one result has and the other one lost, if a directory could not be listed the second time:
all is missing that was visited below it, and in its place among what was visited before and after
it stands an error. -/
structure LosesDirectory (before below after : List Visit) (path : String) (fault : CallFault)
    (result result' : Result) : Prop where
  files : result.files = (Result.ofVisits before).files ++ (Result.ofVisits below).files ++
    (Result.ofVisits after).files
  files_lost : result'.files = (Result.ofVisits before).files ++ (Result.ofVisits after).files
  errors : result.stats.errors = (Stats.ofVisits before).errors ++ (Stats.ofVisits below).errors ++
    (Stats.ofVisits after).errors
  errors_lost : result'.stats.errors = (Stats.ofVisits before).errors ++
    ⟨path, fault.message⟩ :: (Stats.ofVisits after).errors
  processed : result.stats.processed = result'.stats.processed + (Stats.ofVisits below).processed
  skipped : result.stats.skipped + 1 = result'.stats.skipped + (Stats.ofVisits below).skipped
  totalSize : result.stats.totalSize = result'.stats.totalSize + (Stats.ofVisits below).totalSize

/-- A file that is taken by the one visit and cannot be opened by the other is lost. -/
theorem losesFile_ofVisits (before after : List Visit) (path callPath content : String)
    (size : Nat) (fault : CallFault) :
    LosesFile before ⟨path, content⟩ fault after
      (.ofVisits (before ++ ⟨path, callPath, .taken size content⟩ :: after))
      (.ofVisits (before ++ [⟨path, callPath, .unreadable size (.call fault)⟩] ++ after)) := by
  rw [List.append_cons]
  constructor
  · simp only [files_ofVisits_append, List.append_assoc]
    rfl
  · simp only [files_ofVisits_append, List.append_assoc]
    rfl
  all_goals
    simp only [Result.ofVisits, Stats.ofVisits_append, Stats.ofVisits_singleton, List.append_assoc]
  · rfl
  · rfl
  · simp only [Outcome.content?, Option.isSome_some, Option.isSome_none, Bool.toNat_true,
      Bool.toNat_false]
    omega
  · simp only [Outcome.isSkipped, Bool.toNat_true, Bool.toNat_false]
    omega
  · simp only [Outcome.size]

/-- What is below a directory that is entered by the one visit and cannot be listed by the other is
lost. -/
theorem losesDirectory_ofVisits (before below after : List Visit) (path callPath : String)
    (fault : CallFault) :
    LosesDirectory before below after path fault
      (.ofVisits (before ++ ⟨path, callPath, .entered⟩ :: below ++ after))
      (.ofVisits (before ++ [⟨path, callPath, .unlistable fault⟩] ++ after)) := by
  rw [List.append_cons before]
  constructor
  · simp only [files_ofVisits_append, List.append_assoc]
    rfl
  · simp only [files_ofVisits_append, List.append_assoc]
    rfl
  all_goals
    simp only [Result.ofVisits, Stats.ofVisits_append, Stats.ofVisits_singleton, List.append_assoc]
  · rfl
  · rfl
  · simp only [Outcome.content?, Option.isSome_none, Bool.toNat_false]
    omega
  · simp only [Outcome.isSkipped, Bool.toNat_true, Bool.toNat_false]
    omega
  · simp only [Outcome.size]
    omega

/-- A visit does not tell what a directory holds. -/
theorem visitAt_emptied (s : ScanSettings) (directory : String) (c : Encounter) :
    visitAt s directory c.emptied = visitAt s directory c := by
  obtain ⟨names, entry, exclusion?⟩ := c
  cases exclusion? with
  | some exclusion => rfl
  | none =>
    cases entry with
    | file | link | pipe | unknown => rfl
    | directory name obscure listFault entries =>
      cases obscure with
      | true => rfl
      | false => cases listFault <;> rfl

/-- Encounters that differ only in what directories hold get the same visits. -/
theorem map_visitAt_eq (s : ScanSettings) (directory : String)
    {encounters changed : List Encounter}
    (h : changed.map Encounter.emptied = encounters.map Encounter.emptied) :
    changed.map (visitAt s directory) = encounters.map (visitAt s directory) := by
  have hsame : visitAt s directory = visitAt s directory ∘ Encounter.emptied :=
    funext fun c => (visitAt_emptied s directory c).symm
  rw [hsame, ← List.map_map, h, List.map_map]

/-- A file whose content is taken would not be read if it could not be opened. -/
theorem contentOf_error {s : ScanSettings} {callPath : String}
    {file : Except CallFault FileData} {content : String}
    (h : contentOf s callPath file = .ok content) (fault : CallFault) :
    contentOf s callPath (.error fault) = .error (.access fault) := by
  have hbinary : ¬(s.includeBinaryFiles = false ∧
      isBinary s callPath (.error fault : Except CallFault FileData) = .ok true) := by
    rintro ⟨hwanted, htest⟩
    -- Only a test that does not look into the file answers, and it answers the same either way.
    rw [isBinary] at htest
    cases hgiven : s.binaryTest with
    | none =>
      rw [hgiven] at htest
      cases htest
    | some test =>
      rw [hgiven] at htest
      have hsame : isBinary s callPath file = .ok true := by
        rw [isBinary, hgiven]
        exact congrArg Except.ok (Except.ok.inj htest)
      rw [contentOf, hwanted, if_neg Bool.false_ne_true, hsame] at h
      cases h
  rw [contentOf_eq_readText hbinary, readText]

/-- A file that is taken would not be read if it could not be opened. Its size is told before. -/
theorem ofFile_failingToOpen {s : ScanSettings} {callPath : String} {data : FileData} {size : Nat}
    {content : String} (h : Outcome.ofFile s callPath data = .taken size content) (errno : Errno) :
    Outcome.ofFile s callPath { data with openFault := some errno } =
      .unreadable size (.call ⟨errno, callPath⟩) := by
  rw [Outcome.ofFile] at h ⊢
  cases hsize : data.sizeFault with
  | some fault =>
    rw [hsize] at h
    cases h
  | none =>
    rw [hsize] at h
    have hsame : FileData.size ⟨data.bytes, some errno, none⟩ = data.size := rfl
    simp only [hsame] at h ⊢
    by_cases hlarge : s.maxFileSize < data.size
    · rw [if_pos hlarge] at h
      cases h
    · rw [if_neg hlarge] at h ⊢
      obtain rfl : data.size = size := by
        have hkept := congrArg Outcome.size h
        rwa [Outcome.size_ofContent] at hkept
      cases hcontent : contentOf s callPath (opened callPath data) with
      | ok text =>
        have hfailing := contentOf_error hcontent ⟨errno, callPath⟩
        rw [opened, hfailing, Outcome.ofContent]
      | error fault =>
        -- What is not read is not taken.
        rw [hcontent] at h
        unfold Outcome.ofContent at h
        split at h <;> cases h
        rename_i hcontent
        cases hcontent

theorem Outcome.exists_taken_of_content? {outcome : Outcome} {content : String}
    (h : outcome.content? = some content) : ∃ size, outcome = .taken size content := by
  cases outcome with
  | taken size text => exact ⟨size, congrArg (Outcome.taken size) (Option.some.inj h)⟩
  | _ => cases h

theorem listing?_eq_none_of_ne_entered {s : ScanSettings} {directory : String} {c : Encounter}
    (h : outcomeAt s directory c ≠ .entered) : c.listing? = none := by
  rw [← Option.not_isSome_iff_eq_none, ← outcomeAt_eq_entered_iff s directory c]
  exact h

/-- A file that is taken is unreadable if it cannot be opened. -/
theorem outcomeAt_failingToOpen {s : ScanSettings} {directory : String} {c : Encounter}
    {size : Nat} {content : String} (h : outcomeAt s directory c = .taken size content)
    (errno : Errno) :
    outcomeAt s directory { c with entry := Entry.failingToOpen errno c.entry } =
      .unreadable size (.call ⟨errno, c.callPath directory⟩) := by
  obtain ⟨hkept, name, obscure, data, hentry⟩ :=
    entry_of_isSome_content? (congrArg (fun outcome => outcome.content?.isSome) h)
  rw [outcomeAt, hkept, hentry] at h
  rw [outcomeAt, hentry, Entry.failingToOpen]
  simp only [hkept]
  exact ofFile_failingToOpen h errno

/-- A directory that is entered is unlistable if it cannot be listed. -/
theorem outcomeAt_failingToList (s : ScanSettings) (directory : String) {c : Encounter}
    {inside : List Entry} (h : c.listing? = some inside) (errno : Errno) :
    outcomeAt s directory { c with entry := Entry.failingToList errno c.entry } =
      .unlistable ⟨errno, c.callPath directory⟩ := by
  obtain ⟨hkept, name, hentry⟩ := Encounter.listing?_eq_some_iff.mp h
  rw [outcomeAt, hentry, Entry.failingToList]
  simp only [hkept]
  rfl

section

variable {s : ScanSettings} {rules? : Option (List Rule)} {directory : String}
  {entries : List Entry}

/-- A walk that no encounter stops makes the visits of all of them. -/
theorem found_visitAll {engine? : Option Engine} (hf : Follows engine? rules?)
    (hentries : Entry.areWellNamed entries = true)
    (hstop : ∀ c ∈ encountersAmong s.includeDotFiles rules? [] entries,
      (outcomeAt s directory c).stop? = none) :
    (visitAll s "" directory engine? entries).found =
      (encountersAmong s.includeDotFiles rules? [] entries).map (visitAt s directory) := by
  have hm := visitAll_mirrors hf (List.forall_mem_nil _) s directory entries hentries
  rw [String.intercalate_nil, visitsAmong_nil_eq_map] at hm
  rw [hm.found, untilStop_eq_self]
  rw [stopAmong?, List.findSome?_map, List.findSome?_eq_none_iff]
  exact hstop

/-- If the entry of an encounter is changed so that it is not entered, and does not stop the scan,
the next scan makes the same visits apart from those at and below that entry. -/
theorem exists_run_changeBelow {engine? : Option Engine} (hf : Follows engine? rules?)
    {fs : FileSystem} (hfs : fs.IsWellFormed) (hlist : fs.list directory = .ok entries)
    (hstop : ∀ c ∈ encountersAmong s.includeDotFiles rules? [] entries,
      (outcomeAt s directory c).stop? = none)
    {change : Entry → Entry} (hchange : ∀ entry, (change entry).outline = entry.outline)
    {c : Encounter} (hc : c ∈ encountersAmong s.includeDotFiles rules? [] entries)
    (hleft : outcomeAt s directory { c with entry := change c.entry } ≠ .entered)
    (hgoesOn : (outcomeAt s directory { c with entry := change c.entry }).stop? = none) :
    ∃ front back,
      encountersAmong s.includeDotFiles rules? [] entries =
        front ++ c :: encountersAmong s.includeDotFiles rules? c.names (c.listing?.getD []) ++
          back ∧
      (∀ e ∈ front ++ back, isBelow c.path e.path = false) ∧
      (run s (fs.changeBelow directory change c.path) engine? directory).result =
        .ok (.ofVisits (front.map (visitAt s directory) ++
          [visitAt s directory { c with entry := change c.entry }] ++
            back.map (visitAt s directory))) := by
  have hentries := FileSystem.areWellNamed_of_list hfs.toIsWellNamed hlist
  have hself := (Traversal.eq_ofEntry_of_mem_encountersAmong hentries hc).1
  obtain ⟨hall, hne⟩ := Traversal.isName_of_mem_encountersAmong hentries hc
  obtain ⟨front, front', back, hmet, hchanged, hfront, hothers⟩ :=
    Traversal.differAt_encountersAmong change (List.forall_mem_nil _) hentries
      (FileSystem.areDistinct_of_list hfs hlist) hc (List.nil_append c.names).symm
  -- The changed entry is met in place of the encounter and of all that was met below it.
  have hself' := (Encounter.ofEntry_eq_of_outline hself (hchange c.entry)).symm
  have halone := Encounter.encountersOf_entry hself'
  rw [listing?_eq_none_of_ne_entered hleft, Option.getD_none, encountersAmong] at halone
  rw [Encounter.encountersOf_entry hself] at hmet
  rw [halone] at hchanged
  have hvisits := map_visitAt_eq s directory hfront
  refine ⟨front, back, hmet, ?_, ?_⟩
  · intro e he
    have hemet : e ∈ encountersAmong s.includeDotFiles rules? [] entries := by
      rw [hmet]
      rcases List.mem_append.mp he with he | he
      · exact List.mem_append_left _ (List.mem_append_left _ he)
      · exact List.mem_append_right _ he
    rw [Bool.eq_false_iff]
    intro hbelow
    have hgood := (Traversal.isName_of_mem_encountersAmong hentries hemet).1
    obtain ⟨first, below, heq⟩ := (FileSystem.isBelow_intercalate_iff hall hne hgood).mp hbelow
    exact hothers e he ⟨first :: below, heq.symm⟩
  · have hlist' := FileSystem.list_changeBelow hchange hlist c.path
    rw [Encounter.path, FileSystem.steps_intercalate hall hne] at hlist'
    have hnames' := FileSystem.isWellNamed_changeBelow hchange hfs.toIsWellNamed directory c.path
    refine (run_result_eq_ok_iff_encounters hf hnames').mpr ⟨_, hlist', ?_, ?_⟩
    · intro e he
      rw [hchanged, List.mem_append, List.mem_append, List.mem_singleton] at he
      rcases he with (he | rfl) | he
      · -- What comes before is visited as in the first scan.
        have hvisited : visitAt s directory e ∈ front.map (visitAt s directory) :=
          hvisits ▸ List.mem_map_of_mem he
        obtain ⟨first, hfirst, hsame⟩ := List.mem_map.mp hvisited
        have hcontinues := hstop first (by rw [hmet]; simp [hfirst])
        have houtcome : outcomeAt s directory first = outcomeAt s directory e :=
          congrArg Visit.outcome hsame
        rwa [houtcome] at hcontinues
      · exact hgoesOn
      · exact hstop e (by rw [hmet]; simp [he])
    · rw [hchanged]
      simp only [List.map_append, List.map_singleton, hvisits]

/-- A scan that takes a file returns without it if the file can no longer be opened. -/
theorem exists_losesFile {engine? : Option Engine} (hf : Follows engine? rules?)
    {fs : FileSystem} (hfs : fs.IsWellFormed) (hlist : fs.list directory = .ok entries)
    (hstop : ∀ c ∈ encountersAmong s.includeDotFiles rules? [] entries,
      (outcomeAt s directory c).stop? = none)
    {c : Encounter} (hc : c ∈ encountersAmong s.includeDotFiles rules? [] entries)
    {size : Nat} {content : String} (htaken : outcomeAt s directory c = .taken size content)
    (errno : Errno) :
    let visits := (encountersAmong s.includeDotFiles rules? [] entries).map (visitAt s directory)
    ∃ before after result', visits = before ++ visitAt s directory c :: after ∧
      (run s (fs.changeBelow directory (Entry.failingToOpen errno) c.path) engine?
        directory).result = .ok result' ∧
      LosesFile before ⟨c.path, content⟩ ⟨errno, c.callPath directory⟩ after (.ofVisits visits)
        result' := by
  intro visits
  have houtcome := outcomeAt_failingToOpen htaken errno
  have hleft : outcomeAt s directory { c with entry := Entry.failingToOpen errno c.entry } ≠
      .entered := by
    rw [houtcome]
    exact Outcome.noConfusion
  obtain ⟨front, back, hmet, -, hrun⟩ := exists_run_changeBelow hf hfs hlist hstop
    (Entry.outline_failingToOpen errno) hc hleft (by rw [houtcome]; rfl)
  have hleaf : c.listing? = none := by
    refine listing?_eq_none_of_ne_entered (?_ : outcomeAt s directory c ≠ .entered)
    rw [htaken]
    exact Outcome.noConfusion
  rw [hleaf, Option.getD_none, encountersAmong] at hmet
  have hvisits : visits = front.map (visitAt s directory) ++
      visitAt s directory c :: back.map (visitAt s directory) := by
    simp only [visits, hmet, List.map_append, List.map_cons, List.append_assoc,
      List.singleton_append]
  refine ⟨_, _, _, hvisits, hrun, ?_⟩
  rw [hvisits, visitAt, htaken, visitAt, houtcome]
  exact losesFile_ofVisits _ _ _ _ _ _ _

/-- Of what is visited before, at, below and behind a directory, just what is visited below it has
paths below its path. -/
theorem filter_isBelow {c : Encounter} (hall : ∀ n ∈ c.names, IsName n) (hne : c.names ≠ [])
    {inside : List Entry} (hinside : Entry.areWellNamed inside = true)
    {front back : List Encounter} (hothers : ∀ e ∈ front ++ back, isBelow c.path e.path = false) :
    ((front ++ c :: encountersAmong s.includeDotFiles rules? c.names inside ++ back).map
        (visitAt s directory)).filter (fun w => isBelow c.path w.path) =
      (encountersAmong s.includeDotFiles rules? c.names inside).map (visitAt s directory) := by
  have hnone : ∀ es : List Encounter, (∀ e ∈ es, isBelow c.path e.path = false) →
      (es.map (visitAt s directory)).filter (fun w => isBelow c.path w.path) = [] := by
    intro es hsub
    rw [List.filter_map, List.map_eq_nil_iff, List.filter_eq_nil_iff]
    exact fun e he => Bool.eq_false_iff.mp (hsub e he)
  have hself : isBelow c.path (visitAt s directory c).path = false := by
    rw [Bool.eq_false_iff]
    intro hbelow
    obtain ⟨first, more, hlonger⟩ := (FileSystem.isBelow_intercalate_iff hall hne hall).mp hbelow
    have hlength := congrArg List.length hlonger
    simp at hlength
  have hall : ((encountersAmong s.includeDotFiles rules? c.names inside).map
      (visitAt s directory)).filter (fun w => isBelow c.path w.path) =
        (encountersAmong s.includeDotFiles rules? c.names inside).map (visitAt s directory) := by
    rw [List.filter_eq_self, List.forall_mem_map]
    intro e he
    obtain ⟨hgood, first, more, hlonger, -⟩ := Traversal.mem_encountersAmong hall inside hinside he
    exact (FileSystem.isBelow_intercalate_iff hall hne hgood).mpr ⟨first, more, hlonger⟩
  obtain ⟨hfront, hback⟩ := List.forall_mem_append.mp hothers
  rw [List.map_append, List.map_append, List.map_cons, List.filter_append, List.filter_append,
    List.filter_cons, hself, if_neg Bool.false_ne_true, hall, hnone front hfront, hnone back hback,
    List.nil_append, List.append_nil]

/-- A scan that enters a directory returns without what is below it if the directory can no longer
be listed. -/
theorem exists_losesDirectory {engine? : Option Engine} (hf : Follows engine? rules?)
    {fs : FileSystem} (hfs : fs.IsWellFormed) (hlist : fs.list directory = .ok entries)
    (hstop : ∀ c ∈ encountersAmong s.includeDotFiles rules? [] entries,
      (outcomeAt s directory c).stop? = none)
    {c : Encounter} (hc : c ∈ encountersAmong s.includeDotFiles rules? [] entries)
    (hentered : outcomeAt s directory c = .entered) (errno : Errno) :
    let visits := (encountersAmong s.includeDotFiles rules? [] entries).map (visitAt s directory)
    let below := visits.filter fun w => isBelow c.path w.path
    ∃ before after result', visits = before ++ visitAt s directory c :: below ++ after ∧
      (run s (fs.changeBelow directory (Entry.failingToList errno) c.path) engine?
        directory).result = .ok result' ∧
      LosesDirectory before below after c.path ⟨errno, c.callPath directory⟩ (.ofVisits visits)
        result' := by
  intro visits below
  obtain ⟨inside, hlisting⟩ :=
    Option.isSome_iff_exists.mp ((outcomeAt_eq_entered_iff s directory c).mp hentered)
  have houtcome := outcomeAt_failingToList s directory hlisting errno
  have hleft : outcomeAt s directory { c with entry := Entry.failingToList errno c.entry } ≠
      .entered := by
    rw [houtcome]
    exact Outcome.noConfusion
  obtain ⟨front, back, hmet, hothers, hrun⟩ := exists_run_changeBelow hf hfs hlist
    hstop (Entry.outline_failingToList errno) hc hleft (by rw [houtcome]; rfl)
  rw [hlisting, Option.getD_some] at hmet
  have hentries := FileSystem.areWellNamed_of_list hfs.toIsWellNamed hlist
  obtain ⟨hall, hne⟩ := Traversal.isName_of_mem_encountersAmong hentries hc
  have hinside : Entry.areWellNamed inside = true := by
    obtain ⟨-, name, hentry⟩ := Encounter.listing?_eq_some_iff.mp hlisting
    have hwell := (Traversal.eq_ofEntry_of_mem_encountersAmong hentries hc).2
    rw [hentry, Entry.isWellNamed, Bool.and_eq_true] at hwell
    exact hwell.2
  have hbelow : below =
      (encountersAmong s.includeDotFiles rules? c.names inside).map (visitAt s directory) := by
    rw [← filter_isBelow hall hne hinside hothers, ← hmet]
  have hvisits : visits = front.map (visitAt s directory) ++ visitAt s directory c :: below ++
      back.map (visitAt s directory) := by
    rw [hbelow, ← List.map_cons, ← List.map_append, ← List.map_append, ← hmet]
  refine ⟨_, _, _, hvisits, hrun, ?_⟩
  rw [hvisits, visitAt, hentered, visitAt, houtcome]
  exact losesDirectory_ofVisits _ _ _ _ _ _

end

/-- Failures are isolated. Whenever a scan returns, it returns as well if a file that it takes can
no longer be opened, or if a directory that it enters can no longer be listed, whatever was asked of
the two engines before as long as their rules are the same. The second result is the first one
without the file, or without what was visited below the directory, and with one error more in its
place among what was visited. -/
theorem run_isolates_failures {s : ScanSettings} {engine? engine?' : Option Engine}
    (hengine : ∀ e ∈ engine?, e.Reachable) (hengine' : ∀ e ∈ engine?', e.Reachable)
    (hrules : engine?.map Engine.rules = engine?'.map Engine.rules) {fs : FileSystem}
    (hfs : fs.IsWellFormed) {directory : String} {result : Result}
    (hscan : (run s fs engine? directory).result = .ok result) (errno : Errno) :
    ∃ entries, fs.list directory = .ok entries ∧
      let visits := (visitAll s "" directory engine? entries).found
      (∀ f ∈ result.files, ∃ before v after result',
        visits = before ++ v :: after ∧ v.path = f.path ∧
        (run s (fs.changeBelow directory (Entry.failingToOpen errno) f.path) engine?'
          directory).result = .ok result' ∧
        LosesFile before f ⟨errno, (steps f.path).foldl childPath directory⟩ after result
          result') ∧
      ∀ v ∈ visits, v.outcome = .entered → ∃ before after result',
        visits = before ++ v :: visits.filter (fun w => isBelow v.path w.path) ++ after ∧
        (run s (fs.changeBelow directory (Entry.failingToList errno) v.path) engine?'
          directory).result = .ok result' ∧
        LosesDirectory before (visits.filter fun w => isBelow v.path w.path) after v.path
          ⟨errno, (steps v.path).foldl childPath directory⟩ result result' := by
  have hf := Ignore.follows_of_reachable hengine
  have hf' : Follows engine?' (engine?.map Engine.rules) := by
    rw [hrules]
    exact Ignore.follows_of_reachable hengine'
  obtain ⟨entries, hlist, hstop, rfl⟩ :=
    (run_result_eq_ok_iff_encounters hf hfs.toIsWellNamed).mp hscan
  have hentries := FileSystem.areWellNamed_of_list hfs.toIsWellNamed hlist
  refine ⟨entries, hlist, ?_⟩
  intro visits
  have hvisits : visits = _ := found_visitAll hf hentries hstop
  have hcall : ∀ c ∈ encountersAmong s.includeDotFiles (engine?.map Engine.rules) [] entries,
      (steps c.path).foldl childPath directory = c.callPath directory := by
    intro c hc
    obtain ⟨hall, hne⟩ := Traversal.isName_of_mem_encountersAmong hentries hc
    rw [Encounter.path, FileSystem.steps_intercalate hall hne, Encounter.callPath]
  constructor
  · intro f hfile
    obtain ⟨v, hv, hread⟩ := List.mem_filterMap.mp hfile
    obtain ⟨c, hc, rfl⟩ := List.mem_map.mp hv
    obtain ⟨content, hcontent, rfl⟩ := Option.map_eq_some_iff.mp hread
    obtain ⟨size, htaken⟩ : ∃ size, outcomeAt s directory c = .taken size content :=
      Outcome.exists_taken_of_content? hcontent
    obtain ⟨before, after, result', hsplit, hrun, hloses⟩ :=
      exists_losesFile hf' hfs hlist hstop hc htaken errno
    rw [← hcall c hc] at hloses
    exact ⟨before, _, after, result', hvisits.trans hsplit, rfl, hrun, hloses⟩
  · intro v hv hentered
    rw [hvisits] at hv ⊢
    obtain ⟨c, hc, rfl⟩ := List.mem_map.mp hv
    have hloses := exists_losesDirectory hf' hfs hlist hstop hc hentered errno
    rw [← hcall c hc] at hloses
    exact hloses

/-- If the file `src/notes.txt` of the project cannot be opened, or its directory `src` cannot be
listed, an engine that was asked before scans the rest as ever. -/
theorem run_isolates_failures_crowdedSystem :
    let s : ScanSettings := { ScanSettings.default with maxFileSize := 4 }
    let engine? := some (Engine.ofHistory true [.add (.list [some "build/"])])
    let engine?' := some (Engine.ofHistory true
      [.add (.list [some "build/"]), .ignores "src" true])
    ∃ result, (run s crowdedSystem engine? "project").result = .ok result ∧
      (∃ before after result',
        (run s (crowdedSystem.changeBelow "project" (Entry.failingToOpen .inputOutput)
          "src/notes.txt") engine?' "project").result = .ok result' ∧
        LosesFile before ⟨"src/notes.txt", "ok"⟩ ⟨.inputOutput, "project/src/notes.txt"⟩ after
          result result') ∧
      ∃ before below after result',
        (run s (crowdedSystem.changeBelow "project" (Entry.failingToList .inputOutput)
          "src") engine?' "project").result = .ok result' ∧
        LosesDirectory before below after "src" ⟨.inputOutput, "project/src"⟩ result result' := by
  intro s engine? engine?'
  have hengine : ∀ e ∈ engine?, e.Reachable := fun e he => ⟨_, _, (Option.some.inj he).symm⟩
  have hengine' : ∀ e ∈ engine?', e.Reachable := fun e he => ⟨_, _, (Option.some.inj he).symm⟩
  have hrules : engine?.map Engine.rules = engine?'.map Engine.rules := by
    simp only [engine?, engine?', Option.map_some, (Engine.ofHistory_spec _ _).1]
    rfl
  have hscan : (run s crowdedSystem engine? "project").result =
      .ok ⟨[⟨"src/lib/main.txt", "hi"⟩, ⟨"src/notes.txt", "ok"⟩],
        ⟨2, 9, 15, [⟨"locked", "[Errno 13] Permission denied: 'project/locked'"⟩,
          ⟨"lost", "[Errno 5] Input/output error: 'project/lost'"⟩,
          ⟨"src/shut", "[Errno 13] Permission denied: 'project/src/shut'"⟩,
          ⟨"src/broken",
            "'utf-8' codec can't decode byte 0xff in position 0: invalid start byte"⟩]⟩⟩ := by
    decide +kernel
  obtain ⟨entries, hlist, hfiles, hdirectories⟩ :=
    run_isolates_failures hengine hengine' hrules (by decide) hscan .inputOutput
  obtain rfl := Except.ok.inj (hlist.symm.trans (rfl : crowdedSystem.list "project" = .ok _))
  refine ⟨_, hscan, ?_, ?_⟩
  · obtain ⟨before, v, after, result', -, -, hrun, hloses⟩ :=
      hfiles ⟨"src/notes.txt", "ok"⟩ (by decide)
    have hcall : (steps "src/notes.txt").foldl childPath "project" = "project/src/notes.txt" := by
      decide
    rw [hcall] at hloses
    exact ⟨before, after, result', hrun, hloses⟩
  · obtain ⟨before, after, result', -, hrun, hloses⟩ :=
      hdirectories ⟨"src", "project/src", .entered⟩ (by decide +kernel) rfl
    have hcall : (steps "src").foldl childPath "project" = "project/src" := by decide
    rw [hcall] at hloses
    exact ⟨before, _, after, result', hrun, hloses⟩

end SourceSnapshot.Scan
