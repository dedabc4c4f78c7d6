import SourceSnapshot.Proofs.FileSystem.Descent
import SourceSnapshot.Proofs.Scan.Accounting
import SourceSnapshot.Proofs.Scan.Enumeration

/-!
# Opening the files of a scan

A single file may be opened by its path, under the same settings as a scan. It is tested for being
binary, opened and read as in the scan, and what goes wrong on the way comes back as a failure where
the scan records an error or passes the file over. So what comes back tells what the scan reports of
the file.
-/

namespace SourceSnapshot.Scan

open FileSystem (AccessFault CallFault Entry FileData)
open Ignore (Engine)
open Traversal (Encounter encountersAmong)

/-- The same fault, with another kind of failed access. -/
def ContentFault.mapAccess {ε δ : Type} (f : ε → δ) : ContentFault ε → ContentFault δ
  | .binary => .binary
  | .access fault => .access (f fault)
  | .read fault => .read fault

/-- What is said of a file that a call failed for, or whose bytes break a rule of the encoding. -/
def ContentFault.reason? : ContentFault AccessFault → Option String
  | .access (.call fault) => some fault.message
  | .read (.malformed fault) => some fault.message
  | _ => none

/-- Opening a file that a scan comes by tells what the result of the scan reports of it. -/
structure OpensAsScanned (s : ScanSettings) (fs : FileSystem) (directory : String) (c : Encounter)
    (result : Result) : Prop where
  text (content : String) : openFile s fs (c.callPath directory) = .ok content ↔
    ⟨c.path, content⟩ ∈ result.files
  binary : openFile s fs (c.callPath directory) = .error .binary ↔
    c.path ∉ result.files.map FileText.path ∧
      c.path ∉ result.stats.errors.map RecordedError.path
  failure (reason : String) :
    (∃ fault, openFile s fs (c.callPath directory) = .error fault ∧ fault.reason? = some reason) ↔
      ⟨c.path, reason⟩ ∈ result.stats.errors

/-- The content of a file does not depend on how a failed opening is named. -/
theorem contentOf_mapError {ε δ : Type} (s : ScanSettings) (path : String)
    (file : Except ε FileData) (f : ε → δ) :
    contentOf s path (file.mapError f) =
      (contentOf s path file).mapError (ContentFault.mapAccess f) := by
  have hread : readText s (file.mapError f) =
      (readText s file).mapError (ContentFault.mapAccess f) := by
    cases file with
    | error fault => rfl
    | ok data =>
      simp only [Except.mapError, readText]
      cases s.encoding.read data.toList <;> rfl
  rw [contentOf, contentOf]
  by_cases hwanted : s.includeBinaryFiles = true
  · rw [if_pos hwanted, if_pos hwanted, hread]
  · rw [if_neg hwanted, if_neg hwanted, hread, isBinary, isBinary]
    cases s.binaryTest with
    | some test =>
      simp only
      cases test path <;> rfl
    | none =>
      cases file with
      | error fault => rfl
      | ok data =>
        simp only [Except.mapError, Except.map]
        cases looksBinary data sniffSize <;> rfl

/-- A path that leads to a file opens it, unless the opening of the file fails. -/
theorem openFile_of_lookUp {fs : FileSystem} {path : String} {data : FileData}
    {above : List String} {name : String} (h : fs.lookUp path = .ok (.file data above name)) :
    fs.openFile path = (opened path data).mapError .call := by
  rw [FileSystem.openFile, h, opened]
  simp only [bind, Except.bind]
  cases data.openFault <;> rfl

section

variable {size : Nat} {found : Except (ContentFault CallFault) String}

/-- A content is found if it is the one that is taken. -/
theorem mapError_eq_ok_iff {content : String} :
    found.mapError (ContentFault.mapAccess AccessFault.call) = .ok content ↔
      (Outcome.ofContent size found).content? = some content := by
  rw [content?_ofContent]
  cases found with
  | error fault => exact iff_of_false nofun nofun
  | ok text =>
    rw [Except.mapError, Except.toOption, Except.ok.injEq, Option.some.injEq]

/-- A file is found to be binary if nothing is taken of it and no error is recorded, provided that
it does not stop the scan. -/
theorem mapError_eq_binary_iff (h : (Outcome.ofContent size found).stop? = none) :
    found.mapError (ContentFault.mapAccess AccessFault.call) = .error .binary ↔
      (Outcome.ofContent size found).content?.isSome ≠ true ∧
        (Outcome.ofContent size found).error?.isSome ≠ true := by
  rcases found with fault | content
  · rcases fault with _ | access | read
    · exact iff_of_true rfl ⟨nofun, nofun⟩
    · exact iff_of_false nofun fun hnone => hnone.2 rfl
    · cases read with
      | malformed rule => exact iff_of_false nofun fun hnone => hnone.2 rfl
      | unmarked | notText | refused => cases h
  · exact iff_of_false nofun fun hnone => hnone.1 rfl

/-- A call is found to fail, or bytes to be no text, if that is the error that is recorded. -/
theorem exists_mapError_eq_error_iff {reason : String} :
    (∃ fault, found.mapError (ContentFault.mapAccess AccessFault.call) = .error fault ∧
        fault.reason? = some reason) ↔
      (Outcome.ofContent size found).error? = some reason := by
  constructor
  · rintro ⟨fault, hfound, hreason⟩
    rcases found with fault' | content
    · obtain rfl := Except.error.inj hfound
      rcases fault' with _ | access | read
      · cases hreason
      · exact hreason
      · cases read with
        | malformed rule => exact hreason
        | unmarked | notText | refused => cases hreason
    · cases hfound
  · intro herror
    rcases found with fault | content
    · refine ⟨fault.mapAccess AccessFault.call, rfl, ?_⟩
      rcases fault with _ | access | read
      · cases herror
      · exact herror
      · cases read with
        | malformed rule => exact herror
        | unmarked | notText | refused => cases herror
    · cases herror

end

/-- What becomes of a file that is kept follows from its content, if its size is told and within the
limit. -/
theorem outcomeAt_of_size_le {s : ScanSettings} {directory : String} {c : Encounter}
    (hkept : c.exclusion? = none) {name : String} {obscure : Bool} {data : FileData}
    (hentry : c.entry = .file name obscure data) (hsized : data.sizeFault = none)
    (hsize : data.size ≤ s.maxFileSize) :
    outcomeAt s directory c = .ofContent data.size
      (contentOf s (c.callPath directory) (opened (c.callPath directory) data)) := by
  rw [outcomeAt, hkept, hentry]
  simp only [Outcome.ofFile, hsized, if_neg (Nat.not_lt.mpr hsize)]

/-- Whenever a scan returns, every regular file that it comes by and keeps, and whose size is told
by its path and within the limit, opens as it was scanned: its text comes back if that is the text
that was taken, it is refused as binary if it was passed over and no error is recorded, and a failed
call or a broken rule of the encoding is reported if that is the error that is recorded. -/
theorem run_opensAsScanned {s : ScanSettings} {engine? : Option Engine}
    (hengine : ∀ e ∈ engine?, e.Reachable) {fs : FileSystem}
    (hfs : fs.IsWellFormed) {directory : String} {result : Result}
    (hscan : (run s fs engine? directory).result = .ok result) :
    ∃ entries, fs.list directory = .ok entries ∧
      ∀ c ∈ encountersAmong s.includeDotFiles (engine?.map Engine.rules) [] entries,
        c.exclusion? = none → ∀ name obscure data, c.entry = .file name obscure data →
          ∀ size ≤ s.maxFileSize, fs.fileSize? (c.callPath directory) = some size →
            OpensAsScanned s fs directory c result := by
  have hf := Ignore.follows_of_reachable hengine
  obtain ⟨entries, hlist, hstop, rfl⟩ :=
    (run_result_eq_ok_iff_encounters hf hfs.toIsWellNamed).mp hscan
  have hentries := FileSystem.areWellNamed_of_list hfs.toIsWellNamed hlist
  have hapart := FileSystem.areDistinct_of_list hfs hlist
  refine ⟨entries, hlist, fun c hc hkept name obscure data hentry size hsize htold => ?_⟩
  have hpaths : ((encountersAmong s.includeDotFiles (engine?.map Engine.rules) [] entries).map
      Encounter.path).Nodup :=
    Traversal.nodup_path_encountersAmong entries hentries hapart
  -- The path that the scan used leads back to the file that it came by.
  obtain ⟨hall, first, below, hbelow, hamong⟩ :=
    Traversal.mem_encountersAmong (List.forall_mem_nil _) entries hentries hc
  have hfile : Entry.among? entries c.names = some (.file name obscure data) := by
    rw [hbelow, List.nil_append, hamong hapart, hentry]
  obtain ⟨⟨above, last, hlook⟩, hsized, rfl⟩ :=
    FileSystem.lookUp_of_fileSize? hlist hall hfile htold
  have hopen : openFile s fs (c.callPath directory) =
      (contentOf s (c.callPath directory) (opened (c.callPath directory) data)).mapError
        (ContentFault.mapAccess AccessFault.call) := by
    rw [openFile, Encounter.callPath, openFile_of_lookUp hlook, contentOf_mapError]
  have houtcome : outcomeAt s directory c = _ := outcomeAt_of_size_le hkept hentry hsized hsize
  have hgoes := hstop c hc
  rw [houtcome] at hgoes
  refine ⟨fun content => ?_, ?_, fun reason => ?_⟩
  · rw [mem_files_ofVisits_iff hpaths hc, houtcome, hopen, mapError_eq_ok_iff]
  · rw [mem_map_path_files_iff hpaths hc, mem_map_path_errors_iff hpaths hc, houtcome, hopen,
      mapError_eq_binary_iff hgoes]
  · rw [mem_errors_ofVisits_iff hpaths hc, houtcome, hopen, exists_mapError_eq_error_iff]

/-- The file at these names below the directory of a project, kept by the rules. -/
def keptFile (above : List String) (name : String) (data : FileData) : Encounter :=
  ⟨above ++ [name], .file name false data, none⟩

/-- Of four files of the project one is refused as binary, one cannot be opened, the bytes of one
are no text, and one is a text. -/
theorem run_opensAsScanned_crowdedSystem :
    let s : ScanSettings := { ScanSettings.default with maxFileSize := 4 }
    let image := keptFile ["src"] "image" ⟨⟨#[1, 0]⟩, none, none⟩
    let shut := keptFile ["src"] "shut" ⟨⟨#[97, 98, 99]⟩, some .accessDenied, none⟩
    let broken := keptFile ["src"] "broken" ⟨⟨#[255]⟩, none, none⟩
    let main := keptFile ["src", "lib"] "main.txt" ⟨⟨#[104, 105]⟩, none, none⟩
    ∃ result, (run s crowdedSystem none "project").result = .ok result ∧
      (OpensAsScanned s crowdedSystem "project" image result ∧
        openFile s crowdedSystem "project/src/image" = .error .binary) ∧
      (OpensAsScanned s crowdedSystem "project" shut result ∧
        ∃ fault, openFile s crowdedSystem "project/src/shut" = .error fault ∧
          fault.reason? = some "[Errno 13] Permission denied: 'project/src/shut'") ∧
      (OpensAsScanned s crowdedSystem "project" broken result ∧
        ∃ fault, openFile s crowdedSystem "project/src/broken" = .error fault ∧ fault.reason? =
          some "'utf-8' codec can't decode byte 0xff in position 0: invalid start byte") ∧
      OpensAsScanned s crowdedSystem "project" main result ∧
        openFile s crowdedSystem "project/src/lib/main.txt" = .ok "hi" := by
  intro s image shut broken main
  have hengine : ∀ e ∈ (none : Option Engine), e.Reachable := nofun
  have hscan : (run s crowdedSystem none "project").result =
      .ok ⟨[⟨"build/out.txt", "k"⟩, ⟨"src/lib/main.txt", "hi"⟩, ⟨"src/notes.txt", "ok"⟩],
        ⟨3, 8, 16, [⟨"locked", "[Errno 13] Permission denied: 'project/locked'"⟩,
          ⟨"lost", "[Errno 5] Input/output error: 'project/lost'"⟩,
          ⟨"src/shut", "[Errno 13] Permission denied: 'project/src/shut'"⟩,
          ⟨"src/broken",
            "'utf-8' codec can't decode byte 0xff in position 0: invalid start byte"⟩]⟩⟩ := by
    decide +kernel
  obtain ⟨entries, hlist, hopens⟩ := run_opensAsScanned hengine (by decide) hscan
  obtain rfl := Except.ok.inj (hlist.symm.trans (rfl : crowdedSystem.list "project" = .ok _))
  have himage := hopens image (List.mem_of_getElem? (i := 8) rfl) rfl _ _ _ rfl 2 (by decide)
    (by decide +kernel)
  have hshut := hopens shut (List.mem_of_getElem? (i := 9) rfl) rfl _ _ _ rfl 3 (by decide)
    (by decide +kernel)
  have hbroken := hopens broken (List.mem_of_getElem? (i := 10) rfl) rfl _ _ _ rfl 1 (by decide)
    (by decide +kernel)
  have hmain := hopens main (List.mem_of_getElem? (i := 12) rfl) rfl _ _ _ rfl 2 (by decide)
    (by decide +kernel)
  refine ⟨_, hscan, ⟨himage, ?_⟩, ⟨hshut, ?_⟩, ⟨hbroken, ?_⟩, hmain, ?_⟩
  · exact himage.binary.mpr ⟨by decide +kernel, by decide +kernel⟩
  · exact (hshut.failure _).mpr (by decide +kernel)
  · exact (hbroken.failure _).mpr (by decide +kernel)
  · exact (hmain.text "hi").mpr (by decide +kernel)

end SourceSnapshot.Scan
