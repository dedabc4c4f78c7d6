import SourceSnapshot.Proofs.Scan.Enumeration
import SourceSnapshot.Proofs.Scan.Failures
import SourceSnapshot.Proofs.Text.Encoding

/-!
# The bytes behind the texts of a scan

A scan takes the text of a file as it is read from all of its bytes. No line break is changed and no
byte order mark dropped, so in UTF-8 and in Latin-1 the text that is taken has the bytes of the
file. In UTF-8 the files that can be read are those whose bytes are well-formed, and of the others
an error is recorded.
-/

namespace SourceSnapshot.Scan

open FileSystem (Entry FileData)
open Ignore (Engine)
open Traversal (Encounter encountersAmong)

/-- The result of a scan of a directory with these entries has the bytes of the files that the scan
comes by. -/
structure KeepsBytes (s : ScanSettings) (entries : List Entry) (encounters : List Encounter)
    (result : Result) : Prop where
  utf8 : s.encoding.encoding = .utf8 → ∀ f ∈ result.files, ∃ name obscure data,
    Entry.atPath? entries f.path = some (.file name obscure data) ∧ f.content.toUTF8 = data.bytes
  latin1 : s.encoding.encoding = .page .latin1 → ∀ f ∈ result.files, ∃ name obscure data,
    Entry.atPath? entries f.path = some (.file name obscure data) ∧
      Text.latin1Bytes? f.content = some data.toList
  /-- With binary files wanted, a file that is kept, that is not too large, and of which nothing but
  its bytes stands against reading it, is taken if its bytes are well-formed. -/
  wellFormed : s.encoding.encoding = .utf8 → s.includeBinaryFiles = true →
    ∀ c ∈ encounters, c.exclusion? = none → ∀ name obscure data,
      c.entry = .file name obscure data → data.sizeFault = none → data.openFault = none →
        data.size ≤ s.maxFileSize →
          (c.path ∈ result.files.map FileText.path ↔ data.bytes.IsValidUTF8) ∧
            (c.path ∈ result.stats.errors.map RecordedError.path ↔ ¬data.bytes.IsValidUTF8)

/-- The text that is taken of an entry is the one that is read from the bytes of a regular file. -/
theorem exists_file_of_content? {s : ScanSettings} {directory : String} {c : Encounter}
    {content : String} (h : (outcomeAt s directory c).content? = some content) :
    ∃ name obscure data, c.entry = .file name obscure data ∧
      s.encoding.read data.toList = .ok content := by
  obtain ⟨hkept, name, obscure, data, hentry⟩ :=
    entry_of_isSome_content? (Option.isSome_iff_exists.mpr ⟨content, h⟩)
  refine ⟨name, obscure, data, hentry, ?_⟩
  rw [outcomeAt, hkept, hentry] at h
  have htext := (content?_ofFile s (c.callPath directory) data).symm.trans h
  rw [textOf?] at htext
  split at htext
  · cases hread : s.encoding.read data.toList with
    | error fault =>
      rw [hread] at htext
      cases htext
    | ok text =>
      rw [hread] at htext
      exact congrArg Except.ok (Option.some.inj htext)
  · cases htext

/-- If binary files are wanted, only the bytes of a file decide what becomes of it, provided that
its size is told and within the limit and that it can be opened. -/
theorem ofFile_of_read {s : ScanSettings} (hwanted : s.includeBinaryFiles = true)
    {callPath : String} {data : FileData} (hsized : data.sizeFault = none)
    (hopens : data.openFault = none) (hsize : data.size ≤ s.maxFileSize) :
    Outcome.ofFile s callPath data =
      .ofContent data.size ((s.encoding.read data.toList).mapError .read) := by
  rw [Outcome.ofFile, hsized]
  simp only [if_neg (Nat.not_lt.mpr hsize)]
  rw [contentOf, if_pos hwanted, opened, hopens, readText]

/-- In UTF-8 a file is taken if its bytes are well-formed, and otherwise an error is recorded of it,
if nothing else stands against reading it. -/
theorem ofFile_wellFormed {s : ScanSettings} (hutf8 : s.encoding.encoding = .utf8)
    (hwanted : s.includeBinaryFiles = true) (callPath : String) {data : FileData}
    (hsized : data.sizeFault = none) (hopens : data.openFault = none)
    (hsize : data.size ≤ s.maxFileSize) :
    ((Outcome.ofFile s callPath data).content?.isSome = true ↔ data.bytes.IsValidUTF8) ∧
      ((Outcome.ofFile s callPath data).error?.isSome = true ↔ ¬data.bytes.IsValidUTF8) := by
  have hvalid : (∃ text, s.encoding.read data.toList = .ok text) ↔ data.bytes.IsValidUTF8 :=
    Text.Encoding.exists_read_eq_ok_iff_of_utf8 hutf8
  rw [ofFile_of_read hwanted hsized hopens hsize, ← hvalid]
  cases hread : s.encoding.read data.toList with
  | ok text => exact ⟨iff_of_true rfl ⟨text, rfl⟩, iff_of_false nofun (not_not.mpr ⟨text, rfl⟩)⟩
  | error fault =>
    obtain ⟨rule, rfl⟩ := findsRulesBroken_of_ne (by rw [hutf8]; nofun) (by rw [hutf8]; nofun)
      (by rw [hutf8]; nofun) (by rw [hutf8]; rfl) _ _ hread
    have hnone : ¬∃ text : String,
        (.error (.malformed rule) : Except Text.Encoding.ReadFault String) = .ok text := nofun
    exact ⟨iff_of_false nofun hnone, iff_of_true rfl hnone⟩

/-- Every text that a scan takes is the one that is read from the bytes of the file at its path. -/
theorem exists_file_of_mem_files {s : ScanSettings} {directory : String}
    {rules? : Option (List Ignore.Rule)} {entries : List Entry}
    (hentries : Entry.areWellNamed entries = true) (hdistinct : Entry.areDistinct entries = true)
    {f : FileText} (hf : f ∈ (Result.ofVisits ((encountersAmong s.includeDotFiles rules? []
      entries).map (visitAt s directory))).files) :
    ∃ name obscure data, Entry.atPath? entries f.path = some (.file name obscure data) ∧
      s.encoding.read data.toList = .ok f.content := by
  obtain ⟨v, hv, htaken⟩ := List.mem_filterMap.mp hf
  obtain ⟨c, hc, rfl⟩ := List.mem_map.mp hv
  obtain ⟨content, hcontent, rfl⟩ := Option.map_eq_some_iff.mp htaken
  obtain ⟨name, obscure, data, hentry, hread⟩ := exists_file_of_content? hcontent
  refine ⟨name, obscure, data, ?_, hread⟩
  rw [← hentry]
  exact Traversal.atPath?_of_mem_encountersAmong hentries hdistinct hc

/-- Whenever a scan returns, the texts that it takes in UTF-8 or Latin-1 have the bytes of the files
at their paths; and with UTF-8 and binary files wanted, a file that is kept and can be opened is
taken if its bytes are well-formed, and otherwise has its error recorded, unless it is too large. -/
theorem run_keepsBytes {s : ScanSettings} {engine? : Option Engine}
    (hengine : ∀ e ∈ engine?, e.Reachable) {fs : FileSystem}
    (hfs : fs.IsWellFormed) {directory : String} {result : Result}
    (hscan : (run s fs engine? directory).result = .ok result) :
    ∃ entries, fs.list directory = .ok entries ∧
      KeepsBytes s entries
        (encountersAmong s.includeDotFiles (engine?.map Engine.rules) [] entries) result := by
  have hf := Ignore.follows_of_reachable hengine
  obtain ⟨entries, hlist, -, rfl⟩ := (run_result_eq_ok_iff_encounters hf hfs.toIsWellNamed).mp hscan
  have hentries := FileSystem.areWellNamed_of_list hfs.toIsWellNamed hlist
  have hapart := FileSystem.areDistinct_of_list hfs hlist
  refine ⟨entries, hlist, ?_, ?_, ?_⟩
  · intro hutf8 f hfile
    obtain ⟨name, obscure, data, hpath, hread⟩ := exists_file_of_mem_files hentries hapart hfile
    exact ⟨name, obscure, data, hpath, (Text.Encoding.read_eq_ok_iff_of_utf8 hutf8).mp hread⟩
  · intro hlatin1 f hfile
    obtain ⟨name, obscure, data, hpath, hread⟩ := exists_file_of_mem_files hentries hapart hfile
    exact ⟨name, obscure, data, hpath, Text.Encoding.latin1Bytes?_of_read hlatin1 hread⟩
  · intro hutf8 hwanted c hc hkept name obscure data hentry hsized hopens hsize
    have hpaths : ((encountersAmong s.includeDotFiles (engine?.map Engine.rules) [] entries).map
        Encounter.path).Nodup :=
      Traversal.nodup_path_encountersAmong entries hentries hapart
    have houtcome : outcomeAt s directory c = .ofFile s (c.callPath directory) data := by
      rw [outcomeAt, hkept, hentry]
    rw [mem_map_path_files_iff hpaths hc, mem_map_path_errors_iff hpaths hc, houtcome]
    exact ofFile_wellFormed hutf8 hwanted _ hsized hopens hsize

/-- A project with a text that starts with a byte order mark, has line breaks of two kinds and ends
without one; and files with an overlong form, a surrogate, a value above U+10FFFF and a character
cut off. -/
def encodedProject : List Entry :=
  [.file "mixed.txt" false ⟨⟨#[0xEF, 0xBB, 0xBF, 97, 13, 98, 13, 10, 99]⟩, none, none⟩,
    .file "overlong" false ⟨⟨#[0xC0, 0xAF]⟩, none, none⟩,
    .file "surrogate" false ⟨⟨#[0xED, 0xA0, 0x80]⟩, none, none⟩,
    .file "beyond" false ⟨⟨#[0xF4, 0x90, 0x80, 0x80]⟩, none, none⟩,
    .file "cut" false ⟨⟨#[0xE2, 0x82]⟩, none, none⟩]

/-- The file system that holds only this project. -/
def encodedSystem : FileSystem :=
  .ofWorkingDirectory ["work"] [.directory "project" false none encodedProject]

/-- In UTF-8 only the text is taken, with its mark and its line breaks; in Latin-1 all five files
are. -/
theorem run_keepsBytes_encodedSystem :
    let utf8 : ScanSettings := { ScanSettings.default with includeBinaryFiles := true }
    let latin1 : ScanSettings :=
      { utf8 with encoding := ⟨"latin-1", .page .latin1, Or.inl (by rfl)⟩ }
    let kept : Result := ⟨[⟨"mixed.txt", "\ufeffa\rb\r\nc"⟩], ⟨1, 4, 20, [
      ⟨"overlong", "'utf-8' codec can't decode byte 0xc0 in position 0: invalid start byte"⟩,
      ⟨"surrogate",
        "'utf-8' codec can't decode byte 0xed in position 0: invalid continuation byte"⟩,
      ⟨"beyond", "'utf-8' codec can't decode byte 0xf4 in position 0: invalid continuation byte"⟩,
      ⟨"cut", "'utf-8' codec can't decode bytes in position 0-1: unexpected end of data"⟩]⟩⟩
    let all : Result := ⟨[⟨"mixed.txt", "\xef\xbb\xbfa\rb\r\nc"⟩, ⟨"overlong", "\xc0\xaf"⟩,
      ⟨"surrogate", "\xed\xa0\x80"⟩, ⟨"beyond", "\xf4\x90\x80\x80"⟩, ⟨"cut", "\xe2\x82"⟩],
      ⟨5, 0, 20, []⟩⟩
    encodedSystem.list "project" = .ok encodedProject ∧
      (run utf8 encodedSystem none "project").result = .ok kept ∧
      KeepsBytes utf8 encodedProject (encountersAmong utf8.includeDotFiles none [] encodedProject)
        kept ∧
      (run latin1 encodedSystem none "project").result = .ok all ∧
      KeepsBytes latin1 encodedProject
        (encountersAmong latin1.includeDotFiles none [] encodedProject) all := by
  intro utf8 latin1 kept all
  have hlist : encodedSystem.list "project" = .ok encodedProject := rfl
  have hengine : ∀ e ∈ (none : Option Engine), e.Reachable := nofun
  have hkept : (run utf8 encodedSystem none "project").result = .ok kept := by decide +kernel
  have hall : (run latin1 encodedSystem none "project").result = .ok all := by decide +kernel
  obtain ⟨entries, hentries, hutf8⟩ := run_keepsBytes hengine (by decide) hkept
  obtain ⟨entries', hentries', hlatin1⟩ := run_keepsBytes hengine (by decide) hall
  obtain rfl := Except.ok.inj (hlist.symm.trans hentries)
  obtain rfl := Except.ok.inj (hlist.symm.trans hentries')
  exact ⟨hlist, hkept, hutf8, hall, hlatin1⟩

end SourceSnapshot.Scan
