import Mathlib.Data.List.Basic
import SourceSnapshot.Proofs.Scan.Visits

/-!
# A scan as a plain selection

A scan decides directory by directory and cuts off whatever is below a directory that it leaves out.
Here every regular file of a tree is enumerated, and each is judged alone, by its own path and its
own data. Since the rules never take back in what is below a directory that is left out, the scan
takes the text of exactly the files that pass this judgement.
-/

namespace SourceSnapshot.Scan

open FileSystem (CallFault Entry FileData IsName childPath)
open Ignore (Engine Exclusion Follows Key Rule isIgnored)

/-- A regular file of a tree, whether or not a scan gets to it. It is within reach if all
directories above it are known to be directories and can be listed. -/
structure FoundFile where
  names : List String
  callPath : String
  isReachable : Bool
  data : FileData

/-- The path of a file as seen from the root of the tree. -/
def FoundFile.path (f : FoundFile) : String := "/".intercalate f.names

mutual

/-- All regular files at or below an entry, depth first and in the order of the listings. Links are
not followed, and nothing is left out. -/
def everyFileOf (above : List String) (callAbove : String) (isReachable : Bool) :
    Entry → List FoundFile
  | .file name _ data => [⟨above ++ [name], childPath callAbove name, isReachable, data⟩]
  | .directory name obscure listFault entries =>
    everyFileAmong (above ++ [name]) (childPath callAbove name)
      (isReachable && !obscure && listFault.isNone) entries
  | .link _ _ _ => []
  | .pipe _ _ => []
  | .unknown _ _ => []

/-- All regular files at or below several entries. -/
def everyFileAmong (above : List String) (callAbove : String) (isReachable : Bool) :
    List Entry → List FoundFile
  | [] => []
  | entry :: rest =>
    everyFileOf above callAbove isReachable entry ++
      everyFileAmong above callAbove isReachable rest

end

/-- The text of a file whose size can be told and is within the limit, which is not binary unless
binary files are wanted, and which can be opened and decoded. -/
def textOf? (s : ScanSettings) (callPath : String) (data : FileData) : Option String :=
  if data.sizeFault = none ∧ data.size ≤ s.maxFileSize ∧
      (s.includeBinaryFiles = true ∨ isBinary s callPath (opened callPath data) = .ok false) ∧
      data.openFault = none then
    (s.encoding.read data.toList).toOption
  else none

namespace FoundFile

/-- Whether a file is kept, judged by its own path: it is within reach, no name on the way to it is
reserved or starts with a dot that is not wanted, and the engine, asked once about the whole path,
does not leave it out. -/
def IsKept (s : ScanSettings) (engine? : Option Engine) (f : FoundFile) : Prop :=
  f.isReachable = true ∧ Exclusion.reservedName ∉ f.names ∧
    (s.includeDotFiles = true ∨ ∀ n ∈ f.names, n.toList.head? ≠ some '.') ∧
    ∀ e ∈ engine?, (e.ignores f.path false).1 = .ok false

instance (s : ScanSettings) (engine? : Option Engine) (f : FoundFile) :
    Decidable (f.IsKept s engine?) :=
  inferInstanceAs (Decidable (f.isReachable = true ∧ Exclusion.reservedName ∉ f.names ∧
    (s.includeDotFiles = true ∨ ∀ n ∈ f.names, n.toList.head? ≠ some '.') ∧
    ∀ e ∈ engine?, (e.ignores f.path false).1 = .ok false))

/-- The path and the text of a file, if it is kept and its text can be taken. -/
def text? (s : ScanSettings) (engine? : Option Engine) (f : FoundFile) : Option FileText :=
  if f.IsKept s engine? then (textOf? s f.callPath f.data).map (⟨f.path, ·⟩) else none

end FoundFile

/-- The content of a file is taken exactly if there is one. -/
theorem content?_ofContent (size : Nat) (content : Except (ContentFault CallFault) String) :
    (Outcome.ofContent size content).content? = content.toOption := by
  rcases content with fault | content
  · rcases fault with _ | fault | fault
    · rfl
    · rfl
    · cases fault <;> rfl
  · rfl

/-- There is content if the file is not binary, or may be, and can be opened and decoded. -/
theorem toOption_contentOf (s : ScanSettings) (callPath : String) (data : FileData) :
    (contentOf s callPath (opened callPath data)).toOption =
      if (s.includeBinaryFiles = true ∨ isBinary s callPath (opened callPath data) = .ok false) ∧
          data.openFault = none then
        (s.encoding.read data.toList).toOption
      else none := by
  have hread : (readText s (opened callPath data)).toOption =
      if data.openFault = none then (s.encoding.read data.toList).toOption else none := by
    unfold readText opened
    cases data.openFault with
    | some errno => rfl
    | none =>
      rw [if_pos rfl]
      change ((s.encoding.read data.toList).mapError ContentFault.read).toOption = _
      cases s.encoding.read data.toList <;> rfl
  rw [contentOf]
  by_cases hbinary : s.includeBinaryFiles = true
  · simp [hbinary, hread]
  · rcases htest : isBinary s callPath (opened callPath data) with fault | answer
    · simp [hbinary, Except.toOption]
    · cases answer with
      | true => simp [hbinary, Except.toOption]
      | false => simp [hbinary, hread]

/-- What becomes of a file that is not left out yields its text under the conditions on the file
alone. -/
theorem content?_ofFile (s : ScanSettings) (callPath : String) (data : FileData) :
    (Outcome.ofFile s callPath data).content? = textOf? s callPath data := by
  rw [Outcome.ofFile, textOf?]
  cases data.sizeFault with
  | some errno => simp [Outcome.content?]
  | none =>
    by_cases hsize : s.maxFileSize < data.size
    · have hlarge : ¬data.size ≤ s.maxFileSize := by omega
      simp [hsize, hlarge, Outcome.content?]
    · have hsmall : data.size ≤ s.maxFileSize := by omega
      simp [hsize, hsmall, content?_ofContent, toOption_contentOf]

/-- Whether a file is kept, judged by its names and the rules alone. -/
def IsKeptByRules (s : ScanSettings) (rules? : Option (List Rule)) (f : FoundFile) : Prop :=
  f.isReachable = true ∧ (∀ n ∈ f.names, Exclusion.ofName? s.includeDotFiles n = none) ∧
    rules?.any (isIgnored · (Key.ofNames f.names false)) = false

instance (s : ScanSettings) (rules? : Option (List Rule)) (f : FoundFile) :
    Decidable (IsKeptByRules s rules? f) :=
  inferInstanceAs (Decidable (f.isReachable = true ∧
    (∀ n ∈ f.names, Exclusion.ofName? s.includeDotFiles n = none) ∧
    rules?.any (isIgnored · (Key.ofNames f.names false)) = false))

/-- The path and the text of a file, if the rules keep it and its text can be taken. -/
def textByRules? (s : ScanSettings) (rules? : Option (List Rule)) (f : FoundFile) :
    Option FileText :=
  if IsKeptByRules s rules? f then (textOf? s f.callPath f.data).map (⟨f.path, ·⟩) else none

/-- A name leaves nothing out if it is not the reserved one, and starts with a dot only if such
names are wanted. -/
theorem ofName?_eq_none_iff {includeDotNames : Bool} {name : String} :
    Exclusion.ofName? includeDotNames name = none ↔
      name ≠ Exclusion.reservedName ∧
        (includeDotNames = true ∨ name.toList.head? ≠ some '.') := by
  rw [Exclusion.ofName?]
  by_cases hname : name = Exclusion.reservedName
  · simp [hname]
  · cases includeDotNames <;> simp [hname]

/-- An engine that follows the rules keeps what the rules keep. -/
theorem isKept_iff {engine? : Option Engine} {rules? : Option (List Rule)}
    (hf : Follows engine? rules?) {f : FoundFile} (h : ∀ n ∈ f.names, IsName n)
    (hne : f.names ≠ []) (s : ScanSettings) :
    f.IsKept s engine? ↔ IsKeptByRules s rules? f := by
  have hnames : (∀ n ∈ f.names, Exclusion.ofName? s.includeDotFiles n = none) ↔
      Exclusion.reservedName ∉ f.names ∧
        (s.includeDotFiles = true ∨ ∀ n ∈ f.names, n.toList.head? ≠ some '.') := by
    simp only [ofName?_eq_none_iff]
    constructor
    · intro hall
      refine ⟨fun hmem => (hall _ hmem).1 rfl, ?_⟩
      by_cases hdot : s.includeDotFiles = true
      · exact Or.inl hdot
      · exact Or.inr fun n hn => (hall n hn).2.resolve_left hdot
    · rintro ⟨hreserved, hdot⟩ n hn
      refine ⟨?_, hdot.imp_right (· n hn)⟩
      rintro rfl
      exact hreserved hn
  have hrules : (∀ e ∈ engine?, (e.ignores f.path false).1 = .ok false) ↔
      rules?.any (isIgnored · (Key.ofNames f.names false)) = false := by
    cases engine? with
    | none =>
      obtain rfl : none = rules? := hf.rules
      simp
    | some e =>
      obtain rfl : some e.rules = rules? := hf.rules
      have hanswer := (hf.consistent e rfl).ignores_intercalate h hne false
      simp [FoundFile.path, hanswer]
  rw [FoundFile.IsKept, IsKeptByRules, hnames, hrules, and_assoc]

mutual

/-- A file that is enumerated lies at or below the entry, and is within reach only if the entry
is. -/
theorem mem_everyFileOf {above : List String} (h : ∀ n ∈ above, IsName n) (callAbove : String)
    (isReachable : Bool) (entry : Entry) (hentry : entry.isWellNamed = true) {f : FoundFile}
    (hf : f ∈ everyFileOf above callAbove isReachable entry) :
    (∀ n ∈ f.names, IsName n) ∧ (∃ below, f.names = above ++ entry.name :: below) ∧
      (f.isReachable = true → isReachable = true) := by
  have hnames := Entry.forall_isName_append h hentry
  match entry with
  | .file name _ data =>
    rw [everyFileOf, List.mem_singleton] at hf
    subst hf
    exact ⟨hnames, ⟨[], rfl⟩, id⟩
  | .link name _ _ => simp [everyFileOf] at hf
  | .pipe name _ => simp [everyFileOf] at hf
  | .unknown name _ => simp [everyFileOf] at hf
  | .directory name obscure listFault entries =>
    simp only [Entry.isWellNamed, Bool.and_eq_true] at hentry
    rw [everyFileOf] at hf
    obtain ⟨hall, ⟨first, below, hbelow⟩, hreach⟩ :=
      mem_everyFileAmong hnames _ _ entries hentry.2 hf
    refine ⟨hall, ⟨first :: below, by rw [hbelow, List.append_assoc]; rfl⟩, fun hr => ?_⟩
    simpa using (Bool.and_eq_true_iff.mp (Bool.and_eq_true_iff.mp (hreach hr)).1).1
termination_by structural entry

/-- A file that is enumerated lies below the directory that holds the entries, and is within reach
only if the directory is. -/
theorem mem_everyFileAmong {above : List String} (h : ∀ n ∈ above, IsName n) (callAbove : String)
    (isReachable : Bool) (entries : List Entry) (hentries : Entry.areWellNamed entries = true)
    {f : FoundFile} (hf : f ∈ everyFileAmong above callAbove isReachable entries) :
    (∀ n ∈ f.names, IsName n) ∧ (∃ first below, f.names = above ++ first :: below) ∧
      (f.isReachable = true → isReachable = true) := by
  match entries with
  | [] => simp [everyFileAmong] at hf
  | entry :: rest =>
    simp only [Entry.areWellNamed, Bool.and_eq_true] at hentries
    rw [everyFileAmong, List.mem_append] at hf
    rcases hf with hf | hf
    · obtain ⟨hall, ⟨below, hbelow⟩, hreach⟩ :=
        mem_everyFileOf h callAbove isReachable entry hentries.1 hf
      exact ⟨hall, ⟨entry.name, below, hbelow⟩, hreach⟩
    · exact mem_everyFileAmong h callAbove isReachable rest hentries.2 hf
termination_by structural entries

end

/-- Nothing below a directory that is left out is kept. -/
theorem not_isKeptByRules_of_excluded {s : ScanSettings} {rules? : Option (List Rule)}
    {above : List String} {name : String} {exclusion : Exclusion}
    (hrules : Exclusion.byRules? s.includeDotFiles rules? above name true = some exclusion)
    {f : FoundFile} (h : ∀ n ∈ f.names, IsName n)
    (hbelow : ∃ first below, f.names = (above ++ [name]) ++ first :: below) :
    ¬IsKeptByRules s rules? f := by
  obtain ⟨first, below, hbelow⟩ := hbelow
  rintro ⟨-, hnames, hkept⟩
  have hnone : Exclusion.byRules? s.includeDotFiles rules? above name true = none := by
    rw [Exclusion.byRules?_eq_none_iff]
    refine ⟨hnames name (by simp [hbelow]), ?_⟩
    cases rules? with
    | none => rfl
    | some rules =>
      rw [Option.any_some, Bool.eq_false_iff] at hkept ⊢
      rw [hbelow] at h hkept
      exact fun hout => hkept (Ignore.isIgnored_of_above h (by simp) (by simp) hout false)
  rw [hnone] at hrules
  cases hrules

theorem filterMap_textByRules?_eq_nil {s : ScanSettings} {rules? : Option (List Rule)}
    {files : List FoundFile} (h : ∀ f ∈ files, ¬IsKeptByRules s rules? f) :
    files.filterMap (textByRules? s rules?) = [] :=
  List.filterMap_eq_nil_iff.mpr fun f hf => if_neg (h f hf)

/-- An entry that nothing is below yields a text if it is kept and there is one. -/
theorem file?_leafVisit (s : ScanSettings) (rules? : Option (List Rule)) (above : List String)
    (callAbove name : String) (outcome : String → Outcome) :
    (leafVisit s rules? above callAbove name outcome).file? =
      if Exclusion.byRules? s.includeDotFiles rules? above name false = none then
        (outcome (childPath callAbove name)).content?.map (⟨"/".intercalate (above ++ [name]), ·⟩)
      else none := by
  rw [Visit.file?, leafVisit]
  cases Exclusion.byRules? s.includeDotFiles rules? above name false with
  | some exclusion => rfl
  | none => rfl

mutual

/-- The visits of an entry that is reached take the texts of the files that are kept at or below
it. -/
theorem files_visitsOf (s : ScanSettings) (rules? : Option (List Rule)) {above : List String}
    (h : ∀ n ∈ above, IsName n)
    (habove : ∀ n ∈ above, Exclusion.ofName? s.includeDotFiles n = none) (callAbove : String)
    (entry : Entry) (hentry : entry.isWellNamed = true) :
    (visitsOf s rules? above callAbove entry).filterMap Visit.file? =
      (everyFileOf above callAbove true entry).filterMap (textByRules? s rules?) := by
  have hnames := Entry.forall_isName_append h hentry
  match entry with
  | .file name _ data =>
    have hkept : IsKeptByRules s rules? ⟨above ++ [name], childPath callAbove name, true, data⟩ ↔
        Exclusion.byRules? s.includeDotFiles rules? above name false = none := by
      rw [IsKeptByRules, Exclusion.byRules?_eq_none_iff, List.forall_mem_append,
        List.forall_mem_singleton]
      exact ⟨fun hk => ⟨hk.2.1.2, hk.2.2⟩, fun hk => ⟨rfl, ⟨habove, hk.1⟩, hk.2⟩⟩
    simp only [visitsOf, everyFileOf, List.filterMap_cons, List.filterMap_nil, file?_leafVisit,
      textByRules?, hkept, content?_ofFile, FoundFile.path]
  | .link name _ _ => simp [visitsOf, everyFileOf, file?_leafVisit, Outcome.content?]
  | .pipe name _ => simp [visitsOf, everyFileOf, file?_leafVisit, Outcome.content?]
  | .unknown name _ => simp [visitsOf, everyFileOf, file?_leafVisit, Outcome.content?]
  | .directory name true listFault entries =>
    simp only [Entry.isWellNamed, Bool.and_eq_true] at hentry
    rw [everyFileOf, filterMap_textByRules?_eq_nil]
    · simp [visitsOf, file?_leafVisit, Outcome.content?]
    · rintro f hf ⟨hreach, -⟩
      obtain ⟨-, -, hr⟩ := mem_everyFileAmong hnames _ _ entries hentry.2 hf
      cases hr hreach
  | .directory name false listFault entries =>
    simp only [Entry.isWellNamed, Bool.and_eq_true] at hentry
    have hmem := fun {callPath isReachable f} hf =>
      mem_everyFileAmong hnames callPath isReachable entries hentry.2 (f := f) hf
    simp only [visitsOf, everyFileOf]
    cases hrules : Exclusion.byRules? s.includeDotFiles rules? above name true with
    | some exclusion =>
      rw [filterMap_textByRules?_eq_nil]
      · rfl
      · intro f hf
        obtain ⟨hall, hbelow, -⟩ := hmem hf
        exact not_isKeptByRules_of_excluded hrules hall hbelow
    | none =>
      cases listFault with
      | some errno =>
        rw [filterMap_textByRules?_eq_nil]
        · rfl
        · rintro f hf ⟨hreach, -⟩
          cases (hmem hf).2.2 hreach
      | none =>
        have hkept := (Exclusion.byRules?_eq_none_iff.mp hrules).1
        exact files_visitsAmong s rules? hnames
          (List.forall_mem_append.mpr ⟨habove, List.forall_mem_singleton.mpr hkept⟩) _ entries
          hentry.2
termination_by structural entry

/-- The visits of several entries take the texts of the files that are kept at or below them. -/
theorem files_visitsAmong (s : ScanSettings) (rules? : Option (List Rule)) {above : List String}
    (h : ∀ n ∈ above, IsName n)
    (habove : ∀ n ∈ above, Exclusion.ofName? s.includeDotFiles n = none) (callAbove : String)
    (entries : List Entry) (hentries : Entry.areWellNamed entries = true) :
    (visitsAmong s rules? above callAbove entries).filterMap Visit.file? =
      (everyFileAmong above callAbove true entries).filterMap (textByRules? s rules?) := by
  match entries with
  | [] => rfl
  | entry :: rest =>
    simp only [Entry.areWellNamed, Bool.and_eq_true] at hentries
    rw [visitsAmong, everyFileAmong, List.filterMap_append, List.filterMap_append,
      files_visitsOf s rules? h habove callAbove entry hentries.1,
      files_visitsAmong s rules? h habove callAbove rest hentries.2]
termination_by structural entries

end

/-- The files of a scan are those of the plain enumeration that are kept, each judged alone and
asked about once, with their texts. -/
theorem run_files_eq_filterMap {s : ScanSettings} {fs : FileSystem} {engine? : Option Engine}
    {directory : String} {result : Result} (hengine : ∀ e ∈ engine?, e.Reachable)
    (hfs : fs.IsWellNamed)
    (hrun : (run s fs engine? directory).result = .ok result) :
    ∃ entries, fs.list directory = .ok entries ∧
      result.files =
        (everyFileAmong [] directory true entries).filterMap (FoundFile.text? s engine?) := by
  have hf := Ignore.follows_of_reachable hengine
  obtain ⟨entries, hlist, -, rfl⟩ := (run_result_eq_ok_iff hf hfs).mp hrun
  have hnil : ∀ n ∈ ([] : List String), IsName n := fun _ hn => absurd hn List.not_mem_nil
  have hentries := FileSystem.areWellNamed_of_list hfs hlist
  refine ⟨entries, hlist, ?_⟩
  rw [Result.ofVisits, files_visitsAmong s _ hnil (fun _ hn => absurd hn List.not_mem_nil)
    directory entries hentries]
  refine List.filterMap_congr fun f hmem => ?_
  obtain ⟨hall, ⟨first, below, hbelow⟩, -⟩ :=
    mem_everyFileAmong hnil directory true entries hentries hmem
  have hkept := isKept_iff hf hall (by simp [hbelow]) s
  simp only [textByRules?, FoundFile.text?, hkept]

/-- A project with a directory of products, one of which is asked for in vain. -/
def sampleSystem : FileSystem :=
  .ofWorkingDirectory ["work"]
    [.directory "project" false none
      [.directory ".git" false none [.file "HEAD" false ⟨⟨#[114]⟩, none, none⟩],
        .directory "build" false none [.file "keep.txt" false ⟨⟨#[107]⟩, none, none⟩],
        .file "main.txt" false ⟨⟨#[104, 105]⟩, none, none⟩,
        .link "again.txt" false "main.txt"]]

/-- With the rules `build/` and `!build/keep.txt` only one file of the project is taken. -/
theorem run_files_sampleSystem :
    ∃ entries, sampleSystem.list "project" = .ok entries ∧
      [⟨"main.txt", "hi"⟩] = (everyFileAmong [] "project" true entries).filterMap
        (FoundFile.text? .default
          (some (.ofHistory true [.add (.list [some "build/", some "!build/keep.txt"])]))) := by
  have hrun : (run .default sampleSystem
      (some (.ofHistory true [.add (.list [some "build/", some "!build/keep.txt"])]))
      "project").result = .ok ⟨[⟨"main.txt", "hi"⟩], ⟨1, 3, 2, []⟩⟩ := by
    decide +kernel
  refine run_files_eq_filterMap (fun e he => ?_) (by decide) hrun
  exact ⟨_, _, (Option.some.inj he).symm⟩

end SourceSnapshot.Scan
