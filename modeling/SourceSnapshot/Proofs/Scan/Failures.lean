import SourceSnapshot.Proofs.Scan.Encounters

/-!
# Failures in a scan

What can go wrong with an entry of a scan: it cannot be told what it is, a directory cannot be
listed, the size of a file cannot be told, or a file that is wanted cannot be opened or read. All
that goes wrong is recorded, and the entry counts as skipped, with two exceptions that stop the
scan: an entry of which nothing can be told, and an encoding that refuses a file for another reason
than a broken rule. It may miss a byte order mark, yield no text, or have a reason of its own, and
its name is a good one.
-/

namespace SourceSnapshot.Scan

open FileSystem (CallFault Entry FileData)
open Ignore (Engine)
open Text.Encoding (ReadFault)
open Traversal (Encounter encountersAmong)

/-- What went wrong with an entry: it could not be told what it is, a call failed, or its bytes
could not be read as text. -/
inductive Trouble where
  | kind (fault : CallFault)
  | call (fault : CallFault)
  | read (fault : ReadFault)

/-- What is reported of what went wrong. -/
def Trouble.message : Trouble → String
  | .kind fault => fault.message
  | .call fault => fault.message
  | .read fault => fault.message

/-- The failure that a scan ends in. Bytes that break a rule of their encoding stop nothing. -/
def Trouble.stop? : Trouble → Option Traversal.Failure
  | .kind fault => some (.unknown fault)
  | .call _ => none
  | .read (.malformed _) => none
  | .read fault => some (.unreadable fault)

/-- A file is passed over if its size can be told and it is over the limit, or counts as binary
where such files are not wanted. -/
def IsPassedOver (s : ScanSettings) (callPath : String) (data : FileData) : Prop :=
  data.sizeFault = none ∧ (s.maxFileSize < data.size ∨
    s.includeBinaryFiles = false ∧ isBinary s callPath (opened callPath data) = .ok true)

instance (s : ScanSettings) (callPath : String) (data : FileData) :
    Decidable (IsPassedOver s callPath data) :=
  inferInstanceAs (Decidable (data.sizeFault = none ∧ (s.maxFileSize < data.size ∨
    s.includeBinaryFiles = false ∧ isBinary s callPath (opened callPath data) = .ok true)))

/-- What goes wrong with a file: its size cannot be told, or it is not passed over and cannot be
opened or read. -/
def fileTrouble? (s : ScanSettings) (callPath : String) (data : FileData) : Option Trouble :=
  match data.sizeFault with
  | some errno => some (.call ⟨errno, callPath⟩)
  | none =>
    if IsPassedOver s callPath data then none
    else
      match data.openFault with
      | some errno => some (.call ⟨errno, callPath⟩)
      | none =>
        match s.encoding.read data.toList with
        | .error fault => some (.read fault)
        | .ok _ => none

/-- What goes wrong with an entry that a scan of a directory comes by. -/
def troubleAt? (s : ScanSettings) (directory : String) (c : Encounter) : Option Trouble :=
  match c.exclusion?, c.entry with
  | none, .file _ _ data => fileTrouble? s (c.callPath directory) data
  | none, .directory _ false (some errno) _ => some (.call ⟨errno, c.callPath directory⟩)
  | none, .unknown _ fault => some (.kind ⟨fault.errno, c.callPath directory⟩)
  | _, _ => none

/-- Whether an entry that a scan of a directory comes by is left out or passed over: it is neither
entered nor read, and nothing goes wrong with it. -/
def isPassedOverAt (s : ScanSettings) (directory : String) (c : Encounter) : Bool :=
  match c.exclusion?, c.entry with
  | some _, _ => true
  | none, .file _ _ data => IsPassedOver s (c.callPath directory) data
  | none, .directory _ false _ _ => false
  | none, .unknown _ _ => false
  | none, _ => true

/-- What becomes of an entry says what went wrong with it. -/
structure Outcome.Tells (outcome : Outcome) (trouble? : Option Trouble) (passedOver : Bool) :
    Prop where
  stop : outcome.stop? = trouble?.bind Trouble.stop?
  error : outcome.stop? = none → outcome.error? = trouble?.map Trouble.message
  skipped : outcome.stop? = none →
    outcome.isSkipped.toNat = trouble?.isSome.toNat + passedOver.toNat

/-- What becomes of a file says what went wrong with it. -/
theorem ofFile_tells (s : ScanSettings) (callPath : String) (data : FileData) :
    (Outcome.ofFile s callPath data).Tells (fileTrouble? s callPath data)
      (IsPassedOver s callPath data) := by
  rw [Outcome.ofFile, fileTrouble?]
  cases hsize : data.sizeFault with
  | some errno =>
    have hpassed : ¬IsPassedOver s callPath data := fun h => by
      rw [IsPassedOver, hsize] at h
      cases h.1
    rw [decide_eq_false hpassed]
    exact ⟨rfl, fun _ => rfl, fun _ => rfl⟩
  | none =>
    by_cases hpassed : IsPassedOver s callPath data
    · simp only [if_pos hpassed, decide_eq_true hpassed]
      by_cases hlarge : s.maxFileSize < data.size
      · rw [if_pos hlarge]
        exact ⟨rfl, fun _ => rfl, fun _ => rfl⟩
      · obtain ⟨hwanted, hbinary⟩ := hpassed.2.resolve_left hlarge
        rw [if_neg hlarge, contentOf, hwanted, if_neg Bool.false_ne_true, hbinary]
        exact ⟨rfl, fun _ => rfl, fun _ => rfl⟩
    · simp only [if_neg hpassed, decide_eq_false hpassed]
      have hsmall : ¬s.maxFileSize < data.size := fun h => hpassed ⟨hsize, Or.inl h⟩
      rw [if_neg hsmall, contentOf_eq_readText fun h => hpassed ⟨hsize, Or.inr h⟩, opened]
      cases data.openFault with
      | some errno => exact ⟨rfl, fun _ => rfl, fun _ => rfl⟩
      | none =>
        rw [readText]
        cases s.encoding.read data.toList with
        | ok content => exact ⟨rfl, fun _ => rfl, fun _ => rfl⟩
        | error fault =>
          cases fault with
          | malformed rule => exact ⟨rfl, fun _ => rfl, fun _ => rfl⟩
          | unmarked | notText | refused =>
            refine ⟨rfl, fun hnone => ?_, fun hnone => ?_⟩
            · cases hnone
            · cases hnone

/-- What becomes of an entry says what went wrong with it. -/
theorem outcomeAt_tells (s : ScanSettings) (directory : String) (c : Encounter) :
    (outcomeAt s directory c).Tells (troubleAt? s directory c) (isPassedOverAt s directory c) := by
  obtain ⟨names, entry, exclusion?⟩ := c
  cases exclusion? with
  | some exclusion => exact ⟨rfl, fun _ => rfl, fun _ => rfl⟩
  | none =>
    cases entry with
    | file name obscure data => exact ofFile_tells s _ data
    | link | pipe => exact ⟨rfl, fun _ => rfl, fun _ => rfl⟩
    | unknown => exact ⟨rfl, nofun, nofun⟩
    | directory name obscure listFault entries =>
      cases obscure with
      | true => exact ⟨rfl, fun _ => rfl, fun _ => rfl⟩
      | false => cases listFault <;> exact ⟨rfl, fun _ => rfl, fun _ => rfl⟩

/-- An encoding that finds nothing else wrong with bytes than a broken rule. -/
def FindsRulesBroken (e : Text.Encoding.Named) : Prop :=
  ∀ bytes fault, e.read bytes = .error fault → ∃ rule, fault = .malformed rule

/-- An encoding that is defined here finds nothing else wrong with bytes than a broken rule if it
neither asks for a byte order mark nor yields bytes. -/
theorem findsRulesBroken_of_ne {e : Text.Encoding.Named} (hutf16 : e.encoding ≠ .utf16)
    (hutf32 : e.encoding ≠ .utf32) (htext : e.encoding ≠ .transform)
    (hforeign : e.encoding.isForeign = false) : FindsRulesBroken e := by
  intro bytes fault h
  have hplain : ∀ {decoded}, Text.Encoding.ofPlain decoded = .error fault →
      ∃ rule, fault = .malformed rule := by
    intro decoded hdecoded
    cases decoded with
    | ok cs => cases hdecoded
    | error rule => exact ⟨rule, (Except.error.inj hdecoded).symm⟩
  rw [Text.Encoding.Named.read] at h
  cases hencoding : e.encoding with
  | utf16 => exact absurd hencoding hutf16
  | utf32 => exact absurd hencoding hutf32
  | transform => exact absurd hencoding htext
  | foreign codec =>
    rw [hencoding] at hforeign
    cases hforeign
  | utf8 | utf8Marked | utf16Of | utf32Of | page =>
    rw [hencoding] at h
    exact hplain h

/-- Bytes that could not be read are those of a file. -/
theorem read_of_mem_troubleAt? {s : ScanSettings} {directory : String} {c : Encounter}
    {fault : ReadFault} (h : .read fault ∈ troubleAt? s directory c) :
    ∃ data : FileData, s.encoding.read data.toList = .error fault := by
  rw [Option.mem_def, troubleAt?] at h
  split at h
  · rename_i name obscure data hkept hentry
    refine ⟨data, ?_⟩
    rw [fileTrouble?] at h
    split at h
    · cases h
    · split at h
      · cases h
      · split at h
        · cases h
        · cases hread : s.encoding.read data.toList with
          | ok text =>
            rw [hread] at h
            cases h
          | error found =>
            rw [hread] at h
            obtain rfl := Trouble.read.inj (Option.some.inj h)
            rfl
  · cases h
  · cases h
  · cases h

/-- It cannot be told what an entry is if it is kept and nothing can be told of it. -/
theorem kind_of_mem_troubleAt? {s : ScanSettings} {directory : String} {c : Encounter}
    {fault : CallFault} (h : .kind fault ∈ troubleAt? s directory c) :
    c.exclusion? = none ∧ c.entry.isUnknown = true := by
  rw [Option.mem_def, troubleAt?] at h
  split at h
  · rename_i name obscure data hkept hentry
    rw [fileTrouble?] at h
    repeat split at h <;> try cases h
  · cases h
  · rename_i name fault' hkept hentry
    rw [hentry]
    exact ⟨hkept, rfl⟩
  · cases h

/-- With an encoding that only finds rules broken, nothing that goes wrong with an entry stops the
scan if the entry is left out or something can be told of it. -/
theorem stop?_of_mem_troubleAt? {s : ScanSettings} (hencoding : FindsRulesBroken s.encoding)
    {directory : String} {c : Encounter} (htold : c.exclusion? = none → c.entry.isUnknown = false)
    {trouble : Trouble} (h : trouble ∈ troubleAt? s directory c) : trouble.stop? = none := by
  cases trouble with
  | kind fault =>
    obtain ⟨hkept, hunknown⟩ := kind_of_mem_troubleAt? h
    rw [htold hkept] at hunknown
    cases hunknown
  | call fault => rfl
  | read fault =>
    obtain ⟨data, hread⟩ := read_of_mem_troubleAt? h
    obtain ⟨rule, rfl⟩ := hencoding data.toList fault hread
    rfl

/-- If each member counts once for `q` or once for `r`, all members are counted. -/
theorem countP_eq_add {α : Type} {p q r : α → Bool} {l : List α}
    (h : ∀ a ∈ l, (p a).toNat = (q a).toNat + (r a).toNat) :
    l.countP p = l.countP q + l.countP r := by
  induction l with
  | nil => rfl
  | cons a rest ih =>
    obtain ⟨ha, hrest⟩ := List.forall_mem_cons.mp h
    have hrest := ih hrest
    have hone : ∀ b : Bool, (if b = true then 1 else 0) = b.toNat := by decide
    rw [List.countP_cons, List.countP_cons, List.countP_cons, hone, hone, hone]
    omega

/-- The statistics of encounters none of which stops the scan record all that went wrong, in order,
and count it as skipped besides what was left out or passed over. -/
theorem stats_ofVisits {s : ScanSettings} {directory : String} {encounters : List Encounter}
    (hstop : ∀ c ∈ encounters, (outcomeAt s directory c).stop? = none) :
    let stats := (Result.ofVisits (encounters.map (visitAt s directory))).stats
    stats.errors = (encounters.filterMap fun c =>
        (troubleAt? s directory c).map fun trouble => ⟨c.path, trouble.message⟩) ∧
      stats.skipped = stats.errors.length + encounters.countP (isPassedOverAt s directory) := by
  intro stats
  have herrors : stats.errors = encounters.filterMap fun c =>
      (troubleAt? s directory c).map fun trouble => ⟨c.path, trouble.message⟩ := by
    refine List.filterMap_map.trans (List.filterMap_congr fun c hc => ?_)
    rw [Function.comp_apply, Visit.error?, visitAt,
      (outcomeAt_tells s directory c).error (hstop c hc), Option.map_map]
    rfl
  refine ⟨herrors, ?_⟩
  have hskipped : stats.skipped = encounters.countP fun c => (outcomeAt s directory c).isSkipped :=
    List.countP_map
  rw [hskipped, herrors, List.length_filterMap_eq_countP]
  refine countP_eq_add fun c hc => ?_
  rw [(outcomeAt_tells s directory c).skipped (hstop c hc), Option.isSome_map]

/-- A scan of a root that can be listed returns just if nothing goes wrong with an entry on the way
that stops it. If it returns, all that went wrong is recorded in order, and each counts as a skipped
entry. If it does not, then because of an entry that stops it. An encoding that only finds rules
broken stops no scan, so that only an entry that is kept can, of which nothing can be told. -/
theorem run_returns_iff {engine? : Option Engine} (hengine : ∀ e ∈ engine?, e.Reachable)
    {fs : FileSystem} (hnames : fs.IsWellNamed) {s : ScanSettings}
    {directory : String} {entries : List Entry} (hlist : fs.list directory = .ok entries) :
    let encounters := encountersAmong s.includeDotFiles (engine?.map Engine.rules) [] entries
    ((∃ result, (run s fs engine? directory).result = .ok result) ↔
        ∀ c ∈ encounters, ∀ trouble ∈ troubleAt? s directory c, trouble.stop? = none) ∧
      (∀ result, (run s fs engine? directory).result = .ok result →
        result.stats.errors = (encounters.filterMap fun c =>
            (troubleAt? s directory c).map fun trouble => ⟨c.path, trouble.message⟩) ∧
          result.stats.skipped =
            result.stats.errors.length + encounters.countP (isPassedOverAt s directory)) ∧
      (∀ failure, (run s fs engine? directory).result = .error failure →
        ∃ c ∈ encounters, ∃ trouble ∈ troubleAt? s directory c, trouble.stop? = some failure) ∧
      (FindsRulesBroken s.encoding →
        (∀ c ∈ encounters, c.exclusion? = none → c.entry.isUnknown = false) →
          ∃ result, (run s fs engine? directory).result = .ok result) := by
  intro encounters
  have hf := Ignore.follows_of_reachable hengine
  have hstop : ∀ c, (outcomeAt s directory c).stop? = none ↔
      ∀ trouble ∈ troubleAt? s directory c, trouble.stop? = none := by
    intro c
    rw [(outcomeAt_tells s directory c).stop, Option.bind_eq_none_iff]
    rfl
  rw [run_result_of_list hf hnames s hlist]
  cases hfirst : encounters.findSome? fun c => (outcomeAt s directory c).stop? with
  | none =>
    rw [List.findSome?_eq_none_iff] at hfirst
    refine ⟨iff_of_true ⟨_, rfl⟩ fun c hc => (hstop c).mp (hfirst c hc), ?_, nofun,
      fun _ _ => ⟨_, rfl⟩⟩
    intro result hresult
    obtain rfl := Except.ok.inj hresult
    exact stats_ofVisits hfirst
  | some failure =>
    obtain ⟨c, hc, hfailure⟩ := List.exists_of_findSome?_eq_some hfirst
    rw [(outcomeAt_tells s directory c).stop] at hfailure
    obtain ⟨trouble, htrouble, hends⟩ := Option.bind_eq_some_iff.mp hfailure
    refine ⟨iff_of_false nofun fun h => ?_, nofun, ?_, fun hencoding htold => ?_⟩
    · rw [h c hc trouble htrouble] at hends
      cases hends
    · intro ending hending
      obtain rfl := Except.error.inj hending
      exact ⟨c, hc, trouble, htrouble, hends⟩
    · rw [stop?_of_mem_troubleAt? hencoding (htold c hc) htrouble] at hends
      cases hends

/-- A project with a directory that cannot be listed, a file whose size cannot be told, one that
cannot be opened, one whose bytes are no text, one that is a text, and an entry of a hidden name of
which nothing can be told. -/
def troubledProject : List Entry :=
  [.directory "locked" false (some .accessDenied) [],
    .file "lost" false ⟨⟨#[97]⟩, none, some .inputOutput⟩,
    .file "shut" false ⟨⟨#[97]⟩, some .accessDenied, none⟩,
    .file "broken" false ⟨⟨#[255]⟩, none, none⟩,
    .pipe "queue" false,
    .unknown ".cache" ⟨.inputOutput, by decide⟩,
    .file "main.txt" false ⟨⟨#[104, 105]⟩, none, none⟩]

/-- The file system that holds only this project. -/
def troubledSystem : FileSystem :=
  .ofWorkingDirectory ["work"] [.directory "project" false none troubledProject]

/-- The scan of the project returns with four errors; a pipe and the hidden entry are skipped
besides. -/
theorem run_returns_troubledSystem :
    troubledSystem.list "project" = .ok troubledProject ∧
      ∃ result, (run .default troubledSystem none "project").result = .ok result ∧
        result.stats.errors = [
          ⟨"locked", "[Errno 13] Permission denied: 'project/locked'"⟩,
          ⟨"lost", "[Errno 5] Input/output error: 'project/lost'"⟩,
          ⟨"shut", "[Errno 13] Permission denied: 'project/shut'"⟩,
          ⟨"broken", "'utf-8' codec can't decode byte 0xff in position 0: invalid start byte"⟩] ∧
        result.stats.skipped = 4 + 2 := by
  have hlist : troubledSystem.list "project" = .ok troubledProject := rfl
  have hengine : ∀ e ∈ (none : Option Engine), e.Reachable := nofun
  have hencoding : FindsRulesBroken ScanSettings.default.encoding :=
    findsRulesBroken_of_ne nofun nofun nofun rfl
  obtain ⟨-, hrecorded, -, hreturns⟩ := run_returns_iff (s := .default) hengine (by decide) hlist
  obtain ⟨result, hresult⟩ := hreturns hencoding (by decide +kernel)
  obtain ⟨herrors, hskipped⟩ := hrecorded result hresult
  refine ⟨hlist, result, hresult, herrors.trans (by decide +kernel), ?_⟩
  rw [hskipped, herrors]
  decide +kernel

/-- A project whose one entry is kept though nothing can be told of it is not scanned. -/
example : (run .default (.ofWorkingDirectory ["work"]
      [.directory "project" false none [.unknown "cache" ⟨.inputOutput, by decide⟩]])
    none "project").result = .error (.unknown ⟨.inputOutput, "project/cache"⟩) := by
  decide +kernel

/-- The options of a scan that asks for an encoding by the name `utf-16`. -/
def markedSettings : ScanSettings :=
  { ScanSettings.default with encoding := ⟨"utf-16", .utf16, Or.inl (by rfl)⟩ }

/-- A file system that holds a directory with one file of two bytes. -/
def unmarkedSystem : FileSystem :=
  .ofWorkingDirectory ["work"]
    [.directory "p" false none [.file "a.txt" false ⟨⟨#[104, 105]⟩, none, none⟩]]

/-- The name `utf-16` is a good one, whatever other encodings are at hand, and the root can be
listed, but the file lacks the byte order mark, and so the scan does not return. -/
theorem run_unmarkedSystem :
    (∀ codecs, ScanSettings.read codecs [("encoding", .string "utf-16")] =
        .valid markedSettings) ∧
      unmarkedSystem.list "p" = .ok [.file "a.txt" false ⟨⟨#[104, 105]⟩, none, none⟩] ∧
      (run markedSettings unmarkedSystem none "p").result =
        .error (.unreadable (.unmarked "UTF-16")) := by
  refine ⟨fun codecs => ?_, rfl, by decide +kernel⟩
  rfl

end SourceSnapshot.Scan
