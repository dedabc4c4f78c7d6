import SourceSnapshot.CommandLine.Run
import SourceSnapshot.Proofs.CommandLine.Switches
import SourceSnapshot.Proofs.CommandLine.Transcript
import SourceSnapshot.Proofs.Snapshot.Deliveries

/-!
# Printed and stored texts

Printing takes the same report as storing it does and leaves the file system as it is. It shows the
text of the tree and the text of the files, each with a line feed behind it, but without the control
sequences that stand in them; the stored texts keep these. So the two are the same just if no
control sequence stands in the texts.
-/

namespace SourceSnapshot.CommandLine

open FileSystem (Path)
open Snapshot (Document HoldsText Instant Report documents write)

/-- The report that a run takes before it prints or writes it, if it takes one. -/
def reportOf? (o : Options) (w : World) : Option Report :=
  (plan o w.fileSystem).toOption.bind fun p => (takeSnapshot o w p).1.toOption

/-- A run takes a report if it can be planned and the snapshot can be taken. -/
theorem reportOf?_eq_some_iff {o : Options} {w : World} {r : Report} :
    reportOf? o w = some r ↔
      ∃ p, plan o w.fileSystem = .ok p ∧ (takeSnapshot o w p).1 = .ok r := by
  have hsome : ∀ {ε α : Type} (x : Except ε α) (a : α), x.toOption = some a ↔ x = .ok a := by
    intro ε α x a
    cases x <;> simp [Except.toOption]
  rw [reportOf?, Option.bind_eq_some_iff]
  simp only [hsome]

/-- A snapshot is taken of the directory that is planned, at the instant of the run. -/
theorem exists_take_of_takeSnapshot {o : Options} {w : World} {p : Plan} {r : Report}
    (h : (takeSnapshot o w p).1 = .ok r) :
    ∃ (s : Snapshot.Session) (repository : Repository.Info),
      (s.take w.fileSystem p.root repository w.moment).result = .ok r := by
  unfold takeSnapshot at h
  simp only at h
  split at h
  · cases h
  · rcases hfound : Repository.resolve p.root w.checkout? o.explicit with ⟨repository, found⟩
    simp only [hfound] at h
    exact ⟨_, repository, h⟩

theorem timestamp_of_reportOf? {o : Options} {w : World} {r : Report}
    (h : reportOf? o w = some r) : r.metadata.timestamp = w.moment.instant.text := by
  obtain ⟨p, -, htaken⟩ := reportOf?_eq_some_iff.mp h
  obtain ⟨s, repository, htake⟩ := exists_take_of_takeSnapshot htaken
  rw [Snapshot.timestamp_of_take htake]

/-- The options in another form of output. -/
def Options.inForm (o : Options) (printOnly : Bool) (format : Snapshot.Format) : Options :=
  { o with printOnly := printOnly, format := format }

theorem plan_inForm (o : Options) (printOnly : Bool) (format : Snapshot.Format)
    (fs : FileSystem) : plan (o.inForm printOnly format) fs = plan o fs := by
  unfold plan Options.inForm
  with_reducible rfl

theorem takeSnapshot_inForm (o : Options) (printOnly : Bool) (format : Snapshot.Format)
    (w : World) (p : Plan) :
    takeSnapshot (o.inForm printOnly format) w p = takeSnapshot o w p := by
  unfold takeSnapshot Options.inForm
  with_reducible rfl

/-- A run that takes a report delivers it in the form that is asked for. -/
theorem exists_deliver {o : Options} {w : World} {r : Report} (h : reportOf? o w = some r) :
    ∃ notices, ∀ printOnly format, runWith (o.inForm printOnly format) w =
      deliver (o.inForm printOnly format) w notices r := by
  obtain ⟨p, hplan, hreport⟩ := reportOf?_eq_some_iff.mp h
  rcases htaken : takeSnapshot o w p with ⟨taken, log⟩
  rw [htaken] at hreport
  refine ⟨.message ("Analyzing directory: " ++ p.root) :: log.map Notice.record, ?_⟩
  intro printOnly format
  unfold runWith
  rw [plan_inForm, hplan]
  simp only [takeSnapshot_inForm, htaken, hreport]

/-- A run that takes no report ends alike in each form, without success; it prints nothing and
writes nothing. -/
theorem runWith_of_reportOf?_eq_none {o : Options} {w : World} (h : reportOf? o w = none)
    (printOnly : Bool) (format : Snapshot.Format) :
    runWith (o.inForm printOnly format) w = runWith o w ∧ (runWith o w).ending ≠ .success ∧
      (runWith o w).stdout = "" ∧ (runWith o w).fileSystem = w.fileSystem := by
  unfold runWith
  rw [plan_inForm]
  cases hplan : plan o w.fileSystem with
  | error crash => exact ⟨rfl, nofun, rfl, rfl⟩
  | ok p =>
    simp only [takeSnapshot_inForm]
    rcases htaken : takeSnapshot o w p with ⟨taken, log⟩
    cases taken with
    | ok report =>
      have hsome := reportOf?_eq_some_iff.mpr ⟨p, hplan, congrArg Prod.fst htaken⟩
      rw [h] at hsome
      cases hsome
    | error fault =>
      refine ⟨rfl, ?_⟩
      cases hreported : reported? fault with
      | none =>
        simp only [hreported]
        exact ⟨nofun, trivial, trivial⟩
      | some text =>
        simp only [hreported]
        exact ⟨nofun, trivial, trivial⟩

/-- A report that is printed is two messages, and nothing is written. -/
theorem deliver_print (o : Options) (format : Snapshot.Format) (w : World) (notices : List Notice)
    (r : Report) :
    let printed := deliver (o.inForm true format) w notices r
    printed.ending = .success ∧
      printed.stdout = messageLine r.treeText ++ messageLine r.filesText ∧
      printed.fileSystem = w.fileSystem :=
  ⟨rfl, rfl, rfl⟩

/-- A report that is not printed is written, with success just if no fault ends that. -/
theorem deliver_store (o : Options) (format : Snapshot.Format) (w : World) (notices : List Notice)
    (r : Report) :
    let stored := deliver (o.inForm false format) w notices r
    let written := write w.fileSystem o.output r format
    (stored.ending = .success ↔ written.fault? = none) ∧
      stored.fileSystem = written.fileSystem := by
  intro stored written
  have hstored : stored = deliver (o.inForm false format) w notices r := rfl
  have hwritten : write w.fileSystem (o.inForm false format).output r
      (o.inForm false format).format = written := rfl
  have hprint : (o.inForm false format).printOnly = false := rfl
  rw [deliver] at hstored
  simp only [hprint, Bool.false_eq_true, if_false, hwritten, Snapshot.Written.result] at hstored
  cases hfault : written.fault? with
  | none =>
    simp only [hfault] at hstored
    rw [hstored]
    exact ⟨iff_of_true rfl rfl, rfl⟩
  | some fault =>
    simp only [hfault] at hstored
    split at hstored
    case h_1 | h_2 | h_3 =>
      have hfailed : stored.ending ≠ .success := by
        rw [hstored]
        intro hsuccess
        cases hsuccess
      rw [hstored] at hfailed ⊢
      exact ⟨iff_of_false hfailed (Option.some_ne_none fault), rfl⟩
    case h_4 hok => cases hok

/-- Each document of a report that was written into a directory that was not there holds its
text. -/
theorem holdsText_of_write {fs : FileSystem} {directory : String}
    (hworking : fs.HasWorkingDirectory) (hlacks : fs.Lacks (Path.ofText directory)) {r : Report}
    {instant : Instant} (htime : r.metadata.timestamp = instant.text) {format : Snapshot.Format}
    (hfault : (write fs directory r format).fault? = none) {name text : String}
    (hdocument : ⟨name, some text⟩ ∈ documents r format) :
    HoldsText (write fs directory r format).fileSystem ((Path.ofText directory).child name)
      text := by
  have hread := Path.isRead_ofText directory
  rw [write] at hfault ⊢
  cases hmade : fs.makeDirectories (Path.ofText directory) with
  | error broken =>
    simp only [hmade] at hfault
    cases hfault
  | ok made =>
    simp only [hmade] at hfault ⊢
    have hne := hlacks.components_ne_nil hworking hmade
    have hnames := Snapshot.nodup_names r format
    obtain ⟨written, hwrote, hholds⟩ :=
      Snapshot.exists_wrote_writeAll hne (hlacks.holdsFiles hread hworking hmade)
        (fun document => Snapshot.isName_of_mem_documents htime) hnames
    have hdistinct := hwrote.names.sublist.nodup hnames
    obtain ⟨text', htext, hfile⟩ := hwrote.exists_holdsText
      (fun file hmem => hholds.openFile hne hdistinct hmem) hfault hdocument
    obtain rfl := Option.some.inj htext
    exact hfile

/-- The stamp in the names of the files that a run writes. -/
def World.stamp (w : World) : String := Snapshot.stamp w.moment.instant.text

/-- What printing a report and storing its texts in a directory come to. -/
structure PrintsAndStores (w : World) (directory : String) (r : Report)
    (printed stored : Outcome) : Prop where
  /-- Printing succeeds. -/
  success : printed.ending = .success
  /-- It shows the two texts without their control sequences, each with a line feed behind it. -/
  stdout : printed.stdout = unstyled r.treeText ++ "\n" ++ (unstyled r.filesText ++ "\n")
  /-- It shows them as they are stored just if they hold no control sequence. -/
  asStored : printed.stdout = r.treeText ++ "\n" ++ (r.filesText ++ "\n") ↔
    ¬HasSequence r.treeText.toList ∧ ¬HasSequence r.filesText.toList
  /-- What is to be stored are the metadata and the two texts. -/
  documents : documents r .text = [
    ⟨"metadata-" ++ w.stamp ++ ".json", some r.metadata.toJson.layout⟩,
    ⟨"tree-" ++ w.stamp ++ ".txt", some r.treeText⟩,
    ⟨"digest-" ++ w.stamp ++ ".txt", some r.filesText⟩]
  /-- Storing writes these documents, with success just if no fault ends the writing. -/
  writes : stored.fileSystem = (write w.fileSystem directory r .text).fileSystem ∧
    (stored.ending = .success ↔ (write w.fileSystem directory r .text).fault? = none)
  /-- If the directory was not there and storing succeeds, then files in it hold the two texts. -/
  holds : w.fileSystem.HasWorkingDirectory → w.fileSystem.Lacks (Path.ofText directory) →
    stored.ending = .success →
      HoldsText stored.fileSystem
          ((Path.ofText directory).child ("tree-" ++ w.stamp ++ ".txt")) r.treeText ∧
        HoldsText stored.fileSystem
          ((Path.ofText directory).child ("digest-" ++ w.stamp ++ ".txt")) r.filesText

/-- The documents of a report that tells the instant of the run have its stamp. -/
theorem documents_text {w : World} {r : Report}
    (h : r.metadata.timestamp = w.moment.instant.text) :
    documents r .text = [
      ⟨"metadata-" ++ w.stamp ++ ".json", some r.metadata.toJson.layout⟩,
      ⟨"tree-" ++ w.stamp ++ ".txt", some r.treeText⟩,
      ⟨"digest-" ++ w.stamp ++ ".txt", some r.filesText⟩] := by
  rw [documents, h]
  rfl

/-- A report that a run takes is printed or stored. -/
theorem printsAndStores {o : Options} {w : World} {r : Report} (h : reportOf? o w = some r) :
    PrintsAndStores w o.output r (runWith (o.inForm true o.format) w)
      (runWith (o.inForm false .text) w) := by
  obtain ⟨notices, hdeliver⟩ := exists_deliver h
  obtain ⟨hsuccess, hstdout, -⟩ := deliver_print o o.format w notices r
  obtain ⟨hending, hsystem⟩ := deliver_store o .text w notices r
  rw [← hdeliver] at hsuccess hstdout hending hsystem
  have htime := timestamp_of_reportOf? h
  have hdocuments := documents_text htime
  refine ⟨hsuccess, ?_, ?_, hdocuments, ⟨hsystem, hending⟩, ?_⟩
  · rw [hstdout, messageLine_eq, messageLine_eq]
  · rw [hstdout]
    exact messageLine_append_eq_iff r.treeText r.filesText
  · intro hworking hlacks hstored
    have hfault := hending.mp hstored
    rw [hsystem]
    constructor
    · apply holdsText_of_write hworking hlacks htime hfault
      simp [hdocuments]
    · apply holdsText_of_write hworking hlacks htime hfault
      simp [hdocuments]

/-- Command lines that are refused alike end alike, without success; nothing is printed and nothing
is written. -/
theorem run_of_refused {arguments arguments' : List String} {w : World} {fault : StartFault}
    (h : Options.read w.fileSystem w.environment arguments = .error fault)
    (h' : Options.read w.fileSystem w.environment arguments' = .error fault) :
    run arguments' w = run arguments w ∧ (run arguments w).ending ≠ .success ∧
      (run arguments w).stdout = "" ∧ (run arguments w).fileSystem = w.fileSystem := by
  rw [run, h', run, h]
  cases fault <;> exact ⟨rfl, nofun, rfl, rfl⟩

section

variable {arguments : List String} {w : World} {o : Options}

/-- In front of accepted arguments, the switch for it prints what they ask for. -/
theorem run_print (h : AsksForNoForm arguments)
    (ho : Options.read w.fileSystem w.environment arguments = .ok o) :
    run ("--print" :: arguments) w = runWith (o.inForm true o.format) w := by
  rw [run, read_print h, ho]
  rfl

/-- In front of accepted arguments, the switch for it stores what they ask for as texts. -/
theorem run_format (h : AsksForNoForm arguments)
    (ho : Options.read w.fileSystem w.environment arguments = .ok o) :
    run ("--format" :: "text" :: arguments) w = runWith (o.inForm false .text) w := by
  have hform : o.inForm false .text = { o with format := .text } := by
    rw [Options.inForm, ← printOnly_eq_false h ho]
  rw [run, read_format h, ho, hform]
  rfl

end

/-- Arguments that ask for no form of output are run once to print and once to store texts. Printing
leaves the file system as it is. If no report can be taken, then both runs end alike; otherwise one
report is printed by the first and stored by the second. -/
theorem print_beside_store {arguments : List String} (h : AsksForNoForm arguments) (w : World) :
    let printed := run ("--print" :: arguments) w
    let stored := run ("--format" :: "text" :: arguments) w
    printed.fileSystem = w.fileSystem ∧
      ((∀ o, Options.read w.fileSystem w.environment arguments = .ok o → reportOf? o w = none) ∧
          stored = printed ∧ printed.ending ≠ .success ∧ printed.stdout = "" ∨
        ∃ o r, Options.read w.fileSystem w.environment arguments = .ok o ∧
          reportOf? o w = some r ∧ PrintsAndStores w o.output r printed stored) := by
  intro printed stored
  cases ho : Options.read w.fileSystem w.environment arguments with
  | error fault =>
    have hprint : Options.read w.fileSystem w.environment ("--print" :: arguments) =
        .error fault := by rw [read_print h, ho]; rfl
    have hformat : Options.read w.fileSystem w.environment ("--format" :: "text" :: arguments) =
        .error fault := by rw [read_format h, ho]; rfl
    obtain ⟨hsame, hending, hstdout, hsystem⟩ := run_of_refused hprint hformat
    refine ⟨hsystem, Or.inl ⟨fun o ho' => ?_, hsame, hending, hstdout⟩⟩
    cases ho'
  | ok o =>
    have hprinted : printed = runWith (o.inForm true o.format) w := run_print h ho
    have hstored : stored = runWith (o.inForm false .text) w := run_format h ho
    rw [hprinted, hstored]
    cases hr : reportOf? o w with
    | none =>
      obtain ⟨hsame, hending, hstdout, hsystem⟩ :=
        runWith_of_reportOf?_eq_none hr true o.format
      obtain ⟨hsame', -⟩ := runWith_of_reportOf?_eq_none hr false .text
      rw [hsame, hsame']
      refine ⟨hsystem, Or.inl ⟨fun o' ho' => ?_, rfl, hending, hstdout⟩⟩
      obtain rfl := Except.ok.inj ho'
      exact hr
    | some r =>
      obtain ⟨notices, hdeliver⟩ := exists_deliver hr
      refine ⟨?_, Or.inr ⟨o, r, rfl, hr, printsAndStores hr⟩⟩
      rw [hdeliver]
      rfl

/-- A directory with a file whose text is put in red. -/
def styledWorld : World where
  fileSystem := .ofWorkingDirectory ["work"] [.directory "p" false none
    [.file "a.txt" false ⟨"\x1b[31mred\x1b[0m".toUTF8, none, none⟩]]
  environment := []
  checkout? := none
  moment := ⟨.whole 0, .whole 0, ⟨2026, 1, 2, 3, 4, 5, 0⟩⟩
  logTime := ""

theorem stdout_styledWorld : (run ["--print", "p"] styledWorld).stdout =
    "└── p/\n    └── a.txt\n\n=== a.txt ===\nred\n\n" := by
  decide +kernel

/-- A file that is opened with the bytes of a text holds the text. -/
theorem holdsText_of_toOption {fs : FileSystem} {p : Path} {text : String}
    (h : (fs.openFile p.text).toOption.map (fun d => (d.bytes, d.openFault, d.sizeFault)) =
      some (text.toUTF8, none, none)) : HoldsText fs p text := by
  rw [HoldsText, Snapshot.HoldsBytes]
  cases hopen : fs.openFile p.text with
  | error fault =>
    rw [hopen] at h
    cases h
  | ok data =>
    rw [hopen] at h
    obtain ⟨bytes, openFault, sizeFault⟩ := data
    obtain ⟨rfl, hfaults⟩ := Prod.mk.inj (Option.some.inj h)
    obtain ⟨rfl, rfl⟩ := Prod.mk.inj hfaults
    rfl

/-- Of the directory with the red text a report is printed, and stored as texts. -/
theorem print_beside_store_styledWorld :
    ∃ o r, Options.read styledWorld.fileSystem styledWorld.environment ["p"] = .ok o ∧
      reportOf? o styledWorld = some r ∧
      PrintsAndStores styledWorld o.output r (run ["--print", "p"] styledWorld)
        (run ["--format", "text", "p"] styledWorld) := by
  have hform : AsksForNoForm ["p"] := by
    intro a ha
    obtain rfl : (⟨[], ["p"]⟩ : Arguments) = a := Except.ok.inj ha
    decide
  obtain ⟨-, ⟨-, -, -, hnothing⟩ | hreport⟩ := print_beside_store hform styledWorld
  · exact absurd (stdout_styledWorld.symm.trans hnothing) (by decide)
  · exact hreport

/-- The red text is stored with its control sequences, so what is printed are not the stored
texts. -/
theorem stdout_ne_stored :
    let printed := run ["--print", "p"] styledWorld
    let stored := run ["--format", "text", "p"] styledWorld
    let output := Path.ofText "code-digest-output"
    let treeText := "└── p/\n    └── a.txt\n"
    let filesText := "=== a.txt ===\n\x1b[31mred\x1b[0m\n"
    (∀ file ∈ [("tree-2026-01-02T03-04-05+00-00.txt", treeText),
        ("digest-2026-01-02T03-04-05+00-00.txt", filesText)],
      HoldsText stored.fileSystem (output.child file.1) file.2) ∧
      printed.stdout = "└── p/\n    └── a.txt\n\n=== a.txt ===\nred\n\n" ∧
      printed.stdout ≠ treeText ++ "\n" ++ (filesText ++ "\n") := by
  intro printed stored output treeText filesText
  have hdata : ∀ file ∈ [("tree-2026-01-02T03-04-05+00-00.txt", treeText),
        ("digest-2026-01-02T03-04-05+00-00.txt", filesText)],
      (stored.fileSystem.openFile (output.child file.1).text).toOption.map
          (fun d => (d.bytes, d.openFault, d.sizeFault)) =
        some (file.2.toUTF8, none, none) := by
    decide +kernel
  refine ⟨fun file hfile => holdsText_of_toOption (hdata file hfile), stdout_styledWorld, ?_⟩
  intro hsame
  exact absurd (stdout_styledWorld.symm.trans hsame) (by decide)

end SourceSnapshot.CommandLine
