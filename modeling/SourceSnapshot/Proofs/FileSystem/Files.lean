import SourceSnapshot.Proofs.FileSystem.Obstacles

/-!
# Files in a directory

A file of a new name that is written into a directory stands behind its other entries, and it is
opened with the bytes that were written. Which names can be written depends on their lengths and on
that of the path of the directory, so a file that was written can be opened later on.
-/

namespace SourceSnapshot.FileSystem

variable {fs fs' : FileSystem}

/-- A name is the path of one component. -/
theorem Path.ofText_of_isName {name : String} (h : IsName name) :
    Path.ofText name = ⟨"", [name]⟩ := by
  have hcomponents : componentsOf name = [name] := by
    rw [componentsOf, Text.splitOn_of_notMem h.2.1, List.filter_cons, isIdle_toList h]
    exact congrArg (fun n => [n]) String.ofList_toList
  have hroot : rootOf name.toList = "" := by
    unfold rootOf
    split
    · rename_i hslash
      exact absurd (hslash ▸ List.mem_cons_self) h.2.1
    · rename_i hslash
      exact absurd (hslash ▸ List.mem_cons_self) h.2.1
    · rename_i hslash
      exact absurd (hslash ▸ List.mem_cons_self) h.2.1
    · rfl
  rw [Path.ofText, hcomponents, hroot]

theorem Path.under_ofText {name : String} (h : IsName name) (p : Path) :
    (Path.ofText name).under p = p.child name := by
  rw [Path.ofText_of_isName h]
  rfl

/-- The path of an entry starts where that of its directory starts. -/
theorem start_append {path : String} (hne : path ≠ "") (behind : String) :
    fs.start (path ++ behind) = fs.start path := by
  obtain ⟨c, cs, hcs⟩ :=
    List.exists_cons_of_ne_nil fun hnil => hne (String.toList_eq_nil_iff.mp hnil)
  rw [start, start, startsAtRoot, startsAtRoot, String.toList_append, hcs, List.cons_append,
    List.head?_cons, List.head?_cons]

theorem entryAt?_of_contents? {location : List String} {fault : Option Errno}
    {entries : List Entry} (h : fs.contents? location = some (fault, entries)) (name : String) :
    fs.entryAt? location name = Entry.find? name entries := by
  rw [entryAt?, h, Option.bind_some]

/-- The place that an entry at a name is; the place of a link depends on its target, and an entry of
which nothing can be told is none. -/
def placeAt? (fs : FileSystem) (location : List String) (name : String) : Option Place :=
  match fs.entryAt? location name with
  | none => some (.missing location name)
  | some (.directory _ _ _ _) => some (.directory (location ++ [name]))
  | some (.file _ _ data) => some (.file data location name)
  | some (.pipe _ _) => some .pipe
  | some (.link _ _ _) => none
  | some (.unknown _ _) => none

/-- A name that is not too long leads to the place of its entry. -/
theorem walk_name {location : List String} {name : String} (hname : IsName name) {place : Place}
    (hplace : fs.placeAt? location name = some place) (purpose : Purpose) (links : Nat) :
    fs.walk purpose links location [name] =
      if maxNameBytes < name.utf8ByteSize then .error .nameTooLong else .ok place := by
  have hwalk : ∀ atLink, fs.walkWith purpose atLink location [name] =
      if maxNameBytes < name.utf8ByteSize then .error .nameTooLong else .ok place := by
    intro atLink
    have hidle : ¬isIdle name.toList = true := Bool.eq_false_iff.mp (isIdle_toList hname)
    rw [walkWith, if_neg hidle, if_neg hname.2.2.2, nameFault?]
    by_cases hlong : maxNameBytes < name.utf8ByteSize
    · simp [hlong]
    · rw [placeAt?] at hplace
      cases hentry : fs.entryAt? location name with
      | none =>
        rw [hentry] at hplace
        obtain rfl := Option.some.inj hplace
        simp [hlong]
      | some entry =>
        rw [hentry] at hplace
        cases entry with
        | link | unknown => cases hplace
        | directory | file | pipe =>
          obtain rfl := Option.some.inj hplace
          simp [hlong, walkWith]
  cases links <;> exact hwalk _

/-- Whether calls can be made with the path of an entry of this name in a directory. -/
structure Path.Admits (p : Path) (name : String) : Prop where
  path : IsCallable (p.child name).text
  short : name.utf8ByteSize ≤ maxNameBytes

variable {p : Path} {location : List String} {name : String}

/-- The path of an entry leads to the place of the entry, if calls can be made with it. -/
theorem find_child (hlook : fs.lookUp p.text = .ok (.directory location)) (hne : p.components ≠ [])
    (hname : IsName name) {place : Place} (hplace : fs.placeAt? location name = some place)
    (purpose : Purpose) {found : Place} :
    fs.find purpose (p.child name).text = .ok found ↔ p.Admits name ∧ found = place := by
  obtain ⟨hpath, hwalk⟩ := lookUp_eq_directory_iff.mp hlook
  obtain ⟨links, hlinks⟩ := (Keeps.refl fs).walk_append hwalk
  have hnamed : IsNamed purpose [name] := Or.inr ⟨name, List.mem_singleton_self name, hname.1⟩
  have hstart : fs.start (p.child name).text = fs.start p.text := by
    rw [Path.text_child hne, String.append_assoc, start_append hpath.nonempty]
  rw [find, walkFrom_eq_ok_iff, hstart, Path.text_child hne, steps_append_slash hname,
    hlinks purpose [name] hnamed, walk_name hname hplace, ← Path.text_child hne]
  constructor
  · rintro ⟨hcallable, hfound⟩
    split at hfound
    · cases hfound
    · rename_i hshort
      exact ⟨⟨hcallable, by omega⟩, (Except.ok.inj hfound).symm⟩
  · rintro ⟨hadmits, rfl⟩
    exact ⟨hadmits.path, if_neg (Nat.not_lt.mpr hadmits.short)⟩

/-- A text that was written at a name that only a directory may have had makes a new file behind the
other entries of the directory, and its path can be used. -/
theorem list_writeText_child (hne : p.components ≠ []) (hname : IsName name) {entries : List Entry}
    (hlist : fs.list p.text = .ok entries)
    (hfree : ∀ entry, Entry.find? name entries = some entry → entry.isDirectory = true)
    {text : String} {saved : Saved} (h : fs.writeText (p.child name) text = .ok saved) :
    p.Admits name ∧ Entry.find? name entries = none ∧
      saved.fileSystem.list p.text =
        .ok (entries ++ [newFile name (savedBytes text saved.fault?)]) := by
  obtain ⟨location, hlook, hcontents⟩ := list_eq_ok_iff.mp hlist
  have hentry := entryAt?_of_contents? hcontents name
  cases hfind : fs.find .write (p.child name).text with
  | error fault =>
    rw [writeText, hfind] at h
    cases h
  | ok found =>
    rw [writeText, hfind] at h
    cases htaken : Entry.find? name entries with
    | none =>
      have hplace : fs.placeAt? location name = some (.missing location name) := by
        rw [placeAt?, hentry, htaken]
      obtain ⟨hadmits, rfl⟩ := (find_child hlook hne hname hplace .write).mp hfind
      obtain rfl := Except.ok.inj h
      have hnew : ∀ bytes, fs.entryAt? location (newFile name bytes).name = none := fun _ =>
        hentry.trans htaken
      exact ⟨hadmits, rfl, list_eq_ok_iff.mpr
        ⟨location, (keeps_putAt (hnew _)).lookUp hlook, contents?_putAt hcontents htaken⟩⟩
    | some entry =>
      -- Nothing is written into a directory.
      have hdirectory := hfree entry htaken
      cases entry with
      | file | link | pipe | unknown => cases hdirectory
      | directory n obscure fault inner =>
        have hplace : fs.placeAt? location name = some (.directory (location ++ [name])) := by
          rw [placeAt?, hentry, htaken]
        obtain ⟨-, rfl⟩ := (find_child hlook hne hname hplace .write).mp hfind
        cases h

/-- A file of a directory is opened by its path. -/
theorem openFile_child (hne : p.components ≠ []) (hname : IsName name) (hadmits : p.Admits name)
    {entries : List Entry} (hlist : fs.list p.text = .ok entries) {n : String} {obscure : Bool}
    {data : FileData} (hfile : Entry.find? name entries = some (.file n obscure data))
    (hopen : data.openFault = none) : fs.openFile (p.child name).text = .ok data := by
  obtain ⟨location, hlook, hcontents⟩ := list_eq_ok_iff.mp hlist
  have hplace : fs.placeAt? location name = some (.file data location name) := by
    rw [placeAt?, entryAt?_of_contents? hcontents, hfile]
  have hfind := (find_child hlook hne hname hplace .visit).mpr ⟨hadmits, rfl⟩
  have hfile : fs.lookUp (p.child name).text = .ok (.file data location name) := by
    rw [lookUp, hfind]
    rfl
  rw [openFile, hfile]
  simp only [bind, Except.bind, hopen]
  rfl

/-- A name and bytes as the file that is made of them. -/
def madeFile (file : String × ByteArray) : Entry := newFile file.1 file.2

/-- The directory at a path holds directories, and behind them the files that were made of these
names and bytes. -/
def HoldsFiles (fs : FileSystem) (p : Path) (files : List (String × ByteArray)) : Prop :=
  ∃ directories, fs.list p.text = .ok (directories ++ files.map madeFile) ∧
    (∀ entry ∈ directories, entry.isDirectory = true) ∧
    ∀ file ∈ files, IsName file.1 ∧ p.Admits file.1 ∧ Entry.find? file.1 directories = none

/-- A name that no file has is not found among files that were made. -/
theorem find?_madeFile_eq_none {files : List (String × ByteArray)} {name : String}
    (h : name ∉ files.map Prod.fst) : Entry.find? name (files.map madeFile) = none := by
  refine List.find?_eq_none.mpr fun entry hentry => ?_
  obtain ⟨file, hfile, rfl⟩ := List.mem_map.mp hentry
  rintro heq
  have hname : file.1 = name := beq_iff_eq.mp heq
  exact h (hname ▸ List.mem_map_of_mem hfile)

/-- Among files that were made of different names, each is found by its name. -/
theorem find?_madeFile {files : List (String × ByteArray)} (h : (files.map Prod.fst).Nodup)
    {file : String × ByteArray} (hfile : file ∈ files) :
    Entry.find? file.1 (files.map madeFile) = some (madeFile file) := by
  induction files with
  | nil => cases hfile
  | cons first rest ih =>
    obtain ⟨hfirst, hrest⟩ := List.nodup_cons.mp h
    rw [List.map_cons, Entry.find?, List.find?_cons]
    rcases List.mem_cons.mp hfile with rfl | hfile
    · rw [show (madeFile file).name == file.1 from beq_self_eq_true _]
    · have hne : ((madeFile first).name == file.1) = false := by
        refine beq_eq_false_iff_ne.mpr fun heq => hfirst ?_
        have hname : first.1 = file.1 := heq
        exact hname ▸ List.mem_map_of_mem hfile
      rw [hne]
      exact ih hrest hfile

namespace HoldsFiles

variable {files : List (String × ByteArray)}

/-- A text that was written at a new name is one more file, also if the writing was broken off. -/
theorem writeText (h : fs.HoldsFiles p files) (hne : p.components ≠ []) (hname : IsName name)
    (hnew : name ∉ files.map Prod.fst) {text : String} {saved : Saved}
    (hwrite : fs.writeText (p.child name) text = .ok saved) :
    saved.fileSystem.HoldsFiles p (files ++ [(name, savedBytes text saved.fault?)]) := by
  obtain ⟨directories, hlist, hdirectories, hfiles⟩ := h
  have hfind : Entry.find? name (directories ++ files.map madeFile) =
      Entry.find? name directories := by
    rw [Entry.find?_append, find?_madeFile_eq_none hnew, Option.or_none]
  have hfree : ∀ entry, Entry.find? name (directories ++ files.map madeFile) = some entry →
      entry.isDirectory = true := by
    intro entry hentry
    rw [hfind] at hentry
    exact hdirectories entry (Entry.mem_of_find? hentry).1
  obtain ⟨hadmits, hnone, hchanged⟩ := list_writeText_child hne hname hlist hfree hwrite
  refine ⟨directories, ?_, hdirectories, ?_⟩
  · rw [hchanged, List.map_append, List.map_singleton, List.append_assoc]
    rfl
  · rw [hfind] at hnone
    exact List.forall_mem_append.mpr ⟨hfiles, List.forall_mem_singleton.mpr ⟨hname, hadmits, hnone⟩⟩

/-- Each file is opened with the bytes that it was made of, if the names are different. -/
theorem openFile (h : fs.HoldsFiles p files) (hne : p.components ≠ [])
    (hnames : (files.map Prod.fst).Nodup) {file : String × ByteArray} (hfile : file ∈ files) :
    fs.openFile (p.child file.1).text = .ok ⟨file.2, none, none⟩ := by
  obtain ⟨directories, hlist, -, hfiles⟩ := h
  obtain ⟨hname, hadmits, hnone⟩ := hfiles file hfile
  have hfound : Entry.find? file.1 (directories ++ files.map madeFile) =
      some (.file file.1 false ⟨file.2, none, none⟩) := by
    rw [Entry.find?_append, hnone, Option.none_or, find?_madeFile hnames hfile]
    rfl
  exact openFile_child hne hname hadmits hlist hfound rfl

end HoldsFiles

/-- A directory that was not there holds no files when it is made. -/
theorem Lacks.holdsFiles (h : fs.Lacks p) (hp : p.IsRead) (hworking : fs.HasWorkingDirectory)
    (hmade : fs.makeDirectories p = .ok fs') : fs'.HoldsFiles p [] := by
  obtain ⟨entries, hlist, hentries⟩ := h.list_makeDirectories hp hworking hmade
  refine ⟨entries, ?_, hentries, List.forall_mem_nil _⟩
  rw [hlist, List.map_nil, List.append_nil]

end SourceSnapshot.FileSystem
