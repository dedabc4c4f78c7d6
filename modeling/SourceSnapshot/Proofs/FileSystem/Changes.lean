import Mathlib.Data.List.Nodup
import SourceSnapshot.FileSystem.Write
import SourceSnapshot.Proofs.FileSystem.Distinct

/-!
# Changes of one entry

The outline of a file system is what is left of it without the bytes of its files and without the
faults of calls. Names and the directory that a path leads to are those of the outline. So a file
that can no longer be opened, or a directory that can no longer be listed, changes nothing on the
way to the directory that it is below.
-/

namespace SourceSnapshot.FileSystem

namespace Entry

mutual

/-- An entry without bytes and without faults of calls. -/
def outline : Entry → Entry
  | .file name obscure _ => .file name obscure ⟨.empty, none, none⟩
  | .directory name obscure _ entries => .directory name obscure none (outlineAll entries)
  | .link name obscure target => .link name obscure target
  | .pipe name obscure => .pipe name obscure
  | .unknown name fault => .unknown name fault

/-- Several entries without bytes and without faults of calls. -/
def outlineAll : List Entry → List Entry
  | [] => []
  | entry :: rest => entry.outline :: outlineAll rest

end

theorem outlineAll_eq_map (entries : List Entry) : outlineAll entries = entries.map outline := by
  induction entries with
  | nil => rw [outlineAll, List.map_nil]
  | cons entry rest ih => rw [outlineAll, ih, List.map_cons]

/-- An outline has the name of its entry. -/
@[simp] theorem name_outline (entry : Entry) : entry.outline.name = entry.name := by
  cases entry <;> simp [outline, name]

mutual

/-- Whether an entry is well-named is told from its outline. -/
theorem isWellNamed_outline (entry : Entry) : entry.outline.isWellNamed = entry.isWellNamed := by
  match entry with
  | .file name obscure data => rw [outline, isWellNamed, isWellNamed]
  | .link name obscure target => rw [outline]
  | .pipe name obscure => rw [outline]
  | .unknown name fault => rw [outline]
  | .directory name obscure fault entries =>
    rw [outline, isWellNamed, isWellNamed, areWellNamed_outlineAll entries]
termination_by structural entry

/-- Whether entries are well-named is told from their outlines. -/
theorem areWellNamed_outlineAll (entries : List Entry) :
    areWellNamed (outlineAll entries) = areWellNamed entries := by
  match entries with
  | [] => rw [outlineAll]
  | entry :: rest =>
    rw [outlineAll, areWellNamed, areWellNamed, isWellNamed_outline entry,
      areWellNamed_outlineAll rest]
termination_by structural entries

end

/-- What keeps names takes what is found by a name to what is then found by it. -/
theorem find?_map {change : Entry → Entry} (h : ∀ entry, (change entry).name = entry.name)
    (name : String) (entries : List Entry) :
    find? name (entries.map change) = (find? name entries).map change := by
  rw [find?, List.find?_map, find?]
  congr 2
  funext entry
  rw [Function.comp_apply, h]

theorem find?_outlineAll (name : String) (entries : List Entry) :
    find? name (outlineAll entries) = (find? name entries).map outline := by
  rw [outlineAll_eq_map, find?_map name_outline]

/-- At a location the outline is found of what is found there. -/
theorem directoryAt?_outlineAll (location : List String) (fault : Option Errno)
    (entries : List Entry) :
    directoryAt? location (none, outlineAll entries) =
      (directoryAt? location (fault, entries)).map fun found => (none, outlineAll found.2) := by
  induction location generalizing fault entries with
  | nil => rfl
  | cons name location ih =>
    rw [directoryAt?, directoryAt?, find?_outlineAll]
    cases find? name entries with
    | none => rfl
    | some entry =>
      cases entry with
      | directory n obscure fault' inner =>
        simp only [Option.map_some, outline]
        exact ih fault' inner
      | file | link | pipe | unknown => rfl

end Entry

/-- A file system without bytes and without faults of calls. -/
def outline (fs : FileSystem) : FileSystem := { fs with entries := Entry.outlineAll fs.entries }

/-- A place in an outline: a file there has no bytes and no faults. -/
def Place.outline : Place → Place
  | .file _ above name => .file ⟨.empty, none, none⟩ above name
  | place => place

/-- In an outline the outline is found of the entry that is found. -/
theorem entryAt?_outline (fs : FileSystem) (location : List String) (name : String) :
    fs.outline.entryAt? location name = (fs.entryAt? location name).map Entry.outline := by
  rw [entryAt?, entryAt?, contents?, contents?, outline,
    Entry.directoryAt?_outlineAll location none]
  cases Entry.directoryAt? location (none, fs.entries) with
  | none => rfl
  | some found => exact Entry.find?_outlineAll name found.2

/-- In an outline components lead where they lead, if what is done at links does. -/
theorem walkWith_outline (fs : FileSystem) (purpose : Purpose)
    {atLink atLink' : List String → String → List String → Except Errno Place}
    (hlink : ∀ location target rest,
      atLink' location target rest = (atLink location target rest).map Place.outline)
    (location steps : List String) :
    fs.outline.walkWith purpose atLink' location steps =
      (fs.walkWith purpose atLink location steps).map Place.outline := by
  induction steps generalizing location with
  | nil => rfl
  | cons step rest ih =>
    rw [walkWith, walkWith]
    by_cases hidle : isIdle step.toList = true
    · rw [if_pos hidle, if_pos hidle]
      exact ih location
    rw [if_neg hidle, if_neg hidle]
    by_cases hup : step = ".."
    · rw [if_pos hup, if_pos hup]
      exact ih location.dropLast
    rw [if_neg hup, if_neg hup]
    cases nameFault? purpose step rest with
    | some errno => rfl
    | none =>
      simp only [entryAt?_outline]
      cases fs.entryAt? location step with
      | none =>
        simp only [Option.map_none]
        split <;> rfl
      | some entry =>
        cases entry with
        | directory name obscure fault entries =>
          simp only [Option.map_some, Entry.outline]
          exact ih (location ++ [step])
        | link name obscure target =>
          simp only [Option.map_some, Entry.outline]
          exact hlink location target rest
        | file name obscure data =>
          simp only [Option.map_some, Entry.outline]
          split <;> rfl
        | pipe name obscure =>
          simp only [Option.map_some, Entry.outline]
          split <;> rfl
        | unknown name fault => rfl

/-- In an outline components lead where they lead, with as many links on the way. -/
theorem walk_outline (fs : FileSystem) (purpose : Purpose) (links : Nat)
    (location steps : List String) :
    fs.outline.walk purpose links location steps =
      (fs.walk purpose links location steps).map Place.outline := by
  induction links generalizing location steps with
  | zero =>
    have hlink : ∀ location target rest,
        (fun _ _ _ => .error .tooManyLinks : List String → String → List String →
          Except Errno Place) location target rest =
          (Except.error .tooManyLinks : Except Errno Place).map Place.outline :=
      fun _ _ _ => rfl
    rw [walk, walk]
    exact walkWith_outline fs purpose hlink location steps
  | succ links ih =>
    rw [walk, walk]
    exact walkWith_outline fs purpose (fun _ _ _ => ih _ _) location steps

/-- In an outline a path leads where it leads. -/
theorem lookUp_outline (fs : FileSystem) (path : String) :
    fs.outline.lookUp path = (fs.lookUp path).map Place.outline := by
  have hstart : fs.outline.start path = fs.start path := rfl
  have hfind : fs.outline.find .visit path = (fs.find .visit path).map Place.outline := by
    rw [find, find, walkFrom, walkFrom, hstart, walk_outline]
    split
    · rfl
    · split
      · rfl
      · split
        · rfl
        · cases fs.walk .visit maxLinks (fs.start path) (steps path) <;> rfl
  rw [lookUp, lookUp, hfind]
  cases fs.find .visit path with
  | error fault => rfl
  | ok place => cases place <;> rfl

/-- Two file systems with one outline have the same directories at the end of their paths. -/
theorem lookUp_eq_directory_of_outline {fs fs' : FileSystem} (h : fs'.outline = fs.outline)
    {path : String} {location : List String} (hlook : fs.lookUp path = .ok (.directory location)) :
    fs'.lookUp path = .ok (.directory location) := by
  have houtline := lookUp_outline fs' path
  rw [h, lookUp_outline, hlook] at houtline
  cases hplace : fs'.lookUp path with
  | error fault =>
    rw [hplace] at houtline
    cases houtline
  | ok place =>
    rw [hplace] at houtline
    have hsame : Place.directory location = place.outline := Except.ok.inj houtline
    cases place with
    | directory location' => exact congrArg Except.ok hsame.symm
    | file | pipe | missing => cases hsame

namespace Entry

/-- Changes the entry that names lead to from an entry. -/
def changeBelow (change : Entry → Entry) : List String → Entry → Entry
  | [], entry => change entry
  | name :: names, .directory n obscure fault entries =>
    .directory n obscure fault
      (entries.map fun entry =>
        if entry.name = name then changeBelow change names entry else entry)
  | _ :: _, entry => entry

/-- Changes the entry that names lead to, the first of them among these entries. -/
def changeAmong (change : Entry → Entry) (entries : List Entry) : List String → List Entry
  | [] => entries
  | name :: names =>
    entries.map fun entry => if entry.name = name then changeBelow change names entry else entry

theorem changeBelow_directory (change : Entry → Entry) (name : String) (names : List String)
    (n : String) (obscure : Bool) (fault : Option Errno) (entries : List Entry) :
    changeBelow change (name :: names) (.directory n obscure fault entries) =
      .directory n obscure fault (changeAmong change entries (name :: names)) := by
  rw [changeBelow, changeAmong]

section

variable {change : Entry → Entry}

/-- A change that keeps outlines keeps them anywhere below an entry. -/
theorem outline_changeBelow (h : ∀ entry, (change entry).outline = entry.outline)
    (names : List String) (entry : Entry) :
    (changeBelow change names entry).outline = entry.outline := by
  induction names generalizing entry with
  | nil => exact h entry
  | cons name names ih =>
    cases entry with
    | directory n obscure fault entries =>
      rw [changeBelow, outline, outline, outlineAll_eq_map, outlineAll_eq_map, List.map_map]
      refine congrArg (Entry.directory n obscure none) (List.map_congr_left fun entry _ => ?_)
      rw [Function.comp_apply]
      split
      · exact ih entry
      · rfl
    | file | link | pipe | unknown => rw [changeBelow]; nofun

/-- A change that keeps outlines keeps them anywhere below entries. -/
theorem outlineAll_changeAmong (h : ∀ entry, (change entry).outline = entry.outline)
    (entries : List Entry) (names : List String) :
    outlineAll (changeAmong change entries names) = outlineAll entries := by
  cases names with
  | nil => rw [changeAmong]
  | cons name names =>
    rw [changeAmong, outlineAll_eq_map, outlineAll_eq_map, List.map_map]
    refine List.map_congr_left fun entry _ => ?_
    rw [Function.comp_apply]
    split
    · exact outline_changeBelow h names entry
    · rfl

/-- A change of what a directory holds that keeps the outline keeps that of everything. -/
theorem outlineAll_changeAt {change : List Entry → List Entry}
    (h : ∀ entries, outlineAll (change entries) = outlineAll entries) (location : List String)
    (entries : List Entry) :
    outlineAll (changeAt change location entries) = outlineAll entries := by
  induction location generalizing entries with
  | nil => exact h entries
  | cons name location ih =>
    rw [changeAt, outlineAll_eq_map, outlineAll_eq_map, List.map_map]
    refine List.map_congr_left fun entry _ => ?_
    rw [Function.comp_apply]
    cases entry with
    | directory n obscure fault inner =>
      by_cases hname : n = name
      · simp only [if_pos hname, outline, ih inner]
      · simp only [if_neg hname]
    | file | link | pipe | unknown => rfl

/-- At the location of a change the changed entries are found. -/
theorem directoryAt?_changeAt (change : List Entry → List Entry) (location : List String)
    (fault : Option Errno) (entries : List Entry) :
    directoryAt? location (fault, changeAt change location entries) =
      (directoryAt? location (fault, entries)).map fun found => (found.1, change found.2) := by
  induction location generalizing fault entries with
  | nil => rfl
  | cons name location ih =>
    rw [changeAt, directoryAt?, directoryAt?, find?_map fun entry => ?_]
    · cases hfound : find? name entries with
      | none => rfl
      | some entry =>
        cases entry with
        | directory n obscure fault' inner =>
          obtain ⟨-, hname⟩ := mem_of_find? hfound
          obtain rfl : n = name := hname
          simp only [Option.map_some, if_true]
          exact ih fault' inner
        | file | link | pipe | unknown => rfl
    · cases entry with
      | directory n obscure fault' inner =>
        simp only
        split <;> rfl
      | file | link | pipe | unknown => rfl

/-- Among distinct entries a change concerns just the one that is found by the first name. -/
theorem exists_changeAmong_eq {entries : List Entry} (hdistinct : areDistinct entries = true)
    {entry : Entry} (hentry : entry ∈ entries) (change : Entry → Entry) (names : List String) :
    ∃ before after, entries = before ++ entry :: after ∧
      (∀ other ∈ before ++ after, other.name ≠ entry.name) ∧
      changeAmong change entries (entry.name :: names) =
        before ++ changeBelow change names entry :: after := by
  obtain ⟨before, after, rfl⟩ := List.append_of_mem hentry
  have hnames := (areDistinct_iff.mp hdistinct).1
  rw [List.map_append, List.map_cons, List.nodup_middle, List.nodup_cons, ← List.map_append]
    at hnames
  have hothers : ∀ other ∈ before ++ after, other.name ≠ entry.name := fun other hother heq =>
    hnames.1 (heq ▸ List.mem_map_of_mem hother)
  refine ⟨before, after, rfl, hothers, ?_⟩
  have hkept : ∀ others : List Entry, (∀ other ∈ others, other ∈ before ++ after) →
      others.map (fun other =>
        if other.name = entry.name then changeBelow change names other else other) = others := by
    intro others hsub
    refine (List.map_congr_left fun other hother => ?_).trans (List.map_id others)
    rw [if_neg (hothers other (hsub other hother)), id]
  rw [changeAmong, List.map_append, List.map_cons, if_pos rfl,
    hkept before fun other => List.mem_append_left after,
    hkept after fun other => List.mem_append_right before]

end

/-- A file that can no longer be opened; any other entry stays. -/
def failingToOpen (errno : Errno) : Entry → Entry
  | .file name obscure data => .file name obscure { data with openFault := some errno }
  | entry => entry

/-- A directory that can no longer be listed; any other entry stays. -/
def failingToList (errno : Errno) : Entry → Entry
  | .directory name obscure _ entries => .directory name obscure (some errno) entries
  | entry => entry

theorem outline_failingToOpen (errno : Errno) (entry : Entry) :
    (failingToOpen errno entry).outline = entry.outline := by
  cases entry <;> simp [failingToOpen, outline]

theorem outline_failingToList (errno : Errno) (entry : Entry) :
    (failingToList errno entry).outline = entry.outline := by
  cases entry <;> simp [failingToList, outline]

end Entry

/-- Changes the entry that a relative path leads to from the directory at the end of a path. -/
def changeBelow (fs : FileSystem) (directory : String) (change : Entry → Entry) (path : String) :
    FileSystem :=
  match fs.lookUp directory with
  | .ok (.directory location) =>
    fs.changeContents location (Entry.changeAmong change · (steps path))
  | _ => fs

section

variable {change : Entry → Entry}

/-- A change that keeps the outlines of entries keeps that of the file system. -/
theorem outline_changeBelow (h : ∀ entry, (change entry).outline = entry.outline)
    (fs : FileSystem) (directory path : String) :
    (fs.changeBelow directory change path).outline = fs.outline := by
  rw [changeBelow]
  split
  · rename_i location hlook
    rw [outline, outline, changeContents]
    have hentries := Entry.outlineAll_changeAt
      (fun entries => Entry.outlineAll_changeAmong h entries (steps path)) location fs.entries
    rw [hentries]
  · rfl

/-- The directory at the end of the path lists the changed entries. -/
theorem list_changeBelow (h : ∀ entry, (change entry).outline = entry.outline) {fs : FileSystem}
    {directory : String} {entries : List Entry} (hlist : fs.list directory = .ok entries)
    (path : String) :
    (fs.changeBelow directory change path).list directory =
      .ok (Entry.changeAmong change entries (steps path)) := by
  obtain ⟨location, hlook, hcontents⟩ := list_eq_ok_iff.mp hlist
  have houtline := outline_changeBelow h fs directory path
  refine list_eq_ok_iff.mpr ⟨location, lookUp_eq_directory_of_outline houtline hlook, ?_⟩
  rw [contents?] at hcontents
  simp only [changeBelow, hlook, contents?, changeContents]
  rw [Entry.directoryAt?_changeAt, hcontents, Option.map_some]

/-- A change that keeps outlines keeps names good. -/
theorem isWellNamed_changeBelow (h : ∀ entry, (change entry).outline = entry.outline)
    {fs : FileSystem} (hfs : fs.IsWellNamed) (directory path : String) :
    (fs.changeBelow directory change path).IsWellNamed := by
  have hentries : Entry.outlineAll (fs.changeBelow directory change path).entries =
      Entry.outlineAll fs.entries :=
    congrArg FileSystem.entries (outline_changeBelow h fs directory path)
  refine ⟨?_⟩
  rw [← Entry.areWellNamed_outlineAll, hentries, Entry.areWellNamed_outlineAll]
  exact hfs.names

end

end SourceSnapshot.FileSystem
