import SourceSnapshot.Proofs.FileSystem.Distinct
import SourceSnapshot.Proofs.FileSystem.Steps

/-!
# Paths below a directory

A path that is joined from the path of a directory and names is followed to where the path of the
directory leads, whatever links are met on the way, and from there along the names. Where the names
lead to a file among the entries of the directory, no link is met any more, so the path leads to
that file and to nothing else.
-/

namespace SourceSnapshot.FileSystem

variable {fs : FileSystem}

/-- Components are followed from a location on, with some number of links that may be met. -/
def GoesOn (fs : FileSystem) (location : List String)
    (follow : List String → Except Errno Place) : Prop :=
  ∃ links, ∀ rest, follow rest = fs.walk .visit links location rest

theorem nameFault?_visit (name : String) (rest rest' : List String) :
    nameFault? .visit name rest = nameFault? .visit name rest' := rfl

theorem walk_append {links : Nat} {location steps last : List String}
    (h : fs.walk .visit links location steps = .ok (.directory last)) :
    fs.GoesOn last fun rest => fs.walk .visit links location (steps ++ rest) := by
  obtain ⟨more, hmore⟩ := (Keeps.refl fs).walk_append h
  exact ⟨more, fun rest => hmore .visit rest (Or.inl rfl)⟩

/-- An empty component before others is passed over, if it is so behind each link. -/
theorem walkWith_append_empty {atLink : List String → String → List String → Except Errno Place}
    {rest : List String} (hne : rest ≠ [])
    (hlink : ∀ location target steps,
      atLink location target (steps ++ "" :: rest) = atLink location target (steps ++ rest))
    (location steps : List String) :
    fs.walkWith .visit atLink location (steps ++ "" :: rest) =
      fs.walkWith .visit atLink location (steps ++ rest) := by
  induction steps generalizing location with
  | nil =>
    rw [List.nil_append, List.nil_append, walkWith]
    exact if_pos rfl
  | cons step steps ih =>
    have hmore : ∀ {rest}, rest ≠ [] → (steps ++ rest).isEmpty = false := fun hrest =>
      List.isEmpty_eq_false_iff.mpr (List.append_ne_nil_of_right_ne_nil steps hrest)
    rw [List.cons_append, List.cons_append, walkWith, walkWith, hmore (List.cons_ne_nil "" rest),
      hmore hne, nameFault?_visit step (steps ++ "" :: rest) (steps ++ rest)]
    simp only [ih, hlink]

/-- An empty component before others is passed over. -/
theorem walk_append_empty {rest : List String} (hne : rest ≠ []) (links : Nat)
    (location steps : List String) :
    fs.walk .visit links location (steps ++ "" :: rest) =
      fs.walk .visit links location (steps ++ rest) := by
  induction links generalizing location steps with
  | zero => exact walkWith_append_empty hne (fun _ _ _ => rfl) location steps
  | succ links ih =>
    refine walkWith_append_empty hne (fun location target steps => ?_) location steps
    rw [← List.append_assoc, ← List.append_assoc, ih]

/-- A path that is joined from that of a directory and names starts with the path of the
directory. -/
theorem exists_toList_foldl_childPath (directory : String) (names : List String) :
    ∃ behind, (names.foldl childPath directory).toList = directory.toList ++ behind := by
  induction names generalizing directory with
  | nil => exact ⟨[], (List.append_nil _).symm⟩
  | cons name names ih =>
    obtain ⟨behind, hbehind⟩ := ih (childPath directory name)
    obtain ⟨first, hfirst⟩ : ∃ first, (childPath directory name).toList =
        directory.toList ++ first := by
      rw [childPath]
      split
      · exact ⟨name.toList, String.toList_append⟩
      · exact ⟨'/' :: name.toList, by simp⟩
    refine ⟨first ++ behind, ?_⟩
    rw [List.foldl_cons, hbehind, hfirst, List.append_assoc]

/-- A path that ends with a name does not end with a slash. -/
theorem getLast?_childPath {name : String} (h : IsName name) (directory : String) :
    (childPath directory name).toList.getLast? ≠ some '/' := by
  have hlast : name.toList.getLast? ≠ some '/' := fun hc => h.2.1 (List.mem_of_getLast? hc)
  have hne : name.toList ≠ [] := fun hnil => h.1 (String.toList_eq_nil_iff.mp hnil)
  rw [childPath]
  split
  · rwa [String.toList_append, List.getLast?_append_of_ne_nil _ hne]
  · rwa [String.toList_append, List.getLast?_append_of_ne_nil _ hne]

theorem steps_append_slash {name : String} (h : IsName name) (path : String) :
    steps (path ++ "/" ++ name) = steps path ++ [name] := by
  have hlist : (path ++ "/" ++ name).toList = path.toList ++ '/' :: name.toList := by simp
  rw [steps, hlist, Text.splitOn_append, Text.splitOn_of_notMem h.2.1, List.map_append,
    List.map_singleton, String.ofList_toList, steps]

/-- Names that are joined to a path without a slash at its end are more components. -/
theorem steps_foldl_childPath {names : List String} (h : ∀ n ∈ names, IsName n) {directory : String}
    (hslash : directory.toList.getLast? ≠ some '/') :
    steps (names.foldl childPath directory) = steps directory ++ names := by
  induction names generalizing directory with
  | nil => exact (List.append_nil _).symm
  | cons name names ih =>
    obtain ⟨hname, hnames⟩ := List.forall_mem_cons.mp h
    rw [List.foldl_cons, ih hnames (getLast?_childPath hname directory), childPath,
      if_neg hslash, steps_append_slash hname, List.append_assoc, List.singleton_append]

/-- Names that are joined to a path are more components; a slash at the end of the path is not
doubled. -/
theorem exists_steps_foldl_childPath (directory : String) :
    ∃ trunk, (steps directory = trunk ∨ steps directory = trunk ++ [""]) ∧
      ∀ names, names ≠ [] → (∀ n ∈ names, IsName n) →
        steps (names.foldl childPath directory) = trunk ++ names := by
  by_cases hslash : directory.toList.getLast? = some '/'
  · obtain ⟨before, hbefore⟩ := List.getLast?_eq_some_iff.mp hslash
    refine ⟨steps (String.ofList before), Or.inr ?_, fun names hne hnames => ?_⟩
    · rw [steps, hbefore, Text.splitOn_append, List.map_append, steps, String.toList_ofList]
      rfl
    · obtain ⟨name, names, rfl⟩ := List.exists_cons_of_ne_nil hne
      obtain ⟨hname, hnames⟩ := List.forall_mem_cons.mp hnames
      have hjoined : childPath directory name = String.ofList before ++ "/" ++ name := by
        refine String.toList_injective ?_
        rw [childPath, if_pos hslash, String.toList_append, hbefore]
        simp
      rw [List.foldl_cons, steps_foldl_childPath hnames (getLast?_childPath hname directory),
        hjoined, steps_append_slash hname, List.append_assoc, List.singleton_append]
  · exact ⟨steps directory, Or.inl rfl, fun names _ hnames => steps_foldl_childPath hnames hslash⟩

/-- A path that is joined from that of a directory and names is followed along the names from where
the path of the directory leads. -/
theorem walk_foldl_childPath {directory : String} {links : Nat} {location last : List String}
    (h : fs.walk .visit links location (steps directory) = .ok (.directory last))
    {names : List String} (hne : names ≠ []) (hnames : ∀ n ∈ names, IsName n) :
    ∃ more, fs.walk .visit links location (steps (names.foldl childPath directory)) =
      fs.walk .visit more last names := by
  obtain ⟨trunk, htrunk, hsteps⟩ := exists_steps_foldl_childPath directory
  obtain ⟨more, hmore⟩ := walk_append h
  refine ⟨more, ?_⟩
  have hbehind : fs.walk .visit links location (steps directory ++ names) =
    fs.walk .visit more last names := hmore names
  rw [hsteps names hne hnames, ← hbehind]
  rcases htrunk with heq | heq
  · rw [heq]
  · rw [heq, List.append_assoc, List.singleton_append, walk_append_empty hne]

/-- What a directory among the entries of another one holds is found one name further. -/
theorem contents?_append {location : List String} {fault fault' : Option Errno}
    {entries inner : List Entry} (h : fs.contents? location = some (fault, entries))
    {name name' : String} {obscure : Bool}
    (hfind : Entry.find? name entries = some (.directory name' obscure fault' inner)) :
    fs.contents? (location ++ [name]) = some (fault', inner) := by
  rw [contents?] at h ⊢
  generalize ((none, fs.entries) : Option Errno × List Entry) = found at h ⊢
  induction location generalizing found with
  | nil =>
    obtain rfl : found = (fault, entries) := Option.some.inj h
    simp only [List.nil_append, Entry.directoryAt?, hfind]
  | cons first location ih =>
    obtain ⟨above, others⟩ := found
    rw [List.cons_append, Entry.directoryAt?]
    rw [Entry.directoryAt?] at h
    split at h
    · exact ih _ h
    · cases h

/-- Names that lead to a file among the entries of a directory are followed from there to that file,
unless one of them is too long. -/
theorem eq_file_of_walkWith {atLink : List String → String → List String → Except Errno Place}
    {names : List String} (hnames : ∀ n ∈ names, IsName n) {location : List String}
    {fault : Option Errno} {entries : List Entry}
    (hcontents : fs.contents? location = some (fault, entries)) {name : String} {obscure : Bool}
    {data : FileData} (hfile : Entry.among? entries names = some (.file name obscure data))
    {place : Place} (h : fs.walkWith .visit atLink location names = .ok place) :
    ∃ above last, place = .file data above last := by
  induction names generalizing location fault entries with
  | nil => cases hfile
  | cons first rest ih =>
    obtain ⟨hfirst, hrest⟩ := List.forall_mem_cons.mp hnames
    obtain ⟨entry, hentry, hbelow⟩ := Option.bind_eq_some_iff.mp hfile
    have hat : fs.entryAt? location first = some entry := by
      rw [entryAt?, hcontents]
      exact hentry
    rw [walkWith, if_neg (Bool.eq_false_iff.mp (isIdle_toList hfirst)),
      if_neg hfirst.2.2.2] at h
    cases hname : nameFault? .visit first rest with
    | some errno => simp [hname] at h
    | none =>
      simp only [hname, hat] at h
      cases rest with
      | nil =>
        obtain rfl : entry = .file name obscure data := Option.some.inj hbelow
        exact ⟨location, first, (Except.ok.inj h).symm⟩
      | cons second rest =>
        obtain ⟨next, hnext, -⟩ := Option.bind_eq_some_iff.mp hbelow
        -- Only in a directory something is found.
        cases entry with
        | directory n o fault' inner =>
          exact ih hrest (contents?_append hcontents hentry) hbelow h
        | file | link | pipe | unknown => cases hnext

/-- What a path is found to lead to is where its components lead. -/
theorem walk_of_lookUp {path : String} {place : Place} (h : fs.lookUp path = .ok place) :
    path ≠ "" ∧ fs.walk .visit maxLinks (fs.start path) (steps path) = .ok place := by
  have hfind : fs.find .visit path = .ok place := by
    rw [lookUp] at h
    cases hfound : fs.find .visit path with
    | error fault =>
      rw [hfound] at h
      cases h
    | ok found =>
      rw [hfound] at h
      cases found with
      | missing above name => cases h
      | directory | file | pipe => exact h
  obtain ⟨hpath, hwalk⟩ := walkFrom_eq_ok_iff.mp hfind
  exact ⟨hpath.nonempty, hwalk⟩

/-- A path that is joined from that of a directory and names that lead to a file among the entries
of the directory leads to that file, if it leads anywhere. -/
theorem lookUp_foldl_childPath {directory : String} {entries : List Entry}
    (hlist : fs.list directory = .ok entries) {names : List String}
    (hnames : ∀ n ∈ names, IsName n) {name : String} {obscure : Bool} {data : FileData}
    (hfile : Entry.among? entries names = some (.file name obscure data)) {place : Place}
    (h : fs.lookUp (names.foldl childPath directory) = .ok place) :
    ∃ above last, place = .file data above last := by
  obtain ⟨location, hdirectory, hcontents⟩ := list_eq_ok_iff.mp hlist
  obtain ⟨hsome, hwalk⟩ := walk_of_lookUp hdirectory
  obtain ⟨-, hpath⟩ := walk_of_lookUp h
  have hne : names ≠ [] := by
    rintro rfl
    cases hfile
  have hstart : fs.start (names.foldl childPath directory) = fs.start directory := by
    obtain ⟨behind, hbehind⟩ := exists_toList_foldl_childPath directory names
    obtain ⟨c, cs, hcs⟩ := List.exists_cons_of_ne_nil fun hnil =>
      hsome (String.toList_eq_nil_iff.mp hnil)
    rw [start, start, startsAtRoot, startsAtRoot, hbehind, hcs, List.cons_append, List.head?_cons,
      List.head?_cons]
  obtain ⟨more, hmore⟩ := walk_foldl_childPath hwalk hne hnames
  rw [hstart, hmore] at hpath
  cases more with
  | zero => exact eq_file_of_walkWith hnames hcontents hfile hpath
  | succ more => exact eq_file_of_walkWith hnames hcontents hfile hpath

/-- The size of the file that a path leads to, if the path leads to one and its size is told. -/
def fileSize? (fs : FileSystem) (path : String) : Option Nat :=
  match fs.lookUp path with
  | .ok (.file data _ _) => if data.sizeFault = none then some data.size else none
  | _ => none

/-- If a path that is joined from that of a directory and names that lead to a file among its
entries tells a size, it leads to that file, and the size is that of the file. -/
theorem lookUp_of_fileSize? {directory : String} {entries : List Entry}
    (hlist : fs.list directory = .ok entries) {names : List String}
    (hnames : ∀ n ∈ names, IsName n) {name : String} {obscure : Bool} {data : FileData}
    (hfile : Entry.among? entries names = some (.file name obscure data)) {size : Nat}
    (hsize : fs.fileSize? (names.foldl childPath directory) = some size) :
    (∃ above last, fs.lookUp (names.foldl childPath directory) = .ok (.file data above last)) ∧
      data.sizeFault = none ∧ data.size = size := by
  rw [fileSize?] at hsize
  split at hsize
  · rename_i found above last hlook
    obtain ⟨above', last', hplace⟩ := lookUp_foldl_childPath hlist hnames hfile hlook
    obtain ⟨rfl, -, -⟩ := Place.file.inj hplace
    split at hsize
    · rename_i hsized
      exact ⟨⟨above, last, hlook⟩, hsized, Option.some.inj hsize⟩
    · cases hsize
  · cases hsize

end SourceSnapshot.FileSystem
