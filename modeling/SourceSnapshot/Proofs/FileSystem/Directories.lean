import SourceSnapshot.FileSystem.Resolution
import SourceSnapshot.Proofs.FileSystem.Additions
import SourceSnapshot.Proofs.FileSystem.Descent

/-!
# Made directories

Making the directories along a path puts empty directories in and nothing else. Afterwards the path
leads to a directory; if there was none at its place, that directory holds no file. Where the path
leads to a directory already, nothing is made.
-/

namespace SourceSnapshot.FileSystem

variable {fs fs' : FileSystem}

/-- A path as it is read off a text: at most two slashes stand in front, and each component leads
somewhere and has no slash in it. -/
structure Path.IsRead (p : Path) : Prop where
  root : p.root = "" ∨ p.root = "/" ∨ p.root = "//"
  components : ∀ c ∈ p.components, isIdle c.toList = false ∧ '/' ∉ c.toList

/-- What is read off a text is a path that was read. -/
theorem Path.isRead_ofText (text : String) : (Path.ofText text).IsRead := by
  constructor
  · change rootOf text.toList = "" ∨ rootOf text.toList = "/" ∨ rootOf text.toList = "//"
    unfold rootOf
    split
    · exact Or.inr (Or.inl rfl)
    · exact Or.inr (Or.inr rfl)
    · exact Or.inr (Or.inl rfl)
    · exact Or.inl rfl
  · intro c hc
    obtain ⟨piece, hpiece, rfl⟩ := List.mem_map.mp hc
    obtain ⟨hpiece, hidle⟩ := List.mem_filter.mp hpiece
    rw [String.toList_ofList]
    exact ⟨by simpa using hidle, Text.notMem_of_mem_splitOn hpiece⟩

theorem steps_slash_append (text : String) : steps ("/" ++ text) = "" :: steps text := by
  have hlist : ("/" ++ text).toList = '/' :: text.toList := by simp
  rw [steps, hlist, Text.splitOn_cons_self, List.map_cons]
  rfl

theorem walk_empty_cons (fs : FileSystem) (purpose : Purpose) (links : Nat)
    (location rest : List String) :
    fs.walk purpose links location ("" :: rest) = fs.walk purpose links location rest := by
  cases links <;> rfl

/-- A path that was read is followed along its components. -/
theorem walk_steps_text {p : Path} (h : p.IsRead) (purpose : Purpose) (links : Nat)
    (location : List String) :
    fs.walk purpose links location (steps p.text) =
      fs.walk purpose links location p.components := by
  by_cases hnil : p.components = []
  · obtain ⟨root, components⟩ := p
    obtain rfl : components = [] := hnil
    rcases h.root with hroot | hroot | hroot <;> obtain rfl := hroot <;> cases links <;> rfl
  have hsteps : steps ("/".intercalate p.components) = p.components :=
    steps_intercalate_of_notMem (fun c hc => (h.components c hc).2) hnil
  have hdouble : ("//" : String) = "/" ++ "/" := rfl
  rw [Path.text, if_neg (by simp [hnil])]
  rcases h.root with hroot | hroot | hroot
  · rw [hroot, String.empty_append, hsteps]
  · rw [hroot, steps_slash_append, walk_empty_cons, hsteps]
  · rw [hroot, hdouble, String.append_assoc, steps_slash_append, steps_slash_append,
      walk_empty_cons, walk_empty_cons, hsteps]

/-- A path that was read starts at the root if a slash stands in front, and else at the working
directory. -/
theorem start_text {p : Path} (h : p.IsRead) :
    fs.start p.text = if p.root = "" then fs.workingDirectory else [] := by
  have habsolute : ∀ root : String, root = "/" ∨ root = "//" → ∀ rest : String,
      startsAtRoot (root ++ rest) = true := by
    rintro root (rfl | rfl) rest <;> simp [startsAtRoot]
  rw [start]
  rcases h.root with hroot | hroot
  · have hrelative : startsAtRoot p.text = false := by
      rw [Path.text]
      cases hcomponents : p.components with
      | nil => simp [hroot, startsAtRoot]
      | cons first rest =>
        obtain ⟨hidle, hslash⟩ := h.components first (by simp [hcomponents])
        have hfirst : first.toList ≠ [] := by
          rintro hnil
          simp [isIdle, hnil] at hidle
        obtain ⟨c, cs, hcs⟩ := List.exists_cons_of_ne_nil hfirst
        have hne : c ≠ '/' := by
          rintro rfl
          exact hslash (hcs ▸ List.mem_cons_self)
        simp [hroot, startsAtRoot, hcs, hne]
    rw [hrelative, if_pos hroot]
    rfl
  · have hne : p.root ≠ "" := by
      rcases hroot with hroot | hroot <;> simp [hroot]
    have hstarts : startsAtRoot p.text = true := by
      rw [Path.text, if_neg (by simp [hne])]
      exact habsolute p.root hroot _
    rw [if_pos hstarts, if_neg hne]

/-- The text of a path that was read is not empty. -/
theorem Path.IsRead.text_ne_empty {p : Path} (h : p.IsRead) : p.text ≠ "" := by
  intro hempty
  rw [Path.text] at hempty
  split at hempty
  · simp at hempty
  · rename_i hsome
    rw [String.append_eq_empty_iff] at hempty
    obtain ⟨hroot, hcomponents⟩ := hempty
    cases hlist : p.components with
    | nil => simp [hroot, hlist] at hsome
    | cons first rest =>
      have hidle := (h.components first (by simp [hlist])).1
      have htext := congrArg String.toList hcomponents
      rw [hlist, toList_intercalate_cons, String.toList_empty, List.append_eq_nil_iff] at htext
      simp [isIdle, htext.1] at hidle

/-- Whether the working directory is there. -/
def HasWorkingDirectory (fs : FileSystem) : Prop := (fs.contents? fs.workingDirectory).isSome

instance (fs : FileSystem) : Decidable fs.HasWorkingDirectory :=
  inferInstanceAs (Decidable (_ = true))

/-- A path starts at a directory that is there. -/
theorem HasWorkingDirectory.start (h : fs.HasWorkingDirectory) (path : String) :
    (fs.contents? (fs.start path)).isSome := by
  rw [FileSystem.start]
  split
  · rfl
  · exact h

/-- The directory above one that is there is there. -/
theorem isSome_contents?_dropLast {location : List String}
    (h : (fs.contents? location).isSome) : (fs.contents? location.dropLast).isSome := by
  rw [contents?] at h ⊢
  generalize ((none, fs.entries) : Option Errno × List Entry) = found at h ⊢
  induction location generalizing found with
  | nil => exact h
  | cons first location ih =>
    cases location with
    | nil => rfl
    | cons second location =>
      rw [List.dropLast_cons_cons, Entry.directoryAt?]
      rw [Entry.directoryAt?] at h
      split at h
      · exact ih _ h
      · cases h

/-- The target of a link in a directory that is there is followed from one that is there. -/
theorem isSome_contents?_linkStart {location : List String} (h : (fs.contents? location).isSome)
    (target : String) : (fs.contents? (linkStart location target)).isSome := by
  rw [linkStart]
  split
  · rfl
  · exact h

/-- From a directory that is there, a component leads to one that is there. -/
theorem isSome_contents?_of_goOn {location next : List String}
    (h : (fs.contents? location).isSome) {step : String}
    (hturn : fs.turn? location step = some (.goOn next)) : (fs.contents? next).isSome := by
  rw [turn?] at hturn
  split at hturn
  · obtain rfl : location = next := Turn.goOn.inj (Option.some.inj hturn)
    exact h
  split at hturn
  · obtain rfl : location.dropLast = next := Turn.goOn.inj (Option.some.inj hturn)
    exact isSome_contents?_dropLast h
  split at hturn
  · cases hturn
  cases hentry : fs.entryAt? location step with
  | none =>
    rw [hentry] at hturn
    cases hturn
  | some entry =>
    rw [hentry] at hturn
    cases entry with
    | directory n obscure fault inner =>
      obtain rfl : location ++ [step] = next := Turn.goOn.inj (Option.some.inj hturn)
      obtain ⟨found, hfound, hin⟩ := Option.bind_eq_some_iff.mp hentry
      rw [contents?_append hfound hin]
      rfl
    | file | link | pipe | unknown => cases hturn

/-- From a directory that is there, components lead to directories that are there, if it is so
behind each link. -/
theorem isSome_contents?_of_walkWith
    {atLink : List String → String → List String → Except Errno Place} {last : List String}
    (hlink : ∀ location target steps, (fs.contents? location).isSome →
      atLink location target steps = .ok (.directory last) → (fs.contents? last).isSome)
    {location steps : List String} (h : (fs.contents? location).isSome)
    (hwalk : fs.walkWith .visit atLink location steps = .ok (.directory last)) :
    (fs.contents? last).isSome := by
  induction steps generalizing location with
  | nil =>
    obtain rfl : location = last := Place.directory.inj (Except.ok.inj hwalk)
    exact h
  | cons step steps ih =>
    obtain ⟨turn, hturn⟩ := exists_turn?_of_walkWith hwalk
    rw [walkWith_cons_of_turn? hturn (Or.inl rfl)] at hwalk
    cases turn with
    | goOn next => exact ih (isSome_contents?_of_goOn h hturn) hwalk
    | follow target => exact hlink location target steps h hwalk

/-- From a directory that is there, components lead to directories that are there. -/
theorem isSome_contents?_of_walk {links : Nat} {location steps last : List String}
    (h : (fs.contents? location).isSome)
    (hwalk : fs.walk .visit links location steps = .ok (.directory last)) :
    (fs.contents? last).isSome := by
  induction links generalizing location steps with
  | zero =>
    refine isSome_contents?_of_walkWith (fun _ _ _ _ hlink => ?_) h hwalk
    cases hlink
  | succ links ih =>
    refine isSome_contents?_of_walkWith (fun location target _ hat hlink => ?_) h hwalk
    exact ih (isSome_contents?_linkStart hat target) hlink

/-- If the working directory is there, so is each directory that a path leads to. -/
theorem HasWorkingDirectory.isSome_contents? (h : fs.HasWorkingDirectory) {path : String}
    {location : List String} (hlook : fs.lookUp path = .ok (.directory location)) :
    (fs.contents? location).isSome :=
  isSome_contents?_of_walk (h.start path) (lookUp_eq_directory_iff.mp hlook).2

/-- What the directory at a location holds, with the fault of listing it; nothing if it is not
there. -/
def holdings (fs : FileSystem) (location : List String) : Option Errno × List Entry :=
  (fs.contents? location).getD (none, [])

/-- The second file system has all that the first one has, and new directories beside. -/
structure Makes (fs fs' : FileSystem) : Prop where
  keeps : fs.Keeps fs'
  stays : ∀ location, (fs.contents? location).isSome → (fs'.contents? location).isSome
  fault : ∀ location, (fs'.holdings location).1 = (fs.holdings location).1
  entries : ∀ location, ∀ entry ∈ (fs'.holdings location).2,
    entry.isDirectory = true ∨ entry ∈ (fs.holdings location).2

theorem Makes.refl (fs : FileSystem) : fs.Makes fs :=
  ⟨Keeps.refl fs, fun _ => id, fun _ => rfl, fun _ _ => Or.inr⟩

/-- What is made in two goes is made. -/
theorem Makes.trans {fs'' : FileSystem} (h : fs.Makes fs') (h' : fs'.Makes fs'') :
    fs.Makes fs'' where
  keeps := h.keeps.trans h'.keeps
  stays location hthere := h'.stays location (h.stays location hthere)
  fault location := (h'.fault location).trans (h.fault location)
  entries location entry hentry := by
    rcases h'.entries location entry hentry with hnew | hentry
    · exact Or.inl hnew
    · exact h.entries location entry hentry

/-- The working directory stays where directories are made. -/
theorem Makes.hasWorkingDirectory (h : fs.Makes fs') (hworking : fs.HasWorkingDirectory) :
    fs'.HasWorkingDirectory := by
  rw [HasWorkingDirectory, h.keeps.workingDirectory]
  exact h.stays _ hworking

/-- Below a new directory there is nothing. -/
theorem eq_of_directoryAt?_newDirectory {name : String} {names : List String}
    {found : Option Errno × List Entry}
    (h : Entry.directoryAt? (name :: names) (none, [newDirectory name]) = some found) :
    found = (none, []) := by
  have hname : Entry.find? name [newDirectory name] = some (newDirectory name) :=
    List.find?_cons_of_pos (beq_self_eq_true name)
  rw [Entry.directoryAt?, hname] at h
  cases names with
  | nil => exact (Option.some.inj h).symm
  | cons first names => cases h

/-- A new directory of a new name is made. -/
theorem makes_putAt {location : List String} {name : String}
    (h : fs.entryAt? location name = none) :
    fs.Makes (fs.putAt location (newDirectory name)) := by
  have hnew : fs.entryAt? location (newDirectory name).name = none := h
  have hgrew : ∀ place,
      ((fs.contents? place).isSome →
        ((fs.putAt location (newDirectory name)).contents? place).isSome) ∧
      ((fs.putAt location (newDirectory name)).holdings place).1 = (fs.holdings place).1 ∧
      ∀ entry ∈ ((fs.putAt location (newDirectory name)).holdings place).2,
        entry.isDirectory = true ∨ entry ∈ (fs.holdings place).2 := by
    intro place
    have hplace := grewAt_putAt hnew place
    rw [holdings, holdings]
    cases hfound : fs.contents? place with
    | some found =>
      cases hgrown : (fs.putAt location (newDirectory name)).contents? place with
      | none =>
        rw [hfound, hgrown] at hplace
        cases hplace
      | some grown =>
        rw [hfound, hgrown] at hplace
        refine ⟨fun _ => rfl, hplace.1, fun entry hentry => ?_⟩
        rcases hplace.2.of_mem hentry with rfl | hentry
        · exact Or.inl rfl
        · exact hentry
    | none =>
      cases hgrown : (fs.putAt location (newDirectory name)).contents? place with
      | none => exact ⟨id, rfl, fun _ => Or.inr⟩
      | some grown =>
        rw [hfound, hgrown] at hplace
        obtain ⟨names, hnames⟩ := hplace
        obtain rfl := eq_of_directoryAt?_newDirectory hnames
        exact ⟨fun _ => rfl, rfl, fun _ => Or.inr⟩
  exact ⟨keeps_putAt hnew, fun place => (hgrew place).1, fun place => (hgrew place).2.1,
    fun place => (hgrew place).2.2⟩

theorem mapError_eq_ok_iff {ε δ α : Type} {f : ε → δ} {result : Except ε α} {a : α} :
    result.mapError f = .ok a ↔ result = .ok a := by
  cases result <;> simp [Except.mapError]

/-- What making one directory comes to if it succeeds: a new directory of a new name in a directory
that is there. -/
theorem exists_putAt_of_makeDirectory {p : Path} (h : fs.makeDirectory p = .ok fs') :
    ∃ above name location, p.components = above ++ [name] ∧
      fs.walkFrom .visit p.text above = .ok (.directory location) ∧ name ≠ ".." ∧
      fs.entryAt? location name = none ∧ name.utf8ByteSize ≤ maxNameBytes ∧
      fs' = fs.putAt location (newDirectory name) := by
  rw [makeDirectory] at h
  split at h
  · cases h
  · rename_i name above hcomponents
    split at h
    · rename_i location hwalk
      split at h
      · cases h
      · rename_i hfree
        split at h
        · cases h
        · rename_i hshort
          simp only [Bool.or_eq_true, decide_eq_true_eq, not_or, Option.not_isSome_iff_eq_none]
            at hfree
          refine ⟨above.reverse, name, location, ?_, hwalk, hfree.1, hfree.2, by omega,
            (Except.ok.inj h).symm⟩
          rw [← List.reverse_cons, ← hcomponents, List.reverse_reverse]
    · cases h
    · cases h
    · cases h

/-- A directory that was made with success is made. -/
theorem makes_of_makeDirectory {p : Path} (h : fs.makeDirectory p = .ok fs') : fs.Makes fs' := by
  obtain ⟨above, name, location, -, -, -, hnew, -, rfl⟩ := exists_putAt_of_makeDirectory h
  exact makes_putAt hnew

/-- A new directory of a new name is where its path leads. -/
theorem lookUp_putAt_newDirectory {p : Path} (hp : p.IsRead) (hworking : fs.HasWorkingDirectory)
    {above : List String} {name : String} (hcomponents : p.components = above ++ [name])
    {location : List String} (hfrom : fs.walkFrom .visit p.text above = .ok (.directory location))
    (hup : name ≠ "..") (hfree : fs.entryAt? location name = none)
    (hshort : name.utf8ByteSize ≤ maxNameBytes) :
    (fs.putAt location (newDirectory name)).lookUp p.text =
      .ok (.directory (location ++ [name])) := by
  obtain ⟨hpath, hwalk⟩ := walkFrom_eq_ok_iff.mp hfrom
  have hnew : fs.entryAt? location (newDirectory name).name = none := hfree
  have hkeeps := keeps_putAt hnew
  have hthere := isSome_contents?_of_walk (hworking.start p.text) hwalk
  have hidle : ¬isIdle name.toList = true := by
    simp [(hp.components name (by simp [hcomponents])).1]
  have hentry : (fs.putAt location (newDirectory name)).entryAt? location name =
      some (newDirectory name) := entryAt?_putAt hthere hnew
  have hturn : (fs.putAt location (newDirectory name)).turn? location name =
      some (.goOn (location ++ [name])) := by
    rw [turn?, if_neg hidle, if_neg hup, if_neg (by omega), hentry]
    rfl
  obtain ⟨links, hlinks⟩ := hkeeps.walk_append hwalk
  refine lookUp_eq_directory_iff.mpr ⟨hpath, ?_⟩
  rw [hkeeps.start, walk_steps_text hp, hcomponents,
    hlinks .visit [name] (Or.inl rfl), walk_cons_of_goOn hturn (Or.inl rfl), walk_nil]

/-- A directory that was made with success is where its path leads. -/
theorem exists_lookUp_of_makeDirectory {p : Path} (hp : p.IsRead)
    (hworking : fs.HasWorkingDirectory) (h : fs.makeDirectory p = .ok fs') :
    ∃ location, fs'.lookUp p.text = .ok (.directory location) := by
  obtain ⟨above, name, location, hcomponents, hfrom, hup, hfree, hshort, rfl⟩ :=
    exists_putAt_of_makeDirectory h
  exact ⟨_, lookUp_putAt_newDirectory hp hworking hcomponents hfrom hup hfree hshort⟩

/-- What it comes to if a directory is there after it was asked for: it was made, or it was there
before. -/
theorem makeDirectory_or_lookUp_of_ensureDirectory {p : Path}
    (h : fs.ensureDirectory p = .ok fs') :
    fs.makeDirectory p = .ok fs' ∨
      fs' = fs ∧ ∃ location, fs.lookUp p.text = .ok (.directory location) := by
  rw [ensureDirectory] at h
  cases hmake : fs.makeDirectory p with
  | ok changed =>
    rw [hmake] at h
    exact Or.inl h
  | error fault =>
    rw [hmake] at h
    simp only at h
    split at h
    · cases h
    · split at h
      · rename_i location hlook
        exact Or.inr ⟨(Except.ok.inj h).symm, location, hlook⟩
      · cases h
      · cases h

/-- A directory that is there after it was asked for is made at most, and its path leads to it. -/
theorem makes_of_ensureDirectory {p : Path} (hp : p.IsRead) (hworking : fs.HasWorkingDirectory)
    (h : fs.ensureDirectory p = .ok fs') :
    fs.Makes fs' ∧ ∃ location, fs'.lookUp p.text = .ok (.directory location) := by
  rcases makeDirectory_or_lookUp_of_ensureDirectory h with hmade | ⟨rfl, hthere⟩
  · exact ⟨makes_of_makeDirectory hmade, exists_lookUp_of_makeDirectory hp hworking hmade⟩
  · exact ⟨Makes.refl fs', hthere⟩

/-- Directories that are there after they were asked for from the last component on are made at
most, and the path of the last one leads to it. -/
theorem makes_of_makeDirectoriesUpward {root : String} {components : List String}
    (hp : Path.IsRead ⟨root, components.reverse⟩) (hworking : fs.HasWorkingDirectory)
    (h : fs.makeDirectoriesUpward root components = .ok fs') :
    fs.Makes fs' ∧ ∃ location,
      fs'.lookUp (Path.text ⟨root, components.reverse⟩) = .ok (.directory location) := by
  induction components generalizing fs' with
  | nil => exact makes_of_ensureDirectory hp hworking (mapError_eq_ok_iff.mp h)
  | cons name above ih =>
    rw [makeDirectoriesUpward] at h
    split at h
    · cases habove : fs.makeDirectoriesUpward root above with
      | error fault =>
        rw [habove] at h
        cases h
      | ok made =>
        rw [habove] at h
        have hread : Path.IsRead ⟨root, above.reverse⟩ := by
          refine ⟨hp.root, fun c hc => hp.components c ?_⟩
          simp only [List.mem_reverse] at hc ⊢
          exact List.mem_cons_of_mem name hc
        have hmade := (ih hread habove).1
        obtain ⟨hlast, hlook⟩ := makes_of_ensureDirectory hp
          (hmade.hasWorkingDirectory hworking) (mapError_eq_ok_iff.mp h)
        exact ⟨hmade.trans hlast, hlook⟩
    · exact makes_of_ensureDirectory hp hworking (mapError_eq_ok_iff.mp h)

/-- Directories that are there after they were asked for are made at most, and their path leads to
the last one. -/
theorem makes_of_makeDirectories {p : Path} (hp : p.IsRead) (hworking : fs.HasWorkingDirectory)
    (h : fs.makeDirectories p = .ok fs') :
    fs.Makes fs' ∧ ∃ location, fs'.lookUp p.text = .ok (.directory location) := by
  have hread : Path.IsRead ⟨p.root, p.components.reverse.reverse⟩ := by
    rwa [List.reverse_reverse]
  have hmakes := makes_of_makeDirectoriesUpward hread hworking h
  rwa [List.reverse_reverse] at hmakes

/-- The last component of a path to a directory leads up, or its name is taken. -/
theorem up_or_isSome_entryAt? {links : Nat} {location last : List String} {name : String}
    (hidle : isIdle name.toList = false)
    (h : fs.walk .visit links location [name] = .ok (.directory last)) :
    name = ".." ∨ (fs.entryAt? location name).isSome := by
  by_cases hup : name = ".."
  · exact Or.inl hup
  refine Or.inr (Option.isSome_iff_ne_none.mpr fun hnone => ?_)
  obtain ⟨turn, hturn⟩ := exists_turn?_of_walk h
  rw [turn?, hidle, if_neg Bool.false_ne_true, if_neg hup, hnone] at hturn
  split at hturn <;> cases hturn

/-- A directory cannot be made where a path leads to one. -/
theorem makeDirectory_of_lookUp {p : Path} (hp : p.IsRead) {location : List String}
    (h : fs.lookUp p.text = .ok (.directory location)) :
    fs.makeDirectory p = .error (.call ⟨.exists, p.text⟩) := by
  rw [makeDirectory]
  cases hreverse : p.components.reverse with
  | nil => rfl
  | cons name above =>
    have hcomponents : p.components = above.reverse ++ [name] := by
      rw [← List.reverse_cons, ← hreverse, List.reverse_reverse]
    have hidle := (hp.components name (by simp [hcomponents])).1
    obtain ⟨hpath, hwalk⟩ := lookUp_eq_directory_iff.mp h
    rw [walk_steps_text hp, hcomponents] at hwalk
    obtain ⟨next, hnext⟩ := exists_walk_of_append hwalk
    obtain ⟨links, hlinks⟩ := (Keeps.refl fs).walk_append hnext
    rw [hlinks .visit [name] (Or.inl rfl)] at hwalk
    have htaken := up_or_isSome_entryAt? hidle hwalk
    simp only [walkFrom_eq_ok_iff.mpr ⟨hpath, hnext⟩]
    rw [if_pos (by simpa using htaken)]

/-- No directory is made where a path leads to one. -/
theorem ensureDirectory_of_lookUp {p : Path} (hp : p.IsRead) {location : List String}
    (h : fs.lookUp p.text = .ok (.directory location)) : fs.ensureDirectory p = .ok fs := by
  rw [ensureDirectory, makeDirectory_of_lookUp hp h, h]
  exact if_neg (by simp)

/-- There is no directory yet where a path leads as soon as the directories along it are made. -/
def Lacks (fs : FileSystem) (p : Path) : Prop :=
  ∀ made location, fs.makeDirectories p = .ok made →
    made.lookUp p.text = .ok (.directory location) → fs.contents? location = none

/-- A directory that was not there holds directories at most when it is made. -/
theorem Lacks.list_makeDirectories {p : Path} (h : fs.Lacks p) (hp : p.IsRead)
    (hworking : fs.HasWorkingDirectory) (hmade : fs.makeDirectories p = .ok fs') :
    ∃ entries, fs'.list p.text = .ok entries ∧ ∀ entry ∈ entries, entry.isDirectory = true := by
  obtain ⟨hmakes, location, hlook⟩ := makes_of_makeDirectories hp hworking hmade
  have hnone : fs.holdings location = (none, []) := by
    rw [holdings, h fs' location hmade hlook]
    rfl
  obtain ⟨⟨fault, entries⟩, hcontents⟩ := Option.isSome_iff_exists.mp
    ((hmakes.hasWorkingDirectory hworking).isSome_contents? hlook)
  have hholdings : fs'.holdings location = (fault, entries) := by
    rw [holdings, hcontents]
    rfl
  have hfault := hmakes.fault location
  have hentries := hmakes.entries location
  rw [hholdings, hnone] at hfault hentries
  obtain rfl : fault = none := hfault
  refine ⟨entries, list_eq_ok_iff.mpr ⟨location, hlook, hcontents⟩, fun entry hentry => ?_⟩
  exact (hentries entry hentry).resolve_right List.not_mem_nil

/-- A path to a directory that was not there and could be made has components. -/
theorem Lacks.components_ne_nil {p : Path} (h : fs.Lacks p) (hworking : fs.HasWorkingDirectory)
    (hmade : fs.makeDirectories p = .ok fs') : p.components ≠ [] := by
  rintro hnil
  have hensure : fs.ensureDirectory p = .ok fs' := by
    rw [makeDirectories, hnil] at hmade
    cases p
    obtain rfl := hnil
    exact mapError_eq_ok_iff.mp hmade
  rcases makeDirectory_or_lookUp_of_ensureDirectory hensure with hmake | ⟨rfl, location, hlook⟩
  · obtain ⟨above, name, location, hcomponents, -⟩ := exists_putAt_of_makeDirectory hmake
    rw [hnil] at hcomponents
    exact List.append_ne_nil_of_right_ne_nil above (List.cons_ne_nil name []) hcomponents.symm
  · have hthere := hworking.isSome_contents? hlook
    rw [h fs' location hmade hlook] at hthere
    cases hthere

end SourceSnapshot.FileSystem
