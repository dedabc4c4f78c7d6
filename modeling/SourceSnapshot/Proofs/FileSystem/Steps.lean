import SourceSnapshot.FileSystem.Lookup

/-!
# Single steps of a look-up

A component of a path either leads on to a directory, or stands for a link whose target is to be
followed, or ends the look-up. A file system keeps the turns of another one if each component that
leads on there leads on in the same way. Components that lead to a directory then lead to it still,
and whatever stands behind them is followed from that directory on.
-/

namespace SourceSnapshot.FileSystem

variable {fs fs' : FileSystem}

/-- How a look-up goes on behind a component: at another location, or along the target of a link. -/
inductive Turn where
  | goOn (next : List String)
  | follow (target : String)

/-- How a look-up goes on behind a component, if more components may stand there. -/
def turn? (fs : FileSystem) (location : List String) (step : String) : Option Turn :=
  if isIdle step.toList then some (.goOn location)
  else if step = ".." then some (.goOn location.dropLast)
  else if maxNameBytes < step.utf8ByteSize then none
  else
    match fs.entryAt? location step with
    | some (.directory _ _ _ _) => some (.goOn (location ++ [step]))
    | some (.link _ _ target) => some (.follow target)
    | _ => none

/-- Follows components behind a turn. -/
def walkBehind (fs : FileSystem) (purpose : Purpose)
    (atLink : List String → String → List String → Except Errno Place) (location : List String)
    (rest : List String) : Turn → Except Errno Place
  | .goOn next => fs.walkWith purpose atLink next rest
  | .follow target => atLink location target rest

/-- Components that do not only ask for a directory, so that a file to write may stand behind
them. -/
def IsNamed (purpose : Purpose) (steps : List String) : Prop :=
  purpose = .visit ∨ ∃ step ∈ steps, step ≠ ""

theorem IsNamed.append {purpose : Purpose} {rest : List String} (h : IsNamed purpose rest)
    (steps : List String) : IsNamed purpose (steps ++ rest) := by
  rcases h with h | ⟨step, hstep, hne⟩
  · exact Or.inl h
  · exact Or.inr ⟨step, List.mem_append_right steps hstep, hne⟩

/-- Before components that name something, only the length of a name matters. -/
theorem nameFault?_of_isNamed {purpose : Purpose} {rest : List String} (h : IsNamed purpose rest)
    (step : String) :
    nameFault? purpose step rest =
      if maxNameBytes < step.utf8ByteSize then some .nameTooLong else none := by
  rw [nameFault?, if_neg]
  rcases h with rfl | ⟨other, hother, hne⟩
  · simp
  · intro hasks
    simp only [Bool.and_eq_true, List.all_eq_true, decide_eq_true_eq] at hasks
    exact hne (hasks.2 other hother)

/-- Components are followed by the turn of the first of them. -/
theorem walkWith_cons_of_turn? {purpose : Purpose}
    {atLink : List String → String → List String → Except Errno Place} {location : List String}
    {step : String} {turn : Turn} (h : fs.turn? location step = some turn) {rest : List String}
    (hrest : IsNamed purpose rest) :
    fs.walkWith purpose atLink location (step :: rest) =
      fs.walkBehind purpose atLink location rest turn := by
  rw [walkWith, nameFault?_of_isNamed hrest]
  rw [turn?] at h
  by_cases hidle : isIdle step.toList = true
  · rw [if_pos hidle] at h ⊢
    obtain rfl := Option.some.inj h
    rfl
  by_cases hup : step = ".."
  · rw [if_neg hidle, if_pos hup] at h ⊢
    obtain rfl := Option.some.inj h
    rfl
  rw [if_neg hidle, if_neg hup] at h ⊢
  by_cases hlong : maxNameBytes < step.utf8ByteSize
  · rw [if_pos hlong] at h
    cases h
  rw [if_neg hlong] at h ⊢
  cases hentry : fs.entryAt? location step with
  | none =>
    rw [hentry] at h
    cases h
  | some entry =>
    rw [hentry] at h
    cases entry with
    | directory | link =>
      obtain rfl := Option.some.inj h
      rfl
    | file | pipe | unknown => cases h

/-- A component that leads to a directory in the end has a turn. -/
theorem exists_turn?_of_walkWith
    {atLink : List String → String → List String → Except Errno Place}
    {location last steps : List String} {step : String}
    (h : fs.walkWith .visit atLink location (step :: steps) = .ok (.directory last)) :
    ∃ turn, fs.turn? location step = some turn := by
  rw [walkWith, nameFault?_of_isNamed (Or.inl rfl)] at h
  rw [turn?]
  by_cases hidle : isIdle step.toList = true
  · exact ⟨_, if_pos hidle⟩
  by_cases hup : step = ".."
  · exact ⟨_, (if_neg hidle).trans (if_pos hup)⟩
  rw [if_neg hidle, if_neg hup] at h ⊢
  by_cases hlong : maxNameBytes < step.utf8ByteSize
  · rw [if_pos hlong] at h
    cases h
  rw [if_neg hlong] at h ⊢
  cases hentry : fs.entryAt? location step with
  | none =>
    simp only [hentry] at h
    split at h <;> cases h
  | some entry =>
    simp only [hentry] at h
    cases entry with
    | directory => exact ⟨_, rfl⟩
    | link => exact ⟨_, rfl⟩
    | file | pipe =>
      simp only at h
      split at h <;> cases h
    | unknown => cases h

/-- Each component that leads on in the first file system leads on in the same way in the second
one, and both have the same working directory. -/
structure Keeps (fs fs' : FileSystem) : Prop where
  workingDirectory : fs'.workingDirectory = fs.workingDirectory
  turn? : ∀ {location step turn}, fs.turn? location step = some turn →
    fs'.turn? location step = some turn

theorem Keeps.refl (fs : FileSystem) : fs.Keeps fs := ⟨rfl, id⟩

theorem Keeps.trans {fs'' : FileSystem} (h : fs.Keeps fs') (h' : fs'.Keeps fs'') :
    fs.Keeps fs'' :=
  ⟨h'.workingDirectory.trans h.workingDirectory, fun hturn => h'.turn? (h.turn? hturn)⟩

theorem Keeps.start (h : fs.Keeps fs') (path : String) : fs'.start path = fs.start path := by
  rw [FileSystem.start, FileSystem.start, h.workingDirectory]

/-- Where turns are kept, components that lead to a directory lead there still, and what stands
behind them is followed from there on, if it is so behind each link. -/
theorem Keeps.walkWith_append (h : fs.Keeps fs')
    {atLink : List String → String → List String → Except Errno Place}
    {atLink' : Purpose → List String → String → List String → Except Errno Place}
    {last : List String}
    (hlast : ∃ links, ∀ purpose rest,
      fs'.walkWith purpose (atLink' purpose) last rest = fs'.walk purpose links last rest)
    (hlink : ∀ location target steps, atLink location target steps = .ok (.directory last) →
      ∃ links, ∀ purpose rest, IsNamed purpose rest →
        atLink' purpose location target (steps ++ rest) = fs'.walk purpose links last rest)
    {location steps : List String}
    (hwalk : fs.walkWith .visit atLink location steps = .ok (.directory last)) :
    ∃ links, ∀ purpose rest, IsNamed purpose rest →
      fs'.walkWith purpose (atLink' purpose) location (steps ++ rest) =
        fs'.walk purpose links last rest := by
  induction steps generalizing location with
  | nil =>
    obtain rfl : location = last := Place.directory.inj (Except.ok.inj hwalk)
    obtain ⟨links, hlinks⟩ := hlast
    exact ⟨links, fun purpose rest _ => hlinks purpose rest⟩
  | cons step steps ih =>
    obtain ⟨turn, hturn⟩ := exists_turn?_of_walkWith hwalk
    rw [walkWith_cons_of_turn? hturn (Or.inl rfl)] at hwalk
    have hbehind : ∃ links, ∀ purpose rest, IsNamed purpose rest →
        fs'.walkBehind purpose (atLink' purpose) location (steps ++ rest) turn =
          fs'.walk purpose links last rest := by
      cases turn with
      | goOn next => exact ih hwalk
      | follow target => exact hlink location target steps hwalk
    obtain ⟨links, hlinks⟩ := hbehind
    refine ⟨links, fun purpose rest hrest => ?_⟩
    rw [List.cons_append, walkWith_cons_of_turn? (h.turn? hturn) (hrest.append steps)]
    exact hlinks purpose rest hrest

/-- Where turns are kept, components that lead to a directory lead there still, and what stands
behind them is followed from there on. -/
theorem Keeps.walk_append (h : fs.Keeps fs') {links : Nat} {location steps last : List String}
    (hwalk : fs.walk .visit links location steps = .ok (.directory last)) :
    ∃ more, ∀ purpose rest, IsNamed purpose rest →
      fs'.walk purpose links location (steps ++ rest) = fs'.walk purpose more last rest := by
  induction links generalizing location steps with
  | zero =>
    refine h.walkWith_append ⟨0, fun _ _ => rfl⟩ (fun _ _ _ hlink => ?_) hwalk
    cases hlink
  | succ links ih =>
    refine h.walkWith_append ⟨links + 1, fun _ _ => rfl⟩ (fun location target behind hlink => ?_)
      hwalk
    obtain ⟨more, hmore⟩ := ih hlink
    refine ⟨more, fun purpose rest hrest => ?_⟩
    rw [← hmore purpose rest hrest, List.append_assoc]

theorem walk_nil (fs : FileSystem) (purpose : Purpose) (links : Nat) (location : List String) :
    fs.walk purpose links location [] = .ok (.directory location) := by
  cases links <;> rfl

theorem exists_turn?_of_walk {links : Nat} {location last steps : List String} {step : String}
    (h : fs.walk .visit links location (step :: steps) = .ok (.directory last)) :
    ∃ turn, fs.turn? location step = some turn := by
  cases links <;> exact exists_turn?_of_walkWith h

theorem walk_cons_of_goOn {purpose : Purpose} {location next : List String} {step : String}
    (h : fs.turn? location step = some (.goOn next)) {rest : List String}
    (hrest : IsNamed purpose rest) (links : Nat) :
    fs.walk purpose links location (step :: rest) = fs.walk purpose links next rest := by
  cases links <;> exact walkWith_cons_of_turn? h hrest

/-- Where turns are kept, components that lead to a directory lead there still. -/
theorem Keeps.walk (h : fs.Keeps fs') {links : Nat} {location steps last : List String}
    (hwalk : fs.walk .visit links location steps = .ok (.directory last)) :
    fs'.walk .visit links location steps = .ok (.directory last) := by
  obtain ⟨more, hmore⟩ := h.walk_append hwalk
  have hsame := hmore .visit [] (Or.inl rfl)
  rwa [List.append_nil, walk_nil] at hsame

/-- The components before others that lead to a directory lead to a directory, if it is so behind
each link. -/
theorem exists_walkWith_of_append
    {atLink : List String → String → List String → Except Errno Place}
    {behind last : List String}
    (hlink : ∀ location target steps, atLink location target (steps ++ behind) =
      .ok (.directory last) → ∃ next, atLink location target steps = .ok (.directory next))
    {location steps : List String}
    (h : fs.walkWith .visit atLink location (steps ++ behind) = .ok (.directory last)) :
    ∃ next, fs.walkWith .visit atLink location steps = .ok (.directory next) := by
  induction steps generalizing location with
  | nil => exact ⟨location, rfl⟩
  | cons step steps ih =>
    rw [List.cons_append] at h
    obtain ⟨turn, hturn⟩ := exists_turn?_of_walkWith h
    rw [walkWith_cons_of_turn? hturn (Or.inl rfl)] at h ⊢
    cases turn with
    | goOn next => exact ih h
    | follow target => exact hlink location target steps h

/-- The components before others that lead to a directory lead to a directory. -/
theorem exists_walk_of_append {links : Nat} {location steps behind last : List String}
    (h : fs.walk .visit links location (steps ++ behind) = .ok (.directory last)) :
    ∃ next, fs.walk .visit links location steps = .ok (.directory next) := by
  induction links generalizing location steps with
  | zero =>
    refine exists_walkWith_of_append (fun _ _ _ hlink => ?_) h
    cases hlink
  | succ links ih =>
    refine exists_walkWith_of_append (fun location target steps hlink => ?_) h
    rw [← List.append_assoc] at hlink
    exact ih hlink

/-- A path that calls can be made with: it is not empty, has no NUL in it, and is not too long. -/
structure IsCallable (path : String) : Prop where
  nonempty : path ≠ ""
  plain : '\x00' ∉ path.toList
  short : path.utf8ByteSize ≤ maxPathBytes

/-- Components are followed for a path if calls can be made with it. -/
theorem walkFrom_eq_ok_iff {purpose : Purpose} {path : String} {steps : List String}
    {place : Place} :
    fs.walkFrom purpose path steps = .ok place ↔
      IsCallable path ∧ fs.walk purpose maxLinks (fs.start path) steps = .ok place := by
  rw [walkFrom]
  constructor
  · intro h
    split at h
    · cases h
    rename_i hplain
    split at h
    · cases h
    rename_i hne
    split at h
    · cases h
    rename_i hshort
    refine ⟨⟨hne, fun hnul => hplain (List.contains_iff_mem.mpr hnul), by omega⟩, ?_⟩
    cases hwalk : fs.walk purpose maxLinks (fs.start path) steps with
    | error errno =>
      rw [hwalk] at h
      cases h
    | ok found =>
      rw [hwalk] at h
      exact congrArg Except.ok (Except.ok.inj h)
  · rintro ⟨hpath, hwalk⟩
    rw [if_neg fun hnul => hpath.plain (List.contains_iff_mem.mp hnul), if_neg hpath.nonempty,
      if_neg (Nat.not_lt.mpr hpath.short), hwalk]
    rfl

/-- A path leads to a directory if its components do and calls can be made with it. -/
theorem lookUp_eq_directory_iff {path : String} {location : List String} :
    fs.lookUp path = .ok (.directory location) ↔
      IsCallable path ∧
        fs.walk .visit maxLinks (fs.start path) (steps path) = .ok (.directory location) := by
  rw [← walkFrom_eq_ok_iff]
  change fs.lookUp path = _ ↔ fs.find .visit path = _
  rw [lookUp]
  cases fs.find .visit path with
  | error fault => simp [bind, Except.bind]
  | ok place => cases place <;> simp [bind, Except.bind, pure, Except.pure, throw, throwThe,
      MonadExceptOf.throw]

/-- Where turns are kept, a path that leads to a directory leads there still. -/
theorem Keeps.lookUp (h : fs.Keeps fs') {path : String} {location : List String}
    (hlook : fs.lookUp path = .ok (.directory location)) :
    fs'.lookUp path = .ok (.directory location) := by
  obtain ⟨hpath, hwalk⟩ := lookUp_eq_directory_iff.mp hlook
  rw [← h.start path] at hwalk
  exact lookUp_eq_directory_iff.mpr ⟨hpath, h.walk hwalk⟩

end SourceSnapshot.FileSystem
