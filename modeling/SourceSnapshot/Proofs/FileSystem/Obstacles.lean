import SourceSnapshot.Proofs.FileSystem.Directories

/-!
# Directories that cannot be made

Where the directories along a path cannot be made, one of them is in the way, and those above it
stay that were made. That one is in the way afterwards as well, so the next attempt fails too.
-/

namespace SourceSnapshot.FileSystem

variable {fs fs' : FileSystem}

/-- The path of an entry is that of its directory with a slash and the name behind it. -/
theorem Path.text_child {p : Path} (hne : p.components ≠ []) (name : String) :
    (p.child name).text = p.text ++ "/" ++ name := by
  have hchild : (p.child name).components ≠ [] :=
    List.append_ne_nil_of_right_ne_nil p.components (List.cons_ne_nil name [])
  rw [Path.text, if_neg (by simp [hchild]), Path.text, if_neg (by simp [hne]), Path.child,
    String.intercalate_append_of_ne_nil hne (List.cons_ne_nil name []),
    String.intercalate_singleton]
  simp only [String.append_assoc]

theorem Path.IsRead.of_child {p : Path} {name : String} (h : (p.child name).IsRead) : p.IsRead :=
  ⟨h.root, fun c hc => h.components c (List.mem_append_left [name] hc)⟩

/-- Calls can be made with the path of a directory if they can be made with that of an entry. -/
theorem IsCallable.of_child {p : Path} (hp : p.IsRead) {name : String}
    (h : IsCallable (p.child name).text) : IsCallable p.text := by
  by_cases hnil : p.components = []
  · obtain ⟨root, components⟩ := p
    obtain rfl : components = [] := hnil
    rcases hp.root with hroot | hroot | hroot <;> obtain rfl := hroot <;>
      exact ⟨by decide, by decide, by decide⟩
  · obtain ⟨-, hplain, hshort⟩ := h
    rw [Path.text_child hnil] at hplain hshort
    simp only [String.toList_append, List.mem_append, not_or] at hplain
    simp only [String.utf8ByteSize_append] at hshort
    exact ⟨hp.text_ne_empty, hplain.1.1, by omega⟩

theorem lookUp_text_eq_directory_iff {p : Path} (hp : p.IsRead) {location : List String} :
    fs.lookUp p.text = .ok (.directory location) ↔ IsCallable p.text ∧
      fs.walk .visit maxLinks (if p.root = "" then fs.workingDirectory else []) p.components =
        .ok (.directory location) := by
  rw [lookUp_eq_directory_iff, walk_steps_text hp, start_text hp]

/-- If calls can be made with the path of an entry, and the components before its name lead to a
directory, then so does the path of its directory. -/
theorem lookUp_of_walkFrom_child {p : Path} {name : String} (hp : (p.child name).IsRead)
    {location : List String}
    (h : fs.walkFrom .visit (p.child name).text p.components = .ok (.directory location)) :
    fs.lookUp p.text = .ok (.directory location) := by
  obtain ⟨hpath, hwalk⟩ := walkFrom_eq_ok_iff.mp h
  rw [start_text hp] at hwalk
  exact (lookUp_text_eq_directory_iff hp.of_child).mpr ⟨hpath.of_child hp.of_child, hwalk⟩

/-- If the path of an entry leads to a directory, then so does the path that it is below. -/
theorem exists_lookUp_of_child {p : Path} {name : String} (hp : (p.child name).IsRead)
    {last : List String} (h : fs.lookUp (p.child name).text = .ok (.directory last)) :
    ∃ location, fs.lookUp p.text = .ok (.directory location) := by
  obtain ⟨hpath, hwalk⟩ := (lookUp_text_eq_directory_iff hp).mp h
  obtain ⟨location, hlocation⟩ := exists_walk_of_append hwalk
  exact ⟨location, (lookUp_text_eq_directory_iff hp.of_child).mpr
    ⟨hpath.of_child hp.of_child, hlocation⟩⟩

/-- If a directory is there after it was asked for, then the one above it was there before. -/
theorem exists_lookUp_of_ensureDirectory_child {p : Path} {name : String}
    (hp : (p.child name).IsRead) (h : fs.ensureDirectory (p.child name) = .ok fs') :
    ∃ location, fs.lookUp p.text = .ok (.directory location) := by
  rcases makeDirectory_or_lookUp_of_ensureDirectory h with hmade | ⟨-, last, hlook⟩
  · obtain ⟨above, last, location, hcomponents, hwalk, -⟩ := exists_putAt_of_makeDirectory hmade
    obtain ⟨rfl, -⟩ := List.append_inj' hcomponents rfl
    exact ⟨location, lookUp_of_walkFrom_child hp hwalk⟩
  · exact exists_lookUp_of_child hp hlook

/-- The path of the directory with these components, given from the last one on. -/
def upwardPath (root : String) (components : List String) : Path := ⟨root, components.reverse⟩

theorem upwardPath_cons (root name : String) (above : List String) :
    upwardPath root (name :: above) = (upwardPath root above).child name := by
  rw [upwardPath, List.reverse_cons]
  rfl

/-- A directory that is not there and cannot be made, though nothing is missing above it. -/
structure IsBlocked (fs : FileSystem) (root : String) (components : List String) : Prop where
  fails : ∃ fault, fs.ensureDirectory (upwardPath root components) = .error fault
  reached : components ≠ [] →
    ∀ path, fs.makeDirectory (upwardPath root components) ≠ .error (.call ⟨.noEntry, path⟩)

/-- If a path leads to a directory, then so does each path that it is below. -/
theorem exists_lookUp_of_below {root : String} {below components : List String}
    (hp : (upwardPath root (below ++ components)).IsRead) {last : List String}
    (h : fs.lookUp (upwardPath root (below ++ components)).text = .ok (.directory last)) :
    ∃ location, fs.lookUp (upwardPath root components).text = .ok (.directory location) := by
  induction below generalizing last with
  | nil => exact ⟨last, h⟩
  | cons name below ih =>
    rw [List.cons_append, upwardPath_cons] at hp h
    obtain ⟨location, hlocation⟩ := exists_lookUp_of_child hp h
    exact ih hp.of_child hlocation

/-- Below a directory that cannot be made none is made. -/
theorem IsBlocked.makeDirectoriesUpward {root : String} {components : List String}
    (h : fs.IsBlocked root components) (below : List String)
    (hp : (upwardPath root (below ++ components)).IsRead) :
    fs.makeDirectoriesUpward root (below ++ components) ≠ .ok fs' := by
  obtain ⟨⟨fault, hfails⟩, hreached⟩ := h
  intro hok
  induction below generalizing fs' with
  | nil =>
    have hensure : fs.ensureDirectory (upwardPath root components) = .ok fs' := by
      cases components with
      | nil => exact mapError_eq_ok_iff.mp hok
      | cons name above =>
        rw [List.nil_append, FileSystem.makeDirectoriesUpward] at hok
        split at hok
        · rename_i path hmake
          exact absurd hmake (hreached (List.cons_ne_nil name above) path)
        · exact mapError_eq_ok_iff.mp hok
    rw [hfails] at hensure
    cases hensure
  | cons name below ih =>
    have hread := hp
    rw [List.cons_append, upwardPath_cons] at hread
    rw [List.cons_append, FileSystem.makeDirectoriesUpward] at hok
    split at hok
    · cases habove : fs.makeDirectoriesUpward root (below ++ components) with
      | error fault =>
        rw [habove] at hok
        cases hok
      | ok made => exact ih hread.of_child habove
    · -- A directory that is there further down would be below the one that is not.
      have hensure := mapError_eq_ok_iff.mp hok
      rw [← upwardPath, upwardPath_cons] at hensure
      obtain ⟨last, hlast⟩ := exists_lookUp_of_ensureDirectory_child hread hensure
      obtain ⟨location, hlocation⟩ := exists_lookUp_of_below hread.of_child hlast
      have hbase : (upwardPath root components).IsRead := by
        refine ⟨hp.root, fun c hc => hp.components c ?_⟩
        simp only [upwardPath, List.mem_reverse, List.mem_append] at hc ⊢
        exact Or.inr hc
      rw [ensureDirectory_of_lookUp hbase hlocation] at hfails
      cases hfails

end SourceSnapshot.FileSystem
