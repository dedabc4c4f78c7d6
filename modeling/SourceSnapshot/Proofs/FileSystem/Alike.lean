import SourceSnapshot.Proofs.FileSystem.Names
import SourceSnapshot.Proofs.Text.Pieces

/-!
# Directories that look alike

Two directories look alike to a traversal that leaves out some of their entries if they hold the
same entries in the same order, except for what the traversal has no business with: what is in an
entry that is left out, where a link leads, and the bytes of a file that is too large. A root that
is reached without following a link is listed alike in both.
-/

namespace SourceSnapshot.FileSystem

namespace Entry

/-- Which entries are left out, told from the path of an entry, its name, and whether it is a
directory. -/
abbrev Hiding := String → String → Bool → Prop

mutual

/-- Two entries of directories with the same path that look alike. -/
inductive Alike (hides : Hiding) (limit : Nat) : String → Entry → Entry → Prop
  /-- The same file. -/
  | file (above name : String) (obscure : Bool) (data : FileData) :
    Alike hides limit above (.file name obscure data) (.file name obscure data)
  /-- Two files of one name that is left out. -/
  | hiddenFile (above name : String) (obscure : Bool) (data data' : FileData)
    (hidden : hides (joinRelative above name) name false) :
    Alike hides limit above (.file name obscure data) (.file name obscure data')
  /-- Two files of one size, which is over the limit. -/
  | largeFile (above name : String) (obscure : Bool) (data data' : FileData)
    (large : limit < data.size) (size : data'.size = data.size)
    (sizeFault : data'.sizeFault = data.sizeFault) :
    Alike hides limit above (.file name obscure data) (.file name obscure data')
  /-- Two links, wherever they lead. -/
  | link (above name : String) (obscure : Bool) (target target' : String) :
    Alike hides limit above (.link name obscure target) (.link name obscure target')
  /-- The same pipe. -/
  | pipe (above name : String) (obscure : Bool) :
    Alike hides limit above (.pipe name obscure) (.pipe name obscure)
  /-- The same entry of which nothing can be told. -/
  | unknown (above name : String) (fault : EntryFault) :
    Alike hides limit above (.unknown name fault) (.unknown name fault)
  /-- Two such entries of one name that is left out. -/
  | hiddenUnknown (above name : String) (fault fault' : EntryFault)
    (hidden : hides (joinRelative above name) name false) :
    Alike hides limit above (.unknown name fault) (.unknown name fault')
  /-- Two directories of one name that is left out, whatever is below them. -/
  | hiddenDirectory (above name : String) (obscure : Bool) (fault fault' : Option Errno)
    (entries entries' : List Entry) (hidden : hides (joinRelative above name) name (!obscure)) :
    Alike hides limit above (.directory name obscure fault entries)
      (.directory name obscure fault' entries')
  /-- Two directories that hold what looks alike. -/
  | directory (above name : String) (obscure : Bool) (fault : Option Errno)
    (entries entries' : List Entry)
    (inside : AllAlike hides limit (joinRelative above name) entries entries') :
    Alike hides limit above (.directory name obscure fault entries)
      (.directory name obscure fault entries')

/-- Two lists of entries that look alike one by one. -/
inductive AllAlike (hides : Hiding) (limit : Nat) : String → List Entry → List Entry → Prop
  | nil (above : String) : AllAlike hides limit above [] []
  | cons (above : String) (entry entry' : Entry) (rest rest' : List Entry)
    (first : Alike hides limit above entry entry')
    (others : AllAlike hides limit above rest rest') :
    AllAlike hides limit above (entry :: rest) (entry' :: rest')

end

mutual

/-- An entry looks like itself. -/
theorem Alike.refl (hides : Hiding) (limit : Nat) (above : String) (entry : Entry) :
    Alike hides limit above entry entry := by
  match entry with
  | .file name obscure data => exact .file above name obscure data
  | .link name obscure target => exact .link above name obscure target target
  | .pipe name obscure => exact .pipe above name obscure
  | .unknown name fault => exact .unknown above name fault
  | .directory name obscure fault entries =>
    exact .directory above name obscure fault entries entries
      (AllAlike.refl hides limit (joinRelative above name) entries)
termination_by structural entry

/-- Entries look like themselves. -/
theorem AllAlike.refl (hides : Hiding) (limit : Nat) (above : String) (entries : List Entry) :
    AllAlike hides limit above entries entries := by
  match entries with
  | [] => exact .nil above
  | entry :: rest =>
    exact .cons above entry entry rest rest (Alike.refl hides limit above entry)
      (AllAlike.refl hides limit above rest)
termination_by structural entries

end

/-- Two attempts to list a root: both fail for the same reason, or what is listed looks alike. -/
inductive SameListing (hides : Hiding) (limit : Nat) :
    Except AccessFault (List Entry) → Except AccessFault (List Entry) → Prop
  | failed (fault : AccessFault) : SameListing hides limit (.error fault) (.error fault)
  | listed (entries entries' : List Entry) (inside : AllAlike hides limit "" entries entries') :
    SameListing hides limit (.ok entries) (.ok entries')

theorem SameListing.refl (hides : Hiding) (limit : Nat)
    (listing : Except AccessFault (List Entry)) : SameListing hides limit listing listing := by
  cases listing with
  | error fault => exact .failed fault
  | ok entries => exact .listed entries entries (AllAlike.refl hides limit "" entries)

end Entry

open Entry

/-- A path leads to the directory at a location, and no link is met on the way. -/
def LeadsStraight (fs : FileSystem) (path : String) (location : List String) : Prop :=
  fs.walk .visit 0 (fs.start path) (steps path) = .ok (.directory location)

/-- A name leads straight to the directory of that name in the working directory. -/
theorem leadsStraight_name {fs : FileSystem} {name : String} (h : IsName name)
    (hsize : name.utf8ByteSize ≤ maxNameBytes) {entry : String} {obscure : Bool}
    {fault : Option Errno} {entries : List Entry}
    (hentry : fs.entryAt? fs.workingDirectory name =
      some (.directory entry obscure fault entries)) :
    fs.LeadsStraight name (fs.workingDirectory ++ [name]) := by
  have hidle : isIdle name.toList = false := isIdle_toList h
  obtain ⟨-, hslash, -, hdots⟩ := h
  have hsteps : steps name = [name] := by
    rw [steps, Text.splitOn_of_notMem hslash, List.map_singleton, String.ofList_toList]
  have hstart : fs.start name = fs.workingDirectory := by
    have hhead : name.toList.head? ≠ some '/' := fun hc => hslash (List.mem_of_head? hc)
    simp [start, startsAtRoot, hhead]
  have hfault : nameFault? .visit name [] = none := by
    simp [nameFault?, hsize]
  simp [LeadsStraight, walk, walkWith, hsteps, hstart, hidle, hdots, hfault, hentry]

/-- A walk that meets no link goes on alike whatever is done at links. -/
theorem walkWith_eq_ok_of_straight {fs : FileSystem} {purpose : Purpose}
    {atLink : List String → String → List String → Except Errno Place} {place : Place}
    {location steps : List String}
    (h : fs.walkWith purpose (fun _ _ _ => .error .tooManyLinks) location steps = .ok place) :
    fs.walkWith purpose atLink location steps = .ok place := by
  induction steps generalizing location with
  | nil => exact h
  | cons step rest ih =>
    rw [walkWith] at h ⊢
    by_cases hidle : isIdle step.toList = true
    · rw [if_pos hidle] at h ⊢
      exact ih h
    rw [if_neg hidle] at h ⊢
    by_cases hup : step = ".."
    · rw [if_pos hup] at h ⊢
      exact ih h
    rw [if_neg hup] at h ⊢
    cases hname : nameFault? purpose step rest with
    | some errno => simp [hname] at h
    | none =>
      simp only [hname] at h ⊢
      cases hentry : fs.entryAt? location step with
      | none => simpa only [hentry] using h
      | some entry =>
        cases entry with
        | directory name obscure fault entries =>
          simp only [hentry] at h ⊢
          exact ih h
        | link name obscure target => simp [hentry] at h
        | file name obscure data => simpa only [hentry] using h
        | pipe name obscure => simpa only [hentry] using h
        | unknown name fault => simpa only [hentry] using h

/-- A path that leads straight to a directory lists what the directory holds, unless the path is
refused by its text alone. -/
theorem LeadsStraight.list_eq {fs : FileSystem} {path : String} {location : List String}
    (h : fs.LeadsStraight path location) {fault : Option Errno} {entries : List Entry}
    (hcontents : fs.contents? location = some (fault, entries)) :
    fs.list path =
      if path.toList.contains '\x00' then .error .nulInPath
      else if path = "" then .error (.call ⟨.noEntry, path⟩)
      else if maxPathBytes < path.utf8ByteSize then .error (.call ⟨.nameTooLong, path⟩)
      else
        match fault with
        | some errno => .error (.call ⟨errno, path⟩)
        | none => .ok entries := by
  have hwalk : fs.walk .visit maxLinks (fs.start path) (steps path) = .ok (.directory location) :=
    walkWith_eq_ok_of_straight h
  have hfound : (fs.walk .visit maxLinks (fs.start path) (steps path)).mapError
      (fun errno => AccessFault.call ⟨errno, path⟩) = .ok (.directory location) := by
    rw [hwalk]
    rfl
  simp only [list, lookUp, find, walkFrom, hfound]
  split
  · rfl
  · split
    · rfl
    · split
      · rfl
      · cases fault <;> simp [hcontents, bind, Except.bind, pure, Except.pure, throw, throwThe,
          MonadExceptOf.throw]

/-- Roots that a path leads to straight are listed alike if they look alike. -/
theorem sameListing_of_leadsStraight {fs fs' : FileSystem} {path : String}
    {location location' : List String} (h : fs.LeadsStraight path location)
    (h' : fs'.LeadsStraight path location') {fault : Option Errno} {entries entries' : List Entry}
    (hcontents : fs.contents? location = some (fault, entries))
    (hcontents' : fs'.contents? location' = some (fault, entries'))
    {hides : Hiding} {limit : Nat} (halike : AllAlike hides limit "" entries entries') :
    SameListing hides limit (fs.list path) (fs'.list path) := by
  rw [h.list_eq hcontents, h'.list_eq hcontents']
  split
  · exact .failed _
  · split
    · exact .failed _
    · split
      · exact .failed _
      · cases fault with
        | some errno => exact .failed _
        | none => exact .listed _ _ halike

end SourceSnapshot.FileSystem
