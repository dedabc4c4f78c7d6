import SourceSnapshot.Proofs.FileSystem.Changes
import SourceSnapshot.Proofs.FileSystem.Steps

/-!
# New entries

An entry of a new name that is put into a directory leaves everything else as it was: each directory
holds what it held, and each path that leads to a directory leads there still. Making directories
puts new ones in only, so a directory that was not there before holds no file.
-/

namespace SourceSnapshot.FileSystem

namespace Entry

/-- Whether an entry is a directory. -/
def isDirectory : Entry → Bool
  | .directory _ _ _ _ => true
  | _ => false

/-- An entry without what it holds. -/
def hollow : Entry → Entry
  | .directory name obscure fault _ => .directory name obscure fault []
  | entry => entry

theorem name_hollow (entry : Entry) : entry.hollow.name = entry.name := by
  cases entry <;> rfl

/-- Changes what an entry holds if it is a directory of this name. -/
def changeInside (change : List Entry → List Entry) (name : String) : Entry → Entry
  | .directory n obscure fault inner =>
    if n = name then .directory n obscure fault (change inner)
    else .directory n obscure fault inner
  | entry => entry

/-- What an entry is apart from what it holds does not change. -/
theorem hollow_changeInside (change : List Entry → List Entry) (name : String) (entry : Entry) :
    (changeInside change name entry).hollow = entry.hollow := by
  cases entry with
  | directory n obscure fault inner =>
    rw [changeInside]
    split <;> rfl
  | file | link | pipe | unknown => rfl

theorem name_changeInside (change : List Entry → List Entry) (name : String) (entry : Entry) :
    (changeInside change name entry).name = entry.name := by
  rw [← name_hollow, hollow_changeInside, name_hollow]

/-- Entries that are the same apart from what they hold are directories, or the same. -/
theorem eq_of_hollow_eq {entry entry' : Entry} (h : entry.hollow = entry'.hollow) :
    entry.isDirectory = true ∨ entry = entry' := by
  cases entry with
  | directory => exact Or.inl rfl
  | file | link | pipe | unknown =>
    cases entry' with
    | directory => cases h
    | file | link | pipe | unknown => exact Or.inr h

theorem find?_append (name : String) (entries others : List Entry) :
    find? name (entries ++ others) = (find? name entries).or (find? name others) :=
  List.find?_append

/-- Below the first name of a location, entries change inside. -/
theorem changeAt_cons (change : List Entry → List Entry) (name : String) (location : List String)
    (entries : List Entry) :
    changeAt change (name :: location) entries =
      entries.map (changeInside (changeAt change location) name) := by
  rw [changeAt]
  refine List.map_congr_left fun entry _ => ?_
  cases entry <;> rfl

/-- An entry of a new name is put behind the others. -/
theorem put_of_find?_eq_none {new : Entry} {entries : List Entry}
    (h : find? new.name entries = none) : put new entries = entries ++ [new] := by
  induction entries with
  | nil => rfl
  | cons entry rest ih =>
    rw [find?, List.find?_cons] at h
    split at h
    · cases h
    · rename_i hname
      rw [put, if_neg fun heq => by simp [heq] at hname, ih h, List.cons_append]

/-- Entries among which one may have changed inside, and behind which a new one may stand. -/
def GrewBy (new : Entry) (entries grown : List Entry) : Prop :=
  ∃ change : Entry → Entry, (∀ entry, (change entry).hollow = entry.hollow) ∧
    (grown = entries.map change ∨ grown = entries.map change ++ [new])

/-- What was found by a name is found by it still, apart from what it holds. -/
theorem GrewBy.find? {new : Entry} {entries grown : List Entry} (h : GrewBy new entries grown)
    {name : String} {entry : Entry} (hentry : find? name entries = some entry) :
    ∃ entry', Entry.find? name grown = some entry' ∧ entry'.hollow = entry.hollow := by
  obtain ⟨change, hchange, hgrown⟩ := h
  have hname : ∀ entry, (change entry).name = entry.name := by
    intro entry
    rw [← name_hollow, hchange, name_hollow]
  have hfound : Entry.find? name (entries.map change) = some (change entry) := by
    rw [find?_map hname, hentry, Option.map_some]
  refine ⟨change entry, ?_, hchange entry⟩
  rcases hgrown with rfl | rfl
  · exact hfound
  · rw [find?_append, hfound, Option.some_or]

/-- What stands among grown entries is new, or a directory, or stood there before. -/
theorem GrewBy.of_mem {new : Entry} {entries grown : List Entry} (h : GrewBy new entries grown)
    {entry : Entry} (hentry : entry ∈ grown) :
    entry = new ∨ entry.isDirectory = true ∨ entry ∈ entries := by
  obtain ⟨change, hchange, hgrown⟩ := h
  have hold : entry ∈ entries.map change → entry.isDirectory = true ∨ entry ∈ entries := by
    intro hmem
    obtain ⟨old, hold, rfl⟩ := List.mem_map.mp hmem
    rcases eq_of_hollow_eq (hchange old) with hdirectory | heq
    · exact Or.inl hdirectory
    · rw [heq]
      exact Or.inr hold
  rcases hgrown with rfl | rfl
  · exact Or.inr (hold hentry)
  · rcases List.mem_append.mp hentry with hentry | hentry
    · exact Or.inr (hold hentry)
    · exact Or.inl (List.mem_singleton.mp hentry)

/-- What is found at a location after something grew there or elsewhere, beside what was found
before: grown entries, or what is below the new entry. -/
def GrewAt (new : Entry) : Option (Option Errno × List Entry) → Option (Option Errno × List Entry) →
    Prop
  | some found, some grown => grown.1 = found.1 ∧ GrewBy new found.2 grown.2
  | some _, none => False
  | none, some grown => ∃ names, directoryAt? (new.name :: names) (none, [new]) = some grown
  | none, none => True

theorem GrewAt.refl (new : Entry) (found : Option (Option Errno × List Entry)) :
    GrewAt new found found := by
  cases found with
  | none => trivial
  | some found => exact ⟨rfl, id, fun _ => rfl, Or.inl (List.map_id _).symm⟩

/-- Where nothing was found, it grew if all that is found is below the new entry. -/
theorem grewAt_none {new : Entry} {found : Option (Option Errno × List Entry)}
    (h : ∀ grown, found = some grown →
      ∃ names, directoryAt? (new.name :: names) (none, [new]) = some grown) :
    GrewAt new none found := by
  cases found with
  | none => trivial
  | some grown => exact h grown rfl

/-- At any location grown entries are found if an entry of a new name is put behind the others. -/
theorem grewAt_append (new : Entry) (fault : Option Errno) (entries : List Entry)
    (place : List String) :
    GrewAt new (directoryAt? place (fault, entries))
      (directoryAt? place (fault, entries ++ [new])) := by
  cases place with
  | nil => exact ⟨rfl, id, fun _ => rfl, Or.inr (by rw [List.map_id])⟩
  | cons first place =>
    rw [directoryAt?, directoryAt?, find?_append]
    cases hentry : find? first entries with
    | some entry => exact GrewAt.refl new _
    | none =>
      rw [Option.none_or]
      refine grewAt_none fun grown hgrown => ⟨place, ?_⟩
      cases hfirst : find? first [new] with
      | none =>
        rw [hfirst] at hgrown
        cases hgrown
      | some entry =>
        obtain ⟨hmem, hname⟩ := mem_of_find? hfirst
        obtain rfl := List.mem_singleton.mp hmem
        rw [directoryAt?, hname]
        exact hgrown

/-- At any location grown entries are found if an entry of a new name is put in at one. -/
theorem grewAt_changeAt_put {new : Entry} {location : List String} {fault : Option Errno}
    {entries : List Entry}
    (hnew : ∀ found, directoryAt? location (fault, entries) = some found →
      find? new.name found.2 = none) (place : List String) :
    GrewAt new (directoryAt? place (fault, entries))
      (directoryAt? place (fault, changeAt (put new) location entries)) := by
  induction location generalizing place fault entries with
  | nil =>
    have hput : changeAt (put new) [] entries = entries ++ [new] :=
      put_of_find?_eq_none (hnew _ rfl)
    rw [hput]
    exact grewAt_append new fault entries place
  | cons name location ih =>
    rw [changeAt_cons]
    cases place with
    | nil => exact ⟨rfl, _, hollow_changeInside _ name, Or.inl rfl⟩
    | cons first place =>
      rw [directoryAt?, directoryAt?, find?_map (name_changeInside _ name)]
      cases hentry : find? first entries with
      | none => trivial
      | some entry =>
        rw [Option.map_some]
        cases entry with
        | file | link | pipe | unknown => trivial
        | directory n obscure fault' inner =>
          obtain ⟨-, hn⟩ := mem_of_find? hentry
          obtain rfl : n = first := hn
          rw [changeInside]
          by_cases hin : n = name
          · rw [if_pos hin]
            refine ih (fun inside hinside => hnew inside ?_) place
            rw [directoryAt?, ← hin, hentry]
            exact hinside
          · rw [if_neg hin]
            exact GrewAt.refl new _

end Entry

section

variable {fs : FileSystem} {location : List String} {new : Entry}

theorem grewAt_putAt (hnew : fs.entryAt? location new.name = none) (place : List String) :
    Entry.GrewAt new (fs.contents? place) ((fs.putAt location new).contents? place) := by
  refine Entry.grewAt_changeAt_put (fun found hfound => ?_) place
  rwa [entryAt?, contents?, hfound, Option.bind_some] at hnew

/-- An entry that was there is there still, apart from what it holds. -/
theorem exists_entryAt?_putAt (hnew : fs.entryAt? location new.name = none) {place : List String}
    {name : String} {entry : Entry} (hentry : fs.entryAt? place name = some entry) :
    ∃ entry', (fs.putAt location new).entryAt? place name = some entry' ∧
      entry'.hollow = entry.hollow := by
  obtain ⟨found, hfound, hin⟩ := Option.bind_eq_some_iff.mp hentry
  have hgrew := grewAt_putAt hnew place
  rw [hfound] at hgrew
  cases hgrown : (fs.putAt location new).contents? place with
  | none =>
    rw [hgrown] at hgrew
    cases hgrew
  | some grown =>
    rw [hgrown] at hgrew
    obtain ⟨entry', hentry', hsame⟩ := hgrew.2.find? hin
    refine ⟨entry', ?_, hsame⟩
    rw [entryAt?, hgrown]
    exact hentry'

/-- An entry of a new name that is put in keeps all turns. -/
theorem keeps_putAt (hnew : fs.entryAt? location new.name = none) :
    fs.Keeps (fs.putAt location new) := by
  refine ⟨rfl, fun {place step turn} hturn => ?_⟩
  rw [turn?] at hturn ⊢
  by_cases hidle : isIdle step.toList = true
  · rwa [if_pos hidle] at hturn ⊢
  by_cases hup : step = ".."
  · rwa [if_neg hidle, if_pos hup] at hturn ⊢
  by_cases hlong : maxNameBytes < step.utf8ByteSize
  · rw [if_neg hidle, if_neg hup, if_pos hlong] at hturn
    cases hturn
  rw [if_neg hidle, if_neg hup, if_neg hlong] at hturn ⊢
  cases hentry : fs.entryAt? place step with
  | none =>
    rw [hentry] at hturn
    cases hturn
  | some entry =>
    rw [hentry] at hturn
    obtain ⟨entry', hentry', hsame⟩ := exists_entryAt?_putAt hnew hentry
    rw [hentry']
    cases entry with
    | directory =>
      cases entry' with
      | directory => exact hturn
      | file | link | pipe | unknown => cases hsame
    | link =>
      cases entry' with
      | link =>
        cases hsame
        exact hturn
      | directory | file | pipe | unknown => cases hsame
    | file | pipe | unknown => cases hturn

/-- The directory that an entry of a new name is put into holds it behind the others. -/
theorem contents?_putAt {fault : Option Errno} {entries : List Entry}
    (hcontents : fs.contents? location = some (fault, entries))
    (hnew : Entry.find? new.name entries = none) :
    (fs.putAt location new).contents? location = some (fault, entries ++ [new]) := by
  rw [contents?] at hcontents
  rw [contents?, putAt, changeContents, Entry.directoryAt?_changeAt, hcontents, Option.map_some,
    Entry.put_of_find?_eq_none hnew]

/-- An entry of a new name is found where it was put in, if there is a directory. -/
theorem entryAt?_putAt (hthere : (fs.contents? location).isSome)
    (hnew : fs.entryAt? location new.name = none) :
    (fs.putAt location new).entryAt? location new.name = some new := by
  obtain ⟨⟨fault, entries⟩, hcontents⟩ := Option.isSome_iff_exists.mp hthere
  have hnone : Entry.find? new.name entries = none := by
    rwa [entryAt?, hcontents, Option.bind_some] at hnew
  have hself : Entry.find? new.name [new] = some new :=
    List.find?_cons_of_pos (beq_self_eq_true _)
  have hfound : Entry.find? new.name (entries ++ [new]) = some new := by
    rw [Entry.find?_append, hnone, hself, Option.none_or]
  rwa [entryAt?, contents?_putAt hcontents hnone, Option.bind_some]

end

end SourceSnapshot.FileSystem
