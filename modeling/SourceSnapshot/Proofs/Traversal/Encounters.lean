import Mathlib.Data.List.Nodup
import SourceSnapshot.Proofs.FileSystem.Distinct
import SourceSnapshot.Proofs.Traversal

/-!
# Encounters

What a traversal comes by if nothing stops it, told from the rules alone: every entry that is
listed on the way, in order, each before what is below it. All that a scan reports of a directory,
and all that a tree shows of it, can be read off this one list. It holds as many encounters as there
are entries in the listings on the way, and no two of them have one path.
-/

namespace SourceSnapshot

open FileSystem (Entry IsName childPath)
open Ignore (Exclusion Rule)

/-- Whether it can be told of an entry that it is a directory; the rules are asked accordingly. -/
def FileSystem.Entry.isKnownDirectory : Entry → Bool
  | .directory _ obscure _ _ => !obscure
  | _ => false

/-- Whether nothing can be told of an entry. -/
def FileSystem.Entry.isUnknown : Entry → Bool
  | .unknown _ _ => true
  | _ => false

namespace Traversal

/-- An entry that a traversal comes by, the names that lead to it, and why it is left out, if it
is. -/
structure Encounter where
  names : List String
  entry : Entry
  exclusion? : Option Exclusion

namespace Encounter

/-- The path of the entry as seen from the root. -/
def path (c : Encounter) : String := "/".intercalate c.names

/-- The path of the entry as it is passed to file system calls, from that of the root. -/
def callPath (c : Encounter) (directory : String) : String := c.names.foldl childPath directory

/-- The encounter of an entry, from the names above it and the rules. -/
def ofEntry (includeDotNames : Bool) (rules? : Option (List Rule)) (above : List String)
    (entry : Entry) : Encounter where
  names := above ++ [entry.name]
  entry := entry
  exclusion? := Exclusion.byRules? includeDotNames rules? above entry.name entry.isKnownDirectory

end Encounter

mutual

/-- The encounters with an entry and with all that is listed below it. Directories are entered if
they are not left out and can be listed. -/
def encountersOf (includeDotNames : Bool) (rules? : Option (List Rule)) (above : List String) :
    Entry → List Encounter
  | .file name obscure data => [.ofEntry includeDotNames rules? above (.file name obscure data)]
  | .link name obscure target =>
    [.ofEntry includeDotNames rules? above (.link name obscure target)]
  | .pipe name obscure => [.ofEntry includeDotNames rules? above (.pipe name obscure)]
  | .unknown name fault => [.ofEntry includeDotNames rules? above (.unknown name fault)]
  | .directory name true listFault entries =>
    [.ofEntry includeDotNames rules? above (.directory name true listFault entries)]
  | .directory name false listFault entries =>
    .ofEntry includeDotNames rules? above (.directory name false listFault entries) ::
      if Exclusion.byRules? includeDotNames rules? above name true = none ∧ listFault = none then
        encountersAmong includeDotNames rules? (above ++ [name]) entries
      else []

/-- The encounters with several entries in order. -/
def encountersAmong (includeDotNames : Bool) (rules? : Option (List Rule)) (above : List String) :
    List Entry → List Encounter
  | [] => []
  | entry :: rest =>
    encountersOf includeDotNames rules? above entry ++
      encountersAmong includeDotNames rules? above rest

end

section

variable {includeDotNames : Bool} {rules? : Option (List Rule)}

mutual

/-- The names of an encounter are those above and those that lead from the entry to the one that is
met. -/
theorem mem_encountersOf {above : List String} (h : ∀ n ∈ above, IsName n) (entry : Entry)
    (hentry : entry.isWellNamed = true) {c : Encounter}
    (hc : c ∈ encountersOf includeDotNames rules? above entry) :
    (∀ n ∈ c.names, IsName n) ∧ ∃ below, c.names = above ++ entry.name :: below ∧
      (entry.isDistinct = true → entry.below? below = some c.entry) := by
  have hnames := Entry.forall_isName_append h hentry
  -- Every entry is met itself; only directories that are entered have more encounters.
  have hself : (∀ n ∈ (Encounter.ofEntry includeDotNames rules? above entry).names, IsName n) ∧
      ∃ below, (Encounter.ofEntry includeDotNames rules? above entry).names =
        above ++ entry.name :: below ∧
          (entry.isDistinct = true → entry.below? below = some entry) :=
    ⟨hnames, [], rfl, fun _ => rfl⟩
  match entry with
  | .file name obscure data =>
    obtain rfl := List.mem_singleton.mp hc
    exact hself
  | .link name obscure target =>
    obtain rfl := List.mem_singleton.mp hc
    exact hself
  | .pipe name obscure =>
    obtain rfl := List.mem_singleton.mp hc
    exact hself
  | .unknown name fault =>
    obtain rfl := List.mem_singleton.mp hc
    exact hself
  | .directory name true listFault entries =>
    obtain rfl := List.mem_singleton.mp hc
    exact hself
  | .directory name false listFault entries =>
    simp only [Entry.isWellNamed, Bool.and_eq_true] at hentry
    rw [encountersOf, List.mem_cons] at hc
    rcases hc with rfl | hc
    · exact hself
    · split at hc
      · obtain ⟨hall, first, below, hbelow, hamong⟩ :=
          mem_encountersAmong hnames entries hentry.2 hc
        refine ⟨hall, first :: below, ?_, hamong⟩
        rw [hbelow, List.append_assoc, List.singleton_append, Entry.name]
      · cases hc
termination_by structural entry

/-- The names of an encounter are those above and those that lead to the entry that is met. -/
theorem mem_encountersAmong {above : List String} (h : ∀ n ∈ above, IsName n)
    (entries : List Entry) (hentries : Entry.areWellNamed entries = true) {c : Encounter}
    (hc : c ∈ encountersAmong includeDotNames rules? above entries) :
    (∀ n ∈ c.names, IsName n) ∧ ∃ first below, c.names = above ++ first :: below ∧
      (Entry.areDistinct entries = true →
        Entry.among? entries (first :: below) = some c.entry) := by
  match entries with
  | [] => cases hc
  | entry :: rest =>
    simp only [Entry.areWellNamed, Bool.and_eq_true] at hentries
    rw [encountersAmong, List.mem_append] at hc
    rcases hc with hc | hc
    · obtain ⟨hall, below, hbelow, hentry⟩ := mem_encountersOf h entry hentries.1 hc
      refine ⟨hall, entry.name, below, hbelow, fun hdistinct => ?_⟩
      rw [Entry.among?, Entry.find?_name hdistinct List.mem_cons_self, Option.bind_some]
      exact hentry ((Entry.areDistinct_iff.mp hdistinct).2 entry List.mem_cons_self)
    · obtain ⟨hall, first, below, hbelow, hamong⟩ := mem_encountersAmong h rest hentries.2 hc
      refine ⟨hall, first, below, hbelow, fun hdistinct => ?_⟩
      exact Entry.among?_cons hdistinct (hamong (Entry.areDistinct_of_cons hdistinct))
termination_by structural entries

end

/-- Names lead to what is met below the root, one at least. -/
theorem isName_of_mem_encountersAmong {entries : List Entry}
    (hentries : Entry.areWellNamed entries = true) {c : Encounter}
    (hc : c ∈ encountersAmong includeDotNames rules? [] entries) :
    (∀ n ∈ c.names, IsName n) ∧ c.names ≠ [] := by
  obtain ⟨hall, first, below, hbelow, -⟩ :=
    mem_encountersAmong (List.forall_mem_nil _) entries hentries hc
  exact ⟨hall, hbelow ▸ List.cons_ne_nil first below⟩

/-- If names are distinct, the path of what is met leads back to it. -/
theorem atPath?_of_mem_encountersAmong {entries : List Entry}
    (hentries : Entry.areWellNamed entries = true) (hdistinct : Entry.areDistinct entries = true)
    {c : Encounter} (hc : c ∈ encountersAmong includeDotNames rules? [] entries) :
    Entry.atPath? entries c.path = some c.entry := by
  obtain ⟨hall, first, below, hbelow, hamong⟩ :=
    mem_encountersAmong (List.forall_mem_nil _) entries hentries hc
  have hne : c.names ≠ [] := hbelow ▸ List.cons_ne_nil first below
  rw [Encounter.path, Entry.atPath?_intercalate entries hall hne, hbelow]
  exact hamong hdistinct

/-- What is listed when the entry is entered: the contents of a directory that is not left out and
can be listed. -/
def Encounter.listing? (c : Encounter) : Option (List Entry) :=
  match c.exclusion?, c.entry with
  | none, .directory _ false none entries => some entries
  | _, _ => none

/-- How many entries the directories list that are entered. -/
def listedBelow (encounters : List Encounter) : Nat :=
  (encounters.flatMap fun c => c.listing?.getD []).length

theorem listedBelow_append (encounters others : List Encounter) :
    listedBelow (encounters ++ others) = listedBelow encounters + listedBelow others := by
  rw [listedBelow, List.flatMap_append, List.length_append]
  rfl

theorem listedBelow_cons (c : Encounter) (others : List Encounter) :
    listedBelow (c :: others) = (c.listing?.getD []).length + listedBelow others := by
  rw [listedBelow, List.flatMap_cons, List.length_append]
  rfl

/-- Only a directory is entered. -/
theorem Encounter.listing?_eq_none {c : Encounter} (h : c.entry.isKnownDirectory = false) :
    c.listing? = none := by
  rw [listing?]
  split
  · rename_i hentry
    rw [hentry] at h
    cases h
  · rfl

/-- What is entered is a directory that is not left out and can be listed. -/
theorem Encounter.listing?_eq_some_iff {c : Encounter} {entries : List Entry} :
    c.listing? = some entries ↔
      c.exclusion? = none ∧ ∃ name, c.entry = .directory name false none entries := by
  rw [listing?]
  split
  · rename_i name inside hkept hentry
    rw [hkept, hentry]
    simp
  · rename_i hother
    refine iff_of_false (fun h => by cases h) ?_
    rintro ⟨hkept, name, hentry⟩
    exact hother name entries hkept hentry

/-- A directory is entered if it is not left out and can be listed. -/
theorem Encounter.listing?_ofEntry (above : List String) (name : String)
    (listFault : Option FileSystem.Errno) (entries : List Entry) :
    (ofEntry includeDotNames rules? above (.directory name false listFault entries)).listing? =
      if Exclusion.byRules? includeDotNames rules? above name true = none ∧ listFault = none then
        some entries
      else none := by
  have hexclusion : (ofEntry includeDotNames rules? above
      (.directory name false listFault entries)).exclusion? =
      Exclusion.byRules? includeDotNames rules? above name true := rfl
  rw [listing?, hexclusion]
  cases Exclusion.byRules? includeDotNames rules? above name true with
  | some exclusion => rfl
  | none => cases listFault <;> rfl

/-- An entry is met before what is below it, and that is what is listed when it is entered. -/
theorem encountersOf_eq_cons (above : List String) (entry : Entry) :
    encountersOf includeDotNames rules? above entry =
      .ofEntry includeDotNames rules? above entry ::
        encountersAmong includeDotNames rules? (above ++ [entry.name])
          ((Encounter.ofEntry includeDotNames rules? above entry).listing?.getD []) := by
  have hleaf : entry.isKnownDirectory = false → [.ofEntry includeDotNames rules? above entry] =
      .ofEntry includeDotNames rules? above entry ::
        encountersAmong includeDotNames rules? (above ++ [entry.name])
          ((Encounter.ofEntry includeDotNames rules? above entry).listing?.getD []) := by
    intro h
    rw [Encounter.listing?_eq_none h, Option.getD_none, encountersAmong]
  cases entry with
  | file | link | pipe | unknown =>
    rw [encountersOf]
    exact hleaf rfl
  | directory name obscure listFault entries =>
    cases obscure with
    | true =>
      rw [encountersOf]
      exact hleaf rfl
    | false =>
      rw [encountersOf, Encounter.listing?_ofEntry, Entry.name]
      split
      · rw [Option.getD_some]
      · rw [Option.getD_none, encountersAmong]

mutual

/-- There is an encounter with the entry and one for each entry in the listings at or below it. -/
theorem length_encountersOf (above : List String) (entry : Entry) :
    (encountersOf includeDotNames rules? above entry).length =
      1 + listedBelow (encountersOf includeDotNames rules? above entry) := by
  have hleaf : entry.isKnownDirectory = false →
      1 = 1 + listedBelow [Encounter.ofEntry includeDotNames rules? above entry] := by
    intro h
    rw [listedBelow_cons, Encounter.listing?_eq_none h]
    rfl
  match entry with
  | .file name obscure data => exact hleaf rfl
  | .link name obscure target => exact hleaf rfl
  | .pipe name obscure => exact hleaf rfl
  | .unknown name fault => exact hleaf rfl
  | .directory name true listFault entries => exact hleaf rfl
  | .directory name false listFault entries =>
    rw [encountersOf, listedBelow_cons, Encounter.listing?_ofEntry, List.length_cons]
    split
    · rw [length_encountersAmong, Option.getD_some, Nat.add_comm]
    · rfl
termination_by structural entry

/-- There is an encounter for each of the entries and for each entry in the listings at or below
them. -/
theorem length_encountersAmong (above : List String) (entries : List Entry) :
    (encountersAmong includeDotNames rules? above entries).length =
      entries.length + listedBelow (encountersAmong includeDotNames rules? above entries) := by
  match entries with
  | [] => rfl
  | entry :: rest =>
    rw [encountersAmong, List.length_append, listedBelow_append, length_encountersOf,
      length_encountersAmong, List.length_cons]
    omega
termination_by structural entries

end

mutual

/-- No two encounters with an entry and what is below it have the same names. -/
theorem nodup_names_encountersOf {above : List String} (h : ∀ n ∈ above, IsName n)
    (entry : Entry) (hentry : entry.isWellNamed = true) (hdistinct : entry.isDistinct = true) :
    ((encountersOf includeDotNames rules? above entry).map Encounter.names).Nodup := by
  have hnames := Entry.forall_isName_append h hentry
  match entry with
  | .file name obscure data => exact List.nodup_singleton _
  | .link name obscure target => exact List.nodup_singleton _
  | .pipe name obscure => exact List.nodup_singleton _
  | .unknown name fault => exact List.nodup_singleton _
  | .directory name true listFault entries => exact List.nodup_singleton _
  | .directory name false listFault entries =>
    simp only [Entry.isWellNamed, Bool.and_eq_true] at hentry
    rw [encountersOf, List.map_cons, List.nodup_cons]
    split
    · refine ⟨fun hmem => ?_, nodup_names_encountersAmong hnames entries hentry.2 hdistinct⟩
      -- What is met below the directory has more names.
      obtain ⟨c, hc, heq⟩ := List.mem_map.mp hmem
      obtain ⟨-, first, below, hbelow, -⟩ := mem_encountersAmong hnames entries hentry.2 hc
      rw [hbelow] at heq
      exact absurd (congrArg List.length heq) (by simp [Encounter.ofEntry, Entry.name])
    · exact ⟨List.not_mem_nil, List.nodup_nil⟩
termination_by structural entry

/-- No two encounters with distinct entries and what is below them have the same names. -/
theorem nodup_names_encountersAmong {above : List String} (h : ∀ n ∈ above, IsName n)
    (entries : List Entry) (hentries : Entry.areWellNamed entries = true)
    (hdistinct : Entry.areDistinct entries = true) :
    ((encountersAmong includeDotNames rules? above entries).map Encounter.names).Nodup := by
  match entries with
  | [] => exact List.nodup_nil
  | entry :: rest =>
    simp only [Entry.areWellNamed, Bool.and_eq_true] at hentries
    simp only [Entry.areDistinct, Bool.and_eq_true, decide_eq_true_eq] at hdistinct
    rw [encountersAmong, List.map_append, List.nodup_append]
    refine ⟨nodup_names_encountersOf h entry hentries.1 hdistinct.1.2,
      nodup_names_encountersAmong h rest hentries.2 hdistinct.2, ?_⟩
    -- Behind the names above, the entry has a name that none of the others has.
    rintro _ hhere _ hrest rfl
    obtain ⟨c, hc, hcnames⟩ := List.mem_map.mp hhere
    obtain ⟨d, hd, hdnames⟩ := List.mem_map.mp hrest
    obtain ⟨-, below, hbelow, -⟩ := mem_encountersOf h entry hentries.1 hc
    obtain ⟨-, first, others, hothers, hamong⟩ := mem_encountersAmong h rest hentries.2 hd
    rw [← hcnames, hbelow, hothers] at hdnames
    obtain ⟨rfl, -⟩ := List.cons.inj (List.append_cancel_left hdnames)
    obtain ⟨found, hfound, -⟩ := Option.bind_eq_some_iff.mp (hamong hdistinct.2)
    obtain ⟨hmem, hname⟩ := Entry.mem_of_find? hfound
    exact hdistinct.1.1 (hname ▸ List.mem_map_of_mem hmem)
termination_by structural entries

end

/-- No two encounters with distinct entries of the root and what is below them have one path. -/
theorem nodup_path_encountersAmong (entries : List Entry)
    (hentries : Entry.areWellNamed entries = true)
    (hdistinct : Entry.areDistinct entries = true) :
    ((encountersAmong includeDotNames rules? [] entries).map Encounter.path).Nodup := by
  have hnames : ∀ names ∈ (encountersAmong includeDotNames rules? [] entries).map Encounter.names,
      (∀ n ∈ names, IsName n) ∧ names ≠ [] := by
    intro names hmem
    obtain ⟨c, hc, rfl⟩ := List.mem_map.mp hmem
    exact isName_of_mem_encountersAmong hentries hc
  have hnodup : ((encountersAmong includeDotNames rules? [] entries).map Encounter.names).Nodup :=
    nodup_names_encountersAmong (List.forall_mem_nil _) entries hentries hdistinct
  -- The names can be read back from the path.
  have hpaths := hnodup.map_on (f := "/".intercalate) fun names hmem others hothers heq => by
    rw [← FileSystem.steps_intercalate (hnames names hmem).1 (hnames names hmem).2, heq,
      FileSystem.steps_intercalate (hnames others hothers).1 (hnames others hothers).2]
  rwa [List.map_map] at hpaths

end

end Traversal

end SourceSnapshot
