import Mathlib.Data.List.Basic
import SourceSnapshot.Proofs.FileSystem.Names
import SourceSnapshot.Proofs.Text.Pieces

/-!
# Entries with distinct names

If no directory holds two entries with one name, then names lead to one entry at most, and so does
the path that is made of them: the names can be read back from it, and its slashes tell the depth.
-/

namespace SourceSnapshot.FileSystem

/-- Components without slashes that a path is made of are the components that are followed. -/
theorem steps_intercalate_of_notMem {components : List String}
    (h : ∀ c ∈ components, '/' ∉ c.toList) (hne : components ≠ []) :
    steps ("/".intercalate components) = components := by
  rw [steps]
  induction components with
  | nil => exact absurd rfl hne
  | cons first rest ih =>
    obtain ⟨hfirst, hrest⟩ := List.forall_mem_cons.mp h
    rw [toList_intercalate_cons]
    by_cases hnil : rest = []
    · rw [if_pos hnil, List.append_nil, Text.splitOn_of_notMem hfirst, hnil, List.map_singleton,
        String.ofList_toList]
    · rw [if_neg hnil, Text.splitOn_append_cons hfirst, List.map_cons, String.ofList_toList,
        ih hrest hnil]

theorem steps_intercalate {names : List String} (h : ∀ n ∈ names, IsName n) (hne : names ≠ []) :
    steps ("/".intercalate names) = names :=
  steps_intercalate_of_notMem (fun name hname => (h name hname).2.1) hne

/-- A path that is made of names has a slash less than names. -/
theorem count_slash_intercalate {first : String} {rest : List String}
    (h : ∀ n ∈ first :: rest, IsName n) :
    ("/".intercalate (first :: rest)).toList.count '/' = rest.length := by
  induction rest generalizing first with
  | nil =>
    rw [String.intercalate_singleton, List.length_nil]
    exact List.count_eq_zero.mpr (h first List.mem_cons_self).2.1
  | cons second rest ih =>
    obtain ⟨hfirst, hrest⟩ := List.forall_mem_cons.mp h
    rw [toList_intercalate_cons, if_neg (List.cons_ne_nil _ _), List.count_append,
      List.count_eq_zero.mpr hfirst.2.1, List.count_cons_self, ih hrest, List.length_cons]
    omega

/-- Whether a path leads to something below the directory at another path, told from the texts of
both. -/
def isBelow (directory path : String) : Bool := (directory.toList ++ ['/']).isPrefixOf path.toList

/-- A path that is made of names leads below a directory if its names start with those of the
directory and there are more. -/
theorem isBelow_intercalate_iff {above names : List String} (habove : ∀ n ∈ above, IsName n)
    (hne : above ≠ []) (hnames : ∀ n ∈ names, IsName n) :
    isBelow ("/".intercalate above) ("/".intercalate names) = true ↔
      ∃ first below, names = above ++ first :: below := by
  rw [isBelow, List.isPrefixOf_iff_prefix]
  constructor
  · rintro ⟨rest, hrest⟩
    rw [List.append_assoc, List.singleton_append] at hrest
    have hsome : names ≠ [] := by
      rintro rfl
      rw [String.intercalate_nil] at hrest
      cases (List.append_eq_nil_iff.mp hrest).2
    obtain ⟨piece, pieces, hpieces⟩ := List.exists_cons_of_ne_nil (Text.splitOn_ne_nil '/' rest)
    refine ⟨String.ofList piece, pieces.map String.ofList, ?_⟩
    rw [← steps_intercalate hnames hsome, steps, ← hrest, Text.splitOn_append, hpieces,
      List.map_append, List.map_cons]
    exact congrArg (· ++ _) (steps_intercalate habove hne)
  · rintro ⟨first, below, rfl⟩
    rw [String.intercalate_append_of_ne_nil hne (List.cons_ne_nil first below)]
    refine ⟨("/".intercalate (first :: below)).toList, ?_⟩
    simp

namespace Entry

mutual

/-- Whether no directory at or below an entry holds two entries with one name. -/
def isDistinct : Entry → Bool
  | .file _ _ _ => true
  | .directory _ _ _ entries => areDistinct entries
  | .link _ _ _ => true
  | .pipe _ _ => true
  | .unknown _ _ => true

/-- Whether several entries have different names, and so have the entries of each directory below
them. -/
def areDistinct : List Entry → Bool
  | [] => true
  | entry :: rest =>
    decide (entry.name ∉ rest.map Entry.name) && entry.isDistinct && areDistinct rest

end

/-- Entries are distinct if their names are and each of them is distinct below. -/
theorem areDistinct_iff {entries : List Entry} :
    areDistinct entries = true ↔
      (entries.map Entry.name).Nodup ∧ ∀ entry ∈ entries, entry.isDistinct = true := by
  induction entries with
  | nil => simp [areDistinct]
  | cons entry rest ih =>
    rw [areDistinct, Bool.and_eq_true, Bool.and_eq_true, decide_eq_true_eq, ih, List.map_cons,
      List.nodup_cons, List.forall_mem_cons]
    constructor
    · rintro ⟨⟨hname, hentry⟩, hnames, hrest⟩
      exact ⟨⟨hname, hnames⟩, hentry, hrest⟩
    · rintro ⟨⟨hname, hnames⟩, hentry, hrest⟩
      exact ⟨⟨hname, hentry⟩, hnames, hrest⟩

theorem areDistinct_of_cons {entry : Entry} {rest : List Entry}
    (h : areDistinct (entry :: rest) = true) : areDistinct rest = true := by
  rw [areDistinct, Bool.and_eq_true] at h
  exact h.2

theorem mem_of_find? {name : String} {entries : List Entry} {entry : Entry}
    (h : find? name entries = some entry) : entry ∈ entries ∧ entry.name = name := by
  have hname := List.find?_some h
  exact ⟨List.mem_of_find?_eq_some h, beq_iff_eq.mp hname⟩

/-- Among distinct entries an entry is found by its name. -/
theorem find?_name {entries : List Entry} (h : areDistinct entries = true) {entry : Entry}
    (hentry : entry ∈ entries) : find? entry.name entries = some entry := by
  obtain ⟨hnames, -⟩ := areDistinct_iff.mp h
  clear h
  induction entries with
  | nil => cases hentry
  | cons first rest ih =>
    rw [List.map_cons, List.nodup_cons] at hnames
    rcases List.mem_cons.mp hentry with rfl | hrest
    · exact List.find?_cons_of_pos (beq_self_eq_true _)
    · have hne : (first.name == entry.name) = false := by
        rw [beq_eq_false_iff_ne]
        exact fun heq => hnames.1 (heq ▸ List.mem_map_of_mem hrest)
      rw [find?, List.find?_cons, hne]
      exact ih hrest hnames.2

theorem areDistinct_of_directoryAt? {location : List String}
    {found inner : Option Errno × List Entry} (h : areDistinct found.2 = true)
    (hinner : directoryAt? location found = some inner) : areDistinct inner.2 = true :=
  of_directoryAt? (areDistinct · = true)
    (fun hentries hmem => (areDistinct_iff.mp hentries).2 _ hmem) h hinner

/-- What an entry holds if it is a directory. -/
def inside : Entry → List Entry
  | .directory _ _ _ entries => entries
  | _ => []

/-- The entry that names lead to from an entry. -/
def below? : List String → Entry → Option Entry
  | [], entry => some entry
  | name :: names, entry => (find? name entry.inside).bind (below? names)

/-- The entry that names lead to, the first of them among these entries. -/
def among? (entries : List Entry) : List String → Option Entry
  | [] => none
  | name :: names => (find? name entries).bind (below? names)

/-- What names lead to among some entries they lead to as well if another one stands before. -/
theorem among?_cons {entry : Entry} {rest : List Entry} (h : areDistinct (entry :: rest) = true)
    {names : List String} {found : Entry} (hrest : among? rest names = some found) :
    among? (entry :: rest) names = some found := by
  cases names with
  | nil => cases hrest
  | cons name names =>
    rw [among?] at hrest ⊢
    obtain ⟨first, hfirst, hbelow⟩ := Option.bind_eq_some_iff.mp hrest
    obtain ⟨hmem, rfl⟩ := mem_of_find? hfirst
    rw [find?_name h (List.mem_cons_of_mem entry hmem)]
    exact hbelow

/-- The entry that a relative path leads to. -/
def atPath? (entries : List Entry) (path : String) : Option Entry := among? entries (steps path)

theorem atPath?_intercalate (entries : List Entry) {names : List String}
    (h : ∀ n ∈ names, IsName n) (hne : names ≠ []) :
    atPath? entries ("/".intercalate names) = among? entries names := by
  rw [atPath?, steps_intercalate h hne]

end Entry

/-- A well-formed file system: besides, no two entries of one directory have the same name. -/
structure IsWellFormed (fs : FileSystem) : Prop extends fs.IsWellNamed where
  distinct : Entry.areDistinct fs.entries = true

instance (fs : FileSystem) : Decidable fs.IsWellFormed :=
  decidable_of_iff (fs.IsWellNamed ∧ Entry.areDistinct fs.entries = true)
    ⟨fun h => ⟨h.1, h.2⟩, fun h => ⟨h.toIsWellNamed, h.distinct⟩⟩

/-- What a path lists in a well-formed file system is distinct. -/
theorem areDistinct_of_list {fs : FileSystem} (h : fs.IsWellFormed)
    {path : String} {entries : List Entry} (hlist : fs.list path = .ok entries) :
    Entry.areDistinct entries = true := by
  obtain ⟨location, -, hcontents⟩ := list_eq_ok_iff.mp hlist
  exact Entry.areDistinct_of_directoryAt? h.distinct hcontents

end SourceSnapshot.FileSystem
