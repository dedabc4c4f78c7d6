import SourceSnapshot.FileSystem.Lookup

/-!
# Names of entries

A name is not empty, has no slash in it, and is neither `.` nor `..`. The names along a path can be
read off its text. If all entries of a file system have such names, then so has all that is listed.
-/

namespace SourceSnapshot.FileSystem

/-- A name that an entry of a directory can have: it is not empty, has no slash in it, and is
neither `.` nor `..`. -/
def IsName (name : String) : Prop :=
  name ≠ "" ∧ '/' ∉ name.toList ∧ name ≠ "." ∧ name ≠ ".."

instance : DecidablePred IsName := fun name =>
  inferInstanceAs (Decidable (name ≠ "" ∧ '/' ∉ name.toList ∧ name ≠ "." ∧ name ≠ ".."))

theorem isIdle_toList {name : String} (h : IsName name) : isIdle name.toList = false := by
  obtain ⟨hempty, -, hdot, -⟩ := h
  rw [isIdle, Bool.or_eq_false_iff, beq_eq_false_iff_ne, beq_eq_false_iff_ne]
  refine ⟨fun hnil => hempty (String.toList_eq_nil_iff.mp hnil), fun hone => hdot ?_⟩
  exact String.toList_injective hone

/-- The path of a list of names is joined from the path of all but the last. -/
theorem intercalate_append_singleton {above : List String} (h : ∀ n ∈ above, IsName n)
    (name : String) :
    "/".intercalate (above ++ [name]) = joinRelative ("/".intercalate above) name := by
  cases above with
  | nil => simp [joinRelative]
  | cons first rest =>
    have hne : "/".intercalate (first :: rest) ≠ "" := by
      cases rest with
      | nil => simpa using (h first (by simp)).1
      | cons second rest => simp [(h first (by simp)).1]
    rw [String.intercalate_append_of_ne_nil (by simp) (by simp), String.intercalate_singleton,
      joinRelative, if_neg hne]

/-- A path that is made of names starts with the first of them, and a slash stands behind it if
there are more. -/
theorem toList_intercalate_cons (first : String) (rest : List String) :
    ("/".intercalate (first :: rest)).toList =
      first.toList ++ if rest = [] then [] else '/' :: ("/".intercalate rest).toList := by
  cases rest with
  | nil => simp
  | cons second rest => simp [String.intercalate_cons_cons]

/-- A path that is made of names ends with the last of them, and a slash stands before it if there
are more. -/
theorem toList_intercalate_append_singleton {above : List String} (h : ∀ n ∈ above, IsName n)
    (name : String) :
    ("/".intercalate (above ++ [name])).toList =
      (if above = [] then [] else ("/".intercalate above).toList ++ ['/']) ++ name.toList := by
  cases above with
  | nil => simp
  | cons first rest =>
    rw [String.intercalate_append_of_ne_nil (by simp) (by simp)]
    simp

/-- A path that is made of names does not end with a slash. -/
theorem getLast?_intercalate {names : List String} (h : ∀ n ∈ names, IsName n) (hne : names ≠ [])
    {c : Char} (hc : ("/".intercalate names).toList.getLast? = some c) : c ≠ '/' := by
  obtain ⟨above, name, rfl⟩ : ∃ above name, names = above ++ [name] :=
    ⟨_, _, (List.dropLast_concat_getLast hne).symm⟩
  have hname := h name (by simp)
  rw [toList_intercalate_append_singleton (fun n hn => h n (by simp [hn]))] at hc
  have hlast : name.toList.getLast? = some c := by
    rw [List.getLast?_append] at hc
    cases hl : name.toList.getLast? with
    | none => exact absurd (String.toList_eq_nil_iff.mp (List.getLast?_eq_none_iff.mp hl)) hname.1
    | some d => simpa [hl] using hc
  rintro rfl
  exact hname.2.1 (List.mem_of_getLast? hlast)

/-- A path that is made of names reads the first of them up to its first slash. -/
theorem takeWhile_intercalate {first : String} (h : IsName first) (rest : List String) :
    ("/".intercalate (first :: rest)).toList.takeWhile (· != '/') = first.toList := by
  have hfirst : ∀ c ∈ first.toList, (c != '/') = true := by
    intro c hc
    have hne : c ≠ '/' := fun he => h.2.1 (he ▸ hc)
    simpa using hne
  rw [toList_intercalate_cons, List.takeWhile_append_of_pos hfirst]
  split <;> simp

namespace Entry

mutual

/-- Whether an entry and all that is below it have names that entries can have. -/
def isWellNamed : Entry → Bool
  | .file name _ _ => decide (IsName name)
  | .directory name _ _ entries => decide (IsName name) && areWellNamed entries
  | .link name _ _ => decide (IsName name)
  | .pipe name _ => decide (IsName name)
  | .unknown name _ => decide (IsName name)

/-- Whether several entries and all that is below them have names that entries can have. -/
def areWellNamed : List Entry → Bool
  | [] => true
  | entry :: rest => isWellNamed entry && areWellNamed rest

end

/-- The name of a well-named entry. -/
theorem isName_of_isWellNamed {entry : Entry} (h : entry.isWellNamed = true) :
    IsName entry.name := by
  cases entry with
  | file n obscure data => exact of_decide_eq_true h
  | directory n obscure listFault entries =>
    simp only [isWellNamed, Bool.and_eq_true, decide_eq_true_eq] at h
    exact h.1
  | link n obscure target => exact of_decide_eq_true h
  | pipe n obscure => exact of_decide_eq_true h
  | unknown n fault => exact of_decide_eq_true h

theorem forall_isName_append {above : List String} (h : ∀ n ∈ above, IsName n) {entry : Entry}
    (hentry : entry.isWellNamed = true) : ∀ n ∈ above ++ [entry.name], IsName n :=
  List.forall_mem_append.mpr ⟨h, List.forall_mem_singleton.mpr (isName_of_isWellNamed hentry)⟩

theorem areWellNamed_iff {entries : List Entry} :
    areWellNamed entries = true ↔ ∀ entry ∈ entries, entry.isWellNamed = true := by
  induction entries with
  | nil => simp [areWellNamed]
  | cons entry rest ih => rw [areWellNamed, Bool.and_eq_true, ih, List.forall_mem_cons]

/-- What holds of entries, and passes on to what each directory among them holds, holds of what any
directory below them holds. -/
theorem of_directoryAt? (p : List Entry → Prop)
    (hstep : ∀ {entries name obscure fault inner}, p entries →
      .directory name obscure fault inner ∈ entries → p inner)
    {location : List String} {found inner : Option Errno × List Entry} (h : p found.2)
    (hinner : directoryAt? location found = some inner) : p inner.2 := by
  induction location generalizing found with
  | nil =>
    obtain rfl : found = inner := Option.some.inj hinner
    exact h
  | cons name location ih =>
    obtain ⟨fault, entries⟩ := found
    rw [directoryAt?] at hinner
    split at hinner
    · rename_i n obscure fault' below hfind
      refine ih ?_ hinner
      exact hstep h (List.mem_of_find?_eq_some hfind)
    · cases hinner

/-- What a directory below well-named entries holds is well-named. -/
theorem areWellNamed_of_directoryAt? {location : List String}
    {found inner : Option Errno × List Entry} (h : areWellNamed found.2 = true)
    (hinner : directoryAt? location found = some inner) : areWellNamed inner.2 = true := by
  refine of_directoryAt? (areWellNamed · = true) (fun hentries hmem => ?_) h hinner
  have hentry := areWellNamed_iff.mp hentries _ hmem
  simp only [isWellNamed, Bool.and_eq_true] at hentry
  exact hentry.2

end Entry

/-- A path lists what the directory holds that it leads to, if that directory can be listed. -/
theorem list_eq_ok_iff {fs : FileSystem} {path : String} {entries : List Entry} :
    fs.list path = .ok entries ↔
      ∃ location, fs.lookUp path = .ok (.directory location) ∧
        fs.contents? location = some (none, entries) := by
  simp only [list, bind, Except.bind]
  generalize fs.lookUp path = found
  cases found with
  | error fault => simp
  | ok place =>
    cases place with
    | directory location =>
      rcases hcontents : fs.contents? location with _ | ⟨_ | errno, inner⟩ <;>
        simp [hcontents, pure, Except.pure, throw, throwThe, MonadExceptOf.throw]
    | file data above name => simp [throw, throwThe, MonadExceptOf.throw]
    | pipe => simp [throw, throwThe, MonadExceptOf.throw]
    | missing above name => simp [throw, throwThe, MonadExceptOf.throw]

/-- A file system all of whose entries have names that entries can have. -/
structure IsWellNamed (fs : FileSystem) : Prop where
  names : Entry.areWellNamed fs.entries = true

instance (fs : FileSystem) : Decidable fs.IsWellNamed :=
  decidable_of_iff (Entry.areWellNamed fs.entries = true) ⟨IsWellNamed.mk, IsWellNamed.names⟩

/-- What a path lists in a well-named file system is well-named. -/
theorem areWellNamed_of_list {fs : FileSystem} (h : fs.IsWellNamed)
    {path : String} {entries : List Entry} (hlist : fs.list path = .ok entries) :
    Entry.areWellNamed entries = true := by
  obtain ⟨location, -, hcontents⟩ := list_eq_ok_iff.mp hlist
  exact Entry.areWellNamed_of_directoryAt? h.names hcontents

end SourceSnapshot.FileSystem
