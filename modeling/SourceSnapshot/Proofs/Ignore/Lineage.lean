import Mathlib.Data.List.Induction
import SourceSnapshot.Ignore.Key
import SourceSnapshot.Proofs.FileSystem.Names
import SourceSnapshot.Proofs.Text.Pieces

/-!
# Lineages of keys

The step to the directory above makes a key strictly shorter, so a lineage is the key itself and,
behind it, the lineage of the directory that holds it. A path that is made of names keeps its text
as its key, and the keys above it are those of the beginnings of its list of names.
-/

namespace SourceSnapshot

namespace Ignore.Key

open FileSystem

/-- The directory above has a strictly shorter key. -/
theorem length_parent? {k above : Key} (h : k.parent? = some above) :
    above.chars.length < k.chars.length := by
  simp only [parent?] at h
  split at h
  · cases h
  · rename_i hne
    cases h
    have hbare := (Text.dropTrailing_prefix (· == '/') k.chars).length_le
    have habove := Text.dropTrailing_prefix (· != '/') (Text.dropTrailing (· == '/') k.chars)
    refine Nat.lt_of_lt_of_le (Nat.lt_of_le_of_ne habove.length_le ?_) hbare
    intro hlen
    -- Equal lengths would make one character both a slash and not a slash.
    have he := habove.eq_of_length hlen
    obtain ⟨c, hc⟩ := Option.ne_none_iff_exists'.mp (mt List.getLast?_eq_none_iff.mp hne)
    have hslash := Text.getLast?_dropTrailing hc
    rw [he] at hc
    have hkept := Text.getLast?_dropTrailing hc
    simp_all

/-- What holds at the root and goes on from each directory to what it holds, holds of every key. -/
@[elab_as_elim] theorem lineage_induction {motive : Key → Prop} (k : Key)
    (root : ∀ k, k.parent? = none → motive k)
    (below : ∀ k above, k.parent? = some above → motive above → motive k) : motive k := by
  induction hn : k.chars.length using Nat.strongRecOn generalizing k with
  | ind n ih =>
    cases hp : k.parent? with
    | none => exact root k hp
    | some above => exact below k above hp (ih _ (hn ▸ length_parent? hp) above rfl)

/-- Any number of steps that is not below the length of the key yields the whole lineage. -/
theorem lineageWithin_eq {m n : Nat} {k : Key} (hm : k.chars.length ≤ m)
    (hn : k.chars.length ≤ n) : k.lineageWithin m = k.lineageWithin n := by
  induction m generalizing k n with
  | zero =>
    have hp : k.parent? = none := by
      by_contra hp
      obtain ⟨above, ha⟩ := Option.ne_none_iff_exists'.mp hp
      have := length_parent? ha
      omega
    cases n <;> simp [lineageWithin, hp]
  | succ m ih =>
    cases hp : k.parent? with
    | none => cases n <;> simp [lineageWithin, hp]
    | some above =>
      have hlt := length_parent? hp
      cases n with
      | zero => omega
      | succ n =>
        simp only [lineageWithin, hp]
        exact congrArg (k :: ·) (ih (by omega) (by omega))

theorem lineage_of_parent?_none {k : Key} (h : k.parent? = none) : k.lineage = [k] := by
  rw [lineage]
  cases k.chars.length <;> simp [lineageWithin, h]

/-- The lineage of a key goes on with that of the directory above. -/
theorem lineage_of_parent?_some {k above : Key} (h : k.parent? = some above) :
    k.lineage = k :: above.lineage := by
  have hlt := length_parent? h
  rw [lineage]
  cases hk : k.chars.length with
  | zero => omega
  | succ n =>
    simp only [lineageWithin, h]
    exact congrArg (k :: ·) (lineageWithin_eq (by omega) (Nat.le_refl _))

/-- The key of a path that is made of names; that of a directory ends with a slash. -/
def ofNames (names : List String) (isDir : Bool) : Key :=
  ⟨("/".intercalate names).toList ++ if isDir then ['/'] else []⟩

/-- A path that is made of names keeps its text as its key. -/
theorem ofPath_intercalate {names : List String} (h : ∀ n ∈ names, IsName n) (hne : names ≠ [])
    (isDir : Bool) : ofPath ("/".intercalate names) isDir = .ok (ofNames names isDir) := by
  obtain ⟨first, rest, rfl⟩ := List.exists_cons_of_ne_nil hne
  obtain ⟨hempty, hslash, hdot, hdots⟩ := h first (by simp)
  have hfirst := takeWhile_intercalate (h first (by simp)) rest
  have hlast := fun {c} => getLast?_intercalate h hne (c := c)
  simp only [ofPath, ofNames]
  generalize ("/".intercalate (first :: rest)).toList = cs at hfirst hlast ⊢
  -- Any other beginning of the path would make its first name none.
  have hhead : cs.head? ≠ some '/' := by
    intro hc
    cases cs with
    | nil => cases hc
    | cons c cs =>
      cases hc
      exact hempty (String.toList_eq_nil_iff.mp (by simpa using hfirst.symm))
  have hhere : dropHere cs = cs := by
    fun_cases dropHere cs with
    | case1 rest' => exact absurd (String.toList_injective (by simpa using hfirst.symm)) hdot
    | case2 => rfl
  have htrim : Text.trim (· == '/') cs = cs := by
    have hdrop : cs.dropWhile (· == '/') = cs := by
      cases cs with
      | nil => rfl
      | cons c cs => simp_all
    rw [Text.trim, hdrop]
    exact Text.dropTrailing_eq_self fun c hc => by simpa using hlast hc
  have hends : Text.endsWith cs ['/'] = false := by
    rw [Bool.eq_false_iff]
    exact fun he => hlast (Text.endsWith_singleton.mp he) rfl
  have hnil : cs ≠ [] := by
    rintro rfl
    exact hempty (String.toList_eq_nil_iff.mp (by simpa using hfirst.symm))
  have hone : cs ≠ ['.'] := by
    rintro rfl
    exact hdot (String.toList_injective (by simpa using hfirst.symm))
  have htwo : cs ≠ ['.', '.'] := by
    rintro rfl
    exact hdots (String.toList_injective (by simpa using hfirst.symm))
  have hup : ['.', '.', '/'].isPrefixOf cs = false := by
    rw [Bool.eq_false_iff]
    intro hp
    obtain ⟨rest', rfl⟩ := List.isPrefixOf_iff_prefix.mp hp
    exact hdots (String.toList_injective (by simpa using hfirst.symm))
  rw [if_neg hhead, hhere, htrim, hends, hup]
  cases isDir <;> simp [hnil, hone, htwo]

/-- The directory above a path that is made of names has all names but the last. -/
theorem parent?_ofNames {above : List String} {name : String} (h : ∀ n ∈ above, IsName n)
    (hname : IsName name) (isDir : Bool) :
    (ofNames (above ++ [name]) isDir).parent? =
      if above = [] then none else some (ofNames above true) := by
  have hall : ∀ n ∈ above ++ [name], IsName n := by
    intro n hn
    rcases List.mem_append.mp hn with hn | hn
    · exact h n hn
    · exact List.mem_singleton.mp hn ▸ hname
  have hbare : Text.dropTrailing (· == '/') (ofNames (above ++ [name]) isDir).chars =
      ("/".intercalate (above ++ [name])).toList := by
    rw [ofNames, Text.dropTrailing_append]
    · exact Text.dropTrailing_eq_self fun c hc => by
        simpa using getLast?_intercalate hall (by simp) hc
    · cases isDir <;> simp
  have hdrop : ∀ c ∈ name.toList, (c != '/') = true := by
    intro c hc
    have hne : c ≠ '/' := fun he => hname.2.1 (he ▸ hc)
    simpa using hne
  simp only [parent?, hbare]
  rw [toList_intercalate_append_singleton h, Text.dropTrailing_append _ hdrop]
  by_cases hne : above = []
  · simp [hne]
  · rw [if_neg hne, if_neg hne, Text.dropTrailing_append_singleton]
    simp [ofNames]

theorem lineage_ofNames_singleton {name : String} (h : IsName name) (isDir : Bool) :
    (ofNames [name] isDir).lineage = [ofNames [name] isDir] :=
  lineage_of_parent?_none (by
    simpa using parent?_ofNames (fun _ hn => absurd hn List.not_mem_nil) h isDir)

theorem lineage_ofNames_append_singleton {above : List String} {name : String}
    (h : ∀ n ∈ above, IsName n) (hname : IsName name) (hne : above ≠ []) (isDir : Bool) :
    (ofNames (above ++ [name]) isDir).lineage =
      ofNames (above ++ [name]) isDir :: (ofNames above true).lineage :=
  lineage_of_parent?_some (by rw [parent?_ofNames h hname, if_neg hne])

/-- The key of the first `i` names of a path. -/
def ofBeginning (names : List String) (isDir : Bool) (i : Nat) : Key :=
  ofNames (names.take i) (i < names.length || isDir)

/-- All names of a path make its own key. -/
@[simp] theorem ofBeginning_length (names : List String) (isDir : Bool) :
    ofBeginning names isDir names.length = ofNames names isDir := by
  simp [ofBeginning]

theorem ofBeginning_append_singleton {above : List String} {i : Nat} (hi : i ≤ above.length)
    (name : String) (isDir : Bool) :
    ofBeginning (above ++ [name]) isDir i = ofBeginning above true i := by
  have hlt : i < above.length + 1 := by omega
  simp [ofBeginning, List.take_append_of_le_length hi, hlt]

/-- The lineage of a path that is made of names holds exactly the keys of its beginnings. -/
theorem mem_lineage_ofNames {names : List String} (h : ∀ n ∈ names, IsName n) (hne : names ≠ [])
    (isDir : Bool) (k : Key) :
    k ∈ (ofNames names isDir).lineage ↔
      ∃ i, 1 ≤ i ∧ i ≤ names.length ∧ k = ofBeginning names isDir i := by
  induction names using List.reverseRecOn generalizing isDir with
  | nil => exact absurd rfl hne
  | append_singleton above name ih =>
    have habove : ∀ n ∈ above, IsName n := fun n hn => h n (by simp [hn])
    have hname : IsName name := h name (by simp)
    have hlast := ofBeginning_length (above ++ [name]) isDir
    have hlen : (above ++ [name]).length = above.length + 1 := by simp
    by_cases hnil : above = []
    · subst hnil
      rw [List.nil_append, lineage_ofNames_singleton hname, List.mem_singleton]
      constructor
      · rintro rfl
        exact ⟨1, by simp, by simp, hlast.symm⟩
      · rintro ⟨i, hi, hi', rfl⟩
        obtain rfl : i = 1 := by simpa using Nat.le_antisymm hi' hi
        exact hlast
    · rw [lineage_ofNames_append_singleton habove hname hnil, List.mem_cons, ih habove hnil]
      constructor
      · rintro (rfl | ⟨i, hi, hi', rfl⟩)
        · exact ⟨above.length + 1, by omega, by omega, by rw [← hlen, hlast]⟩
        · exact ⟨i, hi, by omega, (ofBeginning_append_singleton hi' name isDir).symm⟩
      · rintro ⟨i, hi, hi', rfl⟩
        rcases Nat.lt_or_eq_of_le hi' with hlt | rfl
        · have hle : i ≤ above.length := by omega
          exact Or.inr ⟨i, hi, hle, ofBeginning_append_singleton hle name isDir⟩
        · exact Or.inl hlast

end Ignore.Key

end SourceSnapshot
