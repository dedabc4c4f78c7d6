import Mathlib.Data.List.Infix
import SourceSnapshot.Pattern.Line
import SourceSnapshot.Pattern.Search

/-!
# Matching component by component

What a pattern means, told without expressions. The segments of a pattern are matched against the
components of a path: two stars stand for any number of components, and every other segment is a
glob for exactly one of them. Segments of two stars in a row say no more than one of them.
-/

namespace SourceSnapshot.Pattern

/-- Whether a glob matches the whole of a name: a star stands for any run of characters, a question
mark for any character, a backslash makes the next character literal, and every other character
stands for itself. -/
def globMatches (ignoreCase : Bool) : List Char → List Char → Bool
  | [], name => name.isEmpty
  | '*' :: rest, name => name.tails.any (globMatches ignoreCase rest)
  | _ :: _, [] => false
  | '?' :: rest, _ :: name => globMatches ignoreCase rest name
  | '\\' :: d :: rest, c :: name => sameChar ignoreCase d c && globMatches ignoreCase rest name
  | d :: rest, c :: name => sameChar ignoreCase d c && globMatches ignoreCase rest name

/-- Whether the segments of a pattern match the components of a path in full. -/
def componentsMatch (ignoreCase : Bool) : List (List Char) → List (List Char) → Bool
  | [], components => components.isEmpty
  | segment :: rest, components =>
    if segment = twoStars then components.tails.any (componentsMatch ignoreCase rest)
    else
      match components with
      | [] => false
      | component :: below =>
        globMatches ignoreCase segment component && componentsMatch ignoreCase rest below

/-- The pieces without an empty first one. -/
def dropEmptyHead : List (List Char) → List (List Char)
  | [] :: rest => rest
  | pieces => pieces

/-- The pieces without an empty last one. -/
def dropEmptyLast (pieces : List (List Char)) : List (List Char) :=
  if pieces.getLast? = some [] then pieces.dropLast else pieces

/-- The segments that a pattern is made of. A pattern without a slash but at its end may match at
any depth. -/
def patternSegments (pattern : List Char) : List (List Char) :=
  let segments := dropEmptyLast (dropEmptyHead (Text.splitOn '/' pattern))
  if '/' ∈ pattern.dropLast then segments else twoStars :: segments

/-- Whether every opening bracket stands behind a backslash. -/
def bracketsEscaped : List Char → Bool
  | '\\' :: _ :: rest => bracketsEscaped rest
  | '[' :: _ => false
  | _ :: rest => bracketsEscaped rest
  | [] => true

section

variable {ignoreCase : Bool} {rest name : List Char}

/-- A star matches any beginning of a name. -/
theorem globMatches_star :
    globMatches ignoreCase ('*' :: rest) name = true ↔
      ∃ run left, name = run ++ left ∧ globMatches ignoreCase rest left = true := by
  rw [globMatches, List.any_eq_true]
  constructor
  · rintro ⟨left, hleft, hmatch⟩
    obtain ⟨run, rfl⟩ := (List.mem_tails left name).mp hleft
    exact ⟨run, left, rfl, hmatch⟩
  · rintro ⟨run, left, rfl, hmatch⟩
    exact ⟨left, (List.mem_tails left _).mpr (List.suffix_append run left), hmatch⟩

theorem globMatches_one :
    globMatches ignoreCase ('?' :: rest) name = true ↔
      ∃ c left, name = c :: left ∧ globMatches ignoreCase rest left = true := by
  cases name <;> simp [globMatches]

theorem globMatches_escaped {d : Char} :
    globMatches ignoreCase ('\\' :: d :: rest) name = true ↔
      ∃ c left, name = c :: left ∧ sameChar ignoreCase d c = true ∧
        globMatches ignoreCase rest left = true := by
  cases name <;> simp [globMatches]

/-- Any other character matches itself. -/
theorem globMatches_literal {d : Char} (hstar : d ≠ '*') (hone : d ≠ '?') (hescape : d ≠ '\\') :
    globMatches ignoreCase (d :: rest) name = true ↔
      ∃ c left, name = c :: left ∧ sameChar ignoreCase d c = true ∧
        globMatches ignoreCase rest left = true := by
  cases name with
  | nil => simp [globMatches]
  | cons c name => simp [globMatches, hescape]

/-- Only stars match an empty name. -/
theorem eq_star_of_globMatches_nil {glob : List Char} (h : globMatches ignoreCase glob [] = true) :
    ∀ c ∈ glob, c = '*' := by
  induction glob with
  | nil => simp
  | cons d rest ih =>
    by_cases hd : d = '*'
    · subst hd
      obtain ⟨run, left, hname, hleft⟩ := globMatches_star.mp h
      obtain rfl := (List.append_eq_nil_iff.mp hname.symm).2
      exact List.forall_mem_cons.mpr ⟨rfl, ih hleft⟩
    · rw [globMatches] at h
      · cases h
      · simpa using hd

end

section

variable {ignoreCase : Bool} {rest components : List (List Char)}

/-- Two stars match any beginning of the components. -/
theorem componentsMatch_twoStars :
    componentsMatch ignoreCase (twoStars :: rest) components = true ↔
      ∃ skipped below, components = skipped ++ below ∧
        componentsMatch ignoreCase rest below = true := by
  rw [componentsMatch.eq_def]
  simp only [if_pos, List.any_eq_true]
  constructor
  · rintro ⟨below, hbelow, hmatch⟩
    obtain ⟨skipped, rfl⟩ := (List.mem_tails below components).mp hbelow
    exact ⟨skipped, below, rfl, hmatch⟩
  · rintro ⟨skipped, below, rfl, hmatch⟩
    exact ⟨below, (List.mem_tails below _).mpr (List.suffix_append skipped below), hmatch⟩

/-- Any other segment matches one component. -/
theorem componentsMatch_glob {segment : List Char} (h : segment ≠ twoStars) :
    componentsMatch ignoreCase (segment :: rest) components = true ↔
      ∃ component below, components = component :: below ∧
        globMatches ignoreCase segment component = true ∧
        componentsMatch ignoreCase rest below = true := by
  rw [componentsMatch.eq_def]
  cases components <;> simp [h]

/-- Two stars twice in a row match what they match once. -/
theorem componentsMatch_twoStars_twoStars :
    componentsMatch ignoreCase (twoStars :: twoStars :: rest) components =
      componentsMatch ignoreCase (twoStars :: rest) components := by
  rw [Bool.eq_iff_iff, componentsMatch_twoStars, componentsMatch_twoStars]
  constructor
  · rintro ⟨skipped, below, rfl, hmatch⟩
    obtain ⟨more, last, rfl, hlast⟩ := componentsMatch_twoStars.mp hmatch
    exact ⟨skipped ++ more, last, (List.append_assoc skipped more last).symm, hlast⟩
  · rintro ⟨skipped, below, rfl, hmatch⟩
    exact ⟨skipped, below, rfl, componentsMatch_twoStars.mpr ⟨[], below, rfl, hmatch⟩⟩

/-- A first segment matches the same in front of segments that match the same. -/
theorem componentsMatch_cons_congr {segment : List Char} {others : List (List Char)}
    (h : ∀ components, componentsMatch ignoreCase rest components =
      componentsMatch ignoreCase others components) (components : List (List Char)) :
    componentsMatch ignoreCase (segment :: rest) components =
      componentsMatch ignoreCase (segment :: others) components := by
  have hrest : componentsMatch ignoreCase rest = componentsMatch ignoreCase others := funext h
  rw [componentsMatch.eq_def, componentsMatch.eq_def _ (segment :: others)]
  simp only [hrest]

/-- Merged segments match the same components. -/
theorem componentsMatch_mergeStars (segments components : List (List Char)) :
    componentsMatch ignoreCase (mergeStars segments) components =
      componentsMatch ignoreCase segments components := by
  induction segments generalizing components with
  | nil => rfl
  | cons segment rest ih =>
    rw [← componentsMatch_cons_congr ih, mergeStars]
    cases mergeStars rest with
    | nil => rfl
    | cons next others =>
      dsimp only
      split
      · rename_i h
        rw [h.1, h.2, componentsMatch_twoStars_twoStars]
      · rfl

end

/-- The segments match a beginning of the components in full, and what is left satisfies a
condition. -/
def Accepts (ignoreCase : Bool) (segments : List (List Char)) (P : List (List Char) → Prop)
    (components : List (List Char)) : Prop :=
  ∃ before after, components = before ++ after ∧
    componentsMatch ignoreCase segments before = true ∧ P after

section

variable {ignoreCase : Bool} {rest components : List (List Char)} {P : List (List Char) → Prop}

/-- Without segments everything is left. -/
theorem accepts_nil : Accepts ignoreCase [] P components ↔ P components := by
  constructor
  · rintro ⟨before, after, rfl, hmatch, hP⟩
    obtain rfl : before = [] := List.isEmpty_iff.mp hmatch
    exact hP
  · intro hP
    exact ⟨[], components, rfl, rfl, hP⟩

/-- Two stars skip any components. -/
theorem accepts_twoStars :
    Accepts ignoreCase (twoStars :: rest) P components ↔
      ∃ skipped below, components = skipped ++ below ∧ Accepts ignoreCase rest P below := by
  constructor
  · rintro ⟨before, after, rfl, hmatch, hP⟩
    obtain ⟨skipped, below, rfl, hbelow⟩ := componentsMatch_twoStars.mp hmatch
    exact ⟨skipped, below ++ after, List.append_assoc skipped below after, below, after, rfl,
      hbelow, hP⟩
  · rintro ⟨skipped, below, rfl, before, after, rfl, hmatch, hP⟩
    exact ⟨skipped ++ before, after, (List.append_assoc skipped before after).symm,
      componentsMatch_twoStars.mpr ⟨skipped, before, rfl, hmatch⟩, hP⟩

/-- Any other segment takes one component. -/
theorem accepts_glob {segment : List Char} (h : segment ≠ twoStars) :
    Accepts ignoreCase (segment :: rest) P components ↔
      ∃ component below, components = component :: below ∧
        globMatches ignoreCase segment component = true ∧ Accepts ignoreCase rest P below := by
  constructor
  · rintro ⟨before, after, rfl, hmatch, hP⟩
    obtain ⟨component, below, rfl, hglob, hbelow⟩ := (componentsMatch_glob h).mp hmatch
    exact ⟨component, below ++ after, rfl, hglob, below, after, rfl, hbelow, hP⟩
  · rintro ⟨component, below, rfl, hglob, before, after, rfl, hmatch, hP⟩
    exact ⟨component :: before, after, rfl,
      (componentsMatch_glob h).mpr ⟨component, before, rfl, hglob, hmatch⟩, hP⟩

end

end SourceSnapshot.Pattern
