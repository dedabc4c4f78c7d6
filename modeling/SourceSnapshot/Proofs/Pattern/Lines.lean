import SourceSnapshot.Proofs.Pattern.Expressions
import SourceSnapshot.Proofs.Text.Pieces

/-!
# The segments of a pattern

The segments that an expression is made from are those of the pattern, with two stars behind them if
it asks for a directory, and merged. What they match a beginning of is what the segments of the
pattern themselves match a beginning of.
-/

namespace SourceSnapshot.Pattern

/-- Merged segments are segments of the list. -/
theorem mem_of_mem_mergeStars {segments : List (List Char)} {segment : List Char}
    (h : segment ∈ mergeStars segments) : segment ∈ segments := by
  induction segments with
  | nil => exact h
  | cons first rest ih =>
    rw [mergeStars] at h
    cases hrest : mergeStars rest with
    | nil =>
      rw [hrest] at h
      exact List.mem_cons.mpr (Or.inl (List.mem_singleton.mp h))
    | cons next others =>
      simp only [hrest] at h ih
      split at h
      · exact List.mem_cons_of_mem first (ih h)
      · rcases List.mem_cons.mp h with rfl | h
        · exact List.mem_cons_self ..
        · exact List.mem_cons_of_mem first (ih h)

/-- There are merged segments where there are segments. -/
theorem mergeStars_ne_nil {segments : List (List Char)} (h : segments ≠ []) :
    mergeStars segments ≠ [] := by
  obtain ⟨first, rest, rfl⟩ := List.exists_cons_of_ne_nil h
  rw [mergeStars]
  cases mergeStars rest with
  | nil => exact List.cons_ne_nil first []
  | cons next others =>
    dsimp only
    split
    · exact List.cons_ne_nil next others
    · exact List.cons_ne_nil first _

/-- Merging keeps the last segment. -/
theorem getLast?_mergeStars (segments : List (List Char)) :
    (mergeStars segments).getLast? = segments.getLast? := by
  induction segments with
  | nil => rfl
  | cons first rest ih =>
    rw [mergeStars]
    cases rest with
    | nil => rfl
    | cons second rest =>
      rw [List.getLast?_cons_cons, ← ih]
      have hne := mergeStars_ne_nil (List.cons_ne_nil second rest)
      cases hrest : mergeStars (second :: rest) with
      | nil => exact absurd hrest hne
      | cons next others =>
        dsimp only
        split
        · rfl
        · rw [List.getLast?_cons_cons]

/-- No two merged segments in a row are two stars. -/
theorem isChain_mergeStars (segments : List (List Char)) :
    (mergeStars segments).IsChain fun segment next => ¬(segment = twoStars ∧ next = twoStars) := by
  induction segments with
  | nil => exact List.isChain_nil
  | cons first rest ih =>
    rw [mergeStars]
    cases hrest : mergeStars rest with
    | nil => exact List.isChain_singleton first
    | cons next others =>
      rw [hrest] at ih
      dsimp only
      split
      · exact ih
      · rename_i hmerge
        exact List.isChain_cons_cons.mpr ⟨hmerge, ih⟩

/-- Closing puts two stars in the place of an empty last segment. -/
theorem closeDirectory_eq {segments : List (List Char)} (h : segments ≠ []) :
    closeDirectory segments =
      dropEmptyLast segments ++ if segments.getLast? = some [] then [twoStars] else [] := by
  induction segments with
  | nil => exact absurd rfl h
  | cons first rest ih =>
    cases rest with
    | nil =>
      by_cases hfirst : first = []
      · simp [closeDirectory, dropEmptyLast, hfirst]
      · simp [closeDirectory, dropEmptyLast, hfirst]
    | cons second rest =>
      rw [closeDirectory, ih (List.cons_ne_nil second rest), dropEmptyLast, dropEmptyLast,
        List.getLast?_cons_cons]
      · split
        · rw [List.dropLast_cons_of_ne_nil (List.cons_ne_nil second rest), List.cons_append]
        · rw [List.append_nil, List.append_nil]
      · exact List.cons_ne_nil second rest

/-- A closed list of segments does not end with an empty one. -/
theorem getLast?_closeDirectory_ne (segments : List (List Char)) :
    (closeDirectory segments).getLast? ≠ some [] := by
  cases segments with
  | nil => simp [closeDirectory]
  | cons first rest =>
    rw [closeDirectory_eq (List.cons_ne_nil first rest), dropEmptyLast]
    split
    · rw [List.getLast?_concat]
      decide
    · rename_i hlast
      rwa [List.append_nil]

section

variable {pattern : List Char}

/-- A pattern that is not made of slashes alone has no slash, or one at its end only, or one with
something behind it. -/
theorem cases_of_all_slash_eq_false (h : pattern.all (· == '/') = false) :
    (pattern ≠ [] ∧ '/' ∉ pattern) ∨
      (∃ first, pattern = first ++ ['/'] ∧ first ≠ [] ∧ '/' ∉ first) ∨
      ∃ first rest, pattern = first ++ '/' :: rest ∧ rest ≠ [] ∧ '/' ∉ first := by
  by_cases hslash : '/' ∈ pattern
  · obtain ⟨first, rest, rfl, hfirst⟩ := List.eq_append_cons_of_mem hslash
    right
    by_cases hrest : rest = []
    · subst hrest
      refine Or.inl ⟨first, rfl, ?_, hfirst⟩
      rintro rfl
      cases h
    · exact Or.inr ⟨first, rest, rfl, hrest, hfirst⟩
  · left
    refine ⟨?_, hslash⟩
    rintro rfl
    cases h

/-- A pattern with something behind a slash is tied to the root. -/
theorem tie_eq_dropEmptyHead (first : List Char) {rest : List Char} (h : rest ≠ []) :
    tie (first :: Text.splitOn '/' rest) = dropEmptyHead (first :: Text.splitOn '/' rest) := by
  match first, hs : Text.splitOn '/' rest with
  | [], _ => rfl
  | _ :: _, [] => exact absurd hs (Text.splitOn_ne_nil '/' rest)
  | _ :: _, [[]] => exact absurd hs (Text.splitOn_ne_singleton_nil h)
  | _ :: _, [_ :: _] => rfl
  | _ :: _, _ :: _ :: _ => simp [tie, dropEmptyHead]

theorem getLast?_dropEmptyHead (first : List Char) {rest : List (List Char)} (h : rest ≠ []) :
    (dropEmptyHead (first :: rest)).getLast? = rest.getLast? := by
  cases first with
  | nil => rfl
  | cons c first => exact List.getLast?_cons_of_ne_nil h

/-- The last piece behind a slash is empty if the pattern ends with one. -/
theorem getLast?_dropEmptyHead_eq_nil_iff (first : List Char) {rest : List Char}
    (h : rest ≠ []) :
    (dropEmptyHead (first :: Text.splitOn '/' rest)).getLast? = some [] ↔
      Text.endsWith (first ++ '/' :: rest) ['/'] = true := by
  rw [getLast?_dropEmptyHead first (Text.splitOn_ne_nil '/' rest),
    Text.getLast?_splitOn_eq_nil_iff h, Text.endsWith_singleton, List.getLast?_append,
    List.getLast?_cons_of_ne_nil h]
  cases hlast : rest.getLast? with
  | none => exact absurd (List.getLast?_eq_none_iff.mp hlast) h
  | some c => rfl

/-- Something is left behind a slash if an empty first piece is dropped. -/
theorem dropEmptyHead_ne_nil (first : List Char) {rest : List (List Char)} (h : rest ≠ []) :
    dropEmptyHead (first :: rest) ≠ [] := by
  intro hnil
  have hlast := getLast?_dropEmptyHead first h
  rw [hnil] at hlast
  exact h (List.getLast?_eq_none_iff.mp hlast.symm)

theorem not_endsWith_slash (h : '/' ∉ pattern) : ¬Text.endsWith pattern ['/'] = true :=
  fun hends => h (List.mem_of_getLast? (Text.endsWith_singleton.mp hends))

/-- A pattern without a slash may match at any depth. -/
theorem patternSegments_of_notMem (hne : pattern ≠ []) (h : '/' ∉ pattern) :
    patternSegments pattern = [twoStars, pattern] := by
  have hdrop : '/' ∉ pattern.dropLast := fun hmem => h (List.mem_of_mem_dropLast hmem)
  obtain ⟨c, others, rfl⟩ := List.exists_cons_of_ne_nil hne
  rw [patternSegments, Text.splitOn_of_notMem h, if_neg hdrop]
  simp [dropEmptyHead, dropEmptyLast]

/-- A slash at the end does not tie a pattern to a place. -/
theorem patternSegments_append_slash {name : List Char} (hne : name ≠ []) (h : '/' ∉ name) :
    patternSegments (name ++ ['/']) = [twoStars, name] := by
  have hpieces : Text.splitOn '/' (name ++ ['/']) = [name, []] := Text.splitOn_append_cons h []
  obtain ⟨c, others, rfl⟩ := List.exists_cons_of_ne_nil hne
  rw [patternSegments, hpieces, List.dropLast_concat, if_neg h]
  simp [dropEmptyHead, dropEmptyLast]

/-- A pattern with something behind a slash has its pieces as segments, but for empty ones at its
ends. -/
theorem patternSegments_append_cons {first rest : List Char} (hrest : rest ≠ [])
    (hfirst : '/' ∉ first) :
    patternSegments (first ++ '/' :: rest) =
      dropEmptyLast (dropEmptyHead (first :: Text.splitOn '/' rest)) := by
  have hdrop : '/' ∈ (first ++ '/' :: rest).dropLast := by
    rw [List.dropLast_append_of_ne_nil (List.cons_ne_nil '/' rest),
      List.dropLast_cons_of_ne_nil hrest]
    simp
  rw [patternSegments, Text.splitOn_append_cons hfirst, if_pos hdrop]

/-- The segments of an expression are those of the pattern, with two stars behind them if it asks
for a directory, and merged. -/
theorem segmentTexts_eq (h : pattern.all (· == '/') = false) :
    segmentTexts pattern = mergeStars (patternSegments pattern ++
      if Text.endsWith pattern ['/'] = true then [twoStars] else []) := by
  rcases cases_of_all_slash_eq_false h with ⟨hne, hslash⟩ | ⟨name, rfl, hne, hname⟩ |
    ⟨first, rest, rfl, hrest, hfirst⟩
  · rw [segmentTexts, Text.splitOn_of_notMem hslash, patternSegments_of_notMem hne hslash,
      if_neg (not_endsWith_slash hslash)]
    by_cases hstars : pattern = twoStars
    · rw [hstars]
      decide
    · simp [tie, hstars, closeDirectory, hne]
  · have hends : Text.endsWith (name ++ ['/']) ['/'] = true :=
      Text.endsWith_singleton.mpr List.getLast?_concat
    have hpieces : Text.splitOn '/' (name ++ ['/']) = [name, []] :=
      Text.splitOn_append_cons hname []
    rw [segmentTexts, hpieces, patternSegments_append_slash hne hname, if_pos hends]
    by_cases hstars : name = twoStars
    · rw [hstars]
      decide
    · obtain ⟨c, others, rfl⟩ := List.exists_cons_of_ne_nil hne
      simp [tie, hstars, closeDirectory]
  · rw [segmentTexts, Text.splitOn_append_cons hfirst, patternSegments_append_cons hrest hfirst,
      tie_eq_dropEmptyHead first hrest, closeDirectory_eq]
    · simp only [getLast?_dropEmptyHead_eq_nil_iff first hrest]
    · exact dropEmptyHead_ne_nil first (Text.splitOn_ne_nil '/' rest)

/-- A pattern whose segments can be read as globs: every opening bracket in it is escaped, and none
of its pieces is made of three or more stars. -/
structure IsPlain (pattern : List Char) : Prop where
  bracketsEscaped : bracketsEscaped pattern = true
  notStars : ∀ piece ∈ Text.splitOn '/' pattern, ¬(3 ≤ piece.length ∧ ∀ c ∈ piece, c = '*')

/-- A pattern is plain if its brackets and its pieces pass a test. -/
theorem isPlain_iff : IsPlain pattern ↔ bracketsEscaped pattern = true ∧
    (Text.splitOn '/' pattern).all
      (fun piece => !(decide (3 ≤ piece.length) && piece.all (· == '*'))) = true := by
  simp only [List.all_eq_true, Bool.not_eq_true', ← Bool.not_eq_true, Bool.and_eq_true,
    decide_eq_true_eq, beq_iff_eq]
  exact ⟨fun h => ⟨h.bracketsEscaped, h.notStars⟩, fun h => ⟨h.1, h.2⟩⟩

instance : Decidable (IsPlain pattern) := decidable_of_iff' _ isPlain_iff

/-- Brackets that are escaped in a pattern are escaped in each of its pieces. -/
theorem bracketsEscaped_of_mem_splitOn {pattern : List Char}
    (h : bracketsEscaped pattern = true) :
    ∀ piece ∈ Text.splitOn '/' pattern, bracketsEscaped piece = true := by
  fun_induction bracketsEscaped pattern with
  | case1 d rest ih =>
    by_cases hd : d = '/'
    · subst hd
      have hpieces : Text.splitOn '/' ('\\' :: '/' :: rest) = ['\\'] :: Text.splitOn '/' rest :=
        Text.splitOn_append_cons (show '/' ∉ ['\\'] by decide) rest
      rw [hpieces]
      exact List.forall_mem_cons.mpr ⟨rfl, ih h⟩
    · obtain ⟨piece, pieces, hrest, hcons⟩ := Text.splitOn_cons_of_ne hd rest
      have hpieces : Text.splitOn '/' ('\\' :: d :: rest) = ('\\' :: d :: piece) :: pieces := by
        obtain ⟨next, others, hnext, hall⟩ :=
          Text.splitOn_cons_of_ne (show '\\' ≠ '/' by decide) (d :: rest)
        rw [hcons] at hnext
        obtain ⟨rfl, rfl⟩ := List.cons.inj hnext
        exact hall
      have hall := ih h
      rw [hrest] at hall
      rw [hpieces]
      obtain ⟨hpiece, hothers⟩ := List.forall_mem_cons.mp hall
      exact List.forall_mem_cons.mpr ⟨hpiece, hothers⟩
  | case2 rest => cases h
  | case3 c rest hescape hbracket ih =>
    have hall := ih h
    by_cases hc : c = '/'
    · subst hc
      rw [Text.splitOn_cons_self]
      exact List.forall_mem_cons.mpr ⟨rfl, hall⟩
    · obtain ⟨piece, pieces, hrest, hcons⟩ := Text.splitOn_cons_of_ne hc rest
      rw [hrest] at hall
      rw [hcons]
      obtain ⟨hpiece, hothers⟩ := List.forall_mem_cons.mp hall
      refine List.forall_mem_cons.mpr ⟨?_, hothers⟩
      -- A backslash that escapes nothing is the last character.
      cases rest with
      | nil =>
        obtain rfl : [] = piece := (List.cons.inj hrest).1
        simp [bracketsEscaped]
      | cons d more =>
        have hopen : c ≠ '\\' := fun hopen => hescape d more hopen rfl
        simp [bracketsEscaped, hopen, hpiece]
  | case4 => decide

theorem isSegmentText_twoStars : IsSegmentText twoStars :=
  ⟨by decide, by decide, by decide⟩

/-- Dropping empty pieces at the ends leaves pieces. -/
theorem mem_of_mem_dropEmpty {pieces : List (List Char)} {piece : List Char}
    (h : piece ∈ dropEmptyLast (dropEmptyHead pieces)) : piece ∈ pieces := by
  have hhead : piece ∈ dropEmptyHead pieces := by
    rw [dropEmptyLast] at h
    split at h
    · exact List.mem_of_mem_dropLast h
    · exact h
  rw [dropEmptyHead.eq_def] at hhead
  split at hhead
  · exact List.mem_cons_of_mem [] hhead
  · exact hhead

/-- The segments of a pattern are pieces of it, and two stars. -/
theorem mem_splitOn_of_mem_patternSegments {pattern segment : List Char}
    (h : segment ∈ patternSegments pattern) :
    segment = twoStars ∨ segment ∈ Text.splitOn '/' pattern := by
  rw [patternSegments] at h
  split at h
  · exact Or.inr (mem_of_mem_dropEmpty h)
  · exact (List.mem_cons.mp h).imp_right mem_of_mem_dropEmpty

/-- The segments of an expression are pieces of the pattern, and two stars. -/
theorem mem_splitOn_of_mem_segmentTexts (h : pattern.all (· == '/') = false) {text : List Char}
    (htext : text ∈ segmentTexts pattern) : text = twoStars ∨ text ∈ Text.splitOn '/' pattern := by
  rw [segmentTexts_eq h] at htext
  rcases List.mem_append.mp (mem_of_mem_mergeStars htext) with htext | htext
  · exact mem_splitOn_of_mem_patternSegments htext
  · split at htext
    · exact Or.inl (List.mem_singleton.mp htext)
    · cases htext

theorem slash_notMem_of_mem_segmentTexts (h : pattern.all (· == '/') = false)
    {text : List Char} (htext : text ∈ segmentTexts pattern) : '/' ∉ text := by
  rcases mem_splitOn_of_mem_segmentTexts h htext with rfl | hpiece
  · decide
  · exact Text.notMem_of_mem_splitOn hpiece

theorem getLast?_segmentTexts_ne (pattern : List Char) :
    (segmentTexts pattern).getLast? ≠ some [] := by
  rw [segmentTexts, getLast?_mergeStars]
  exact getLast?_closeDirectory_ne _

/-- The texts of the segments of an expression can stand in a pattern. -/
theorem areSegmentTexts_segmentTexts (h : pattern.all (· == '/') = false)
    (hplain : IsPlain pattern) : AreSegmentTexts (segmentTexts pattern) := by
  refine ⟨fun text htext => ?_, isChain_mergeStars _, getLast?_segmentTexts_ne pattern⟩
  rcases mem_splitOn_of_mem_segmentTexts h htext with rfl | hpiece
  · exact isSegmentText_twoStars
  · exact ⟨Text.notMem_of_mem_splitOn hpiece,
      bracketsEscaped_of_mem_splitOn hplain.bracketsEscaped text hpiece,
      hplain.notStars text hpiece⟩

/-- There is a segment. -/
theorem patternSegments_ne_nil (h : pattern.all (· == '/') = false) :
    patternSegments pattern ≠ [] := by
  rcases cases_of_all_slash_eq_false h with ⟨hne, hslash⟩ | ⟨name, rfl, hne, hname⟩ |
    ⟨first, rest, rfl, hrest, hfirst⟩
  · rw [patternSegments_of_notMem hne hslash]
    exact List.cons_ne_nil twoStars _
  · rw [patternSegments_append_slash hne hname]
    exact List.cons_ne_nil twoStars _
  · rw [patternSegments_append_cons hrest hfirst, dropEmptyLast]
    split
    · rename_i hlast
      intro hnil
      have hall := List.dropLast_append_getLast? [] hlast
      rw [hnil, List.nil_append] at hall
      cases first with
      | nil => exact Text.splitOn_ne_singleton_nil hrest hall.symm
      | cons c first => cases (List.cons.inj hall).1
    · exact dropEmptyHead_ne_nil first (Text.splitOn_ne_nil '/' rest)

theorem getLast?_segmentTexts_of_endsWith (h : pattern.all (· == '/') = false)
    (hends : Text.endsWith pattern ['/'] = true) :
    (segmentTexts pattern).getLast? = some twoStars := by
  rw [segmentTexts_eq h, getLast?_mergeStars, if_pos hends, List.getLast?_concat]

theorem segmentTexts_ne_nil (h : pattern.all (· == '/') = false) : segmentTexts pattern ≠ [] := by
  rw [segmentTexts_eq h]
  exact mergeStars_ne_nil (List.append_ne_nil_of_left_ne_nil (patternSegments_ne_nil h) _)

/-- A pattern that ends with a slash is not about the contents of a directory. -/
theorem endsWith_contents_eq_false (h : Text.endsWith pattern ['/'] = true) :
    Text.endsWith pattern ['/', '*', '*'] = false := by
  rw [Bool.eq_false_iff]
  intro hstars
  obtain ⟨before, rfl⟩ := List.isSuffixOf_iff_suffix.mp hstars
  rw [Text.endsWith_singleton, List.getLast?_append] at h
  exact absurd (Option.some.inj h) (by decide)

/-- A pattern that is about the contents of a directory ends with two stars as a segment. -/
theorem getLast?_segmentTexts_of_contents (h : pattern.all (· == '/') = false)
    (hends : Text.endsWith pattern ['/', '*', '*'] = true) :
    (segmentTexts pattern).getLast? = some twoStars := by
  have hno : ¬Text.endsWith pattern ['/'] = true := by
    intro hslash
    rw [endsWith_contents_eq_false hslash] at hends
    cases hends
  obtain ⟨before, hbefore⟩ := List.isSuffixOf_iff_suffix.mp hends
  have hlast : (Text.splitOn '/' pattern).getLast? = some twoStars := by
    rw [← hbefore]
    exact Text.getLast?_splitOn_append_cons before (by decide)
  have hslash : '/' ∈ pattern := by simp [← hbefore]
  obtain ⟨first, rest, rfl, hfirst⟩ := List.eq_append_cons_of_mem hslash
  have hrest : rest ≠ [] := by
    rintro rfl
    exact hno (Text.endsWith_singleton.mpr List.getLast?_concat)
  have hne := Text.splitOn_ne_nil '/' rest
  rw [Text.splitOn_append_cons hfirst, List.getLast?_cons_of_ne_nil hne,
    ← getLast?_dropEmptyHead first hne] at hlast
  rw [segmentTexts_eq h, getLast?_mergeStars, if_neg hno, List.append_nil,
    patternSegments_append_cons hrest hfirst, dropEmptyLast, hlast, if_neg (by decide), hlast]

/-- A pattern whose last segment is two stars asks for a directory or for what a directory holds, or
it is two stars alone. -/
theorem of_getLast?_segmentTexts (h : pattern.all (· == '/') = false)
    (hlast : (segmentTexts pattern).getLast? = some twoStars) :
    Text.endsWith pattern ['/'] = true ∨ Text.endsWith pattern ['/', '*', '*'] = true ∨
      segmentTexts pattern = [twoStars] := by
  rcases cases_of_all_slash_eq_false h with ⟨hne, hslash⟩ | ⟨first, rfl, -, -⟩ |
    ⟨first, rest, rfl, hrest, hfirst⟩
  · right
    right
    rw [segmentTexts_eq h, patternSegments_of_notMem hne hslash,
      if_neg (not_endsWith_slash hslash)] at hlast ⊢
    rw [getLast?_mergeStars] at hlast
    have hstars : pattern = twoStars := Option.some.inj hlast
    rw [hstars]
    decide
  · exact Or.inl (Text.endsWith_singleton.mpr List.getLast?_concat)
  · have hpieces := Text.splitOn_append_cons hfirst rest
    have hne := Text.splitOn_ne_nil '/' rest
    by_cases hends : Text.endsWith (first ++ '/' :: rest) ['/'] = true
    · exact Or.inl hends
    · right
      left
      have hnil := mt (getLast?_dropEmptyHead_eq_nil_iff first hrest).mp hends
      rw [segmentTexts, getLast?_mergeStars, hpieces, tie_eq_dropEmptyHead first hrest,
        closeDirectory_eq (dropEmptyHead_ne_nil first hne), dropEmptyLast, if_neg hnil,
        if_neg hnil, List.append_nil, getLast?_dropEmptyHead first hne] at hlast
      rw [Text.endsWith, List.isSuffixOf_iff_suffix]
      rcases Text.eq_or_eq_append_of_getLast?_splitOn hlast with rfl | ⟨before, rfl⟩
      · exact ⟨first, rfl⟩
      · exact ⟨first ++ '/' :: before, by simp [twoStars]⟩

variable {ignoreCase : Bool} {texts components : List (List Char)} {isDir : Bool}

/-- With two stars behind them segments match what they match a beginning of. -/
theorem componentsMatch_append_twoStars :
    componentsMatch ignoreCase (texts ++ [twoStars]) components = true ↔
      Accepts ignoreCase texts (fun _ => True) components := by
  induction texts generalizing components with
  | nil => exact iff_of_true (componentsMatch_stars components) (accepts_nil.mpr trivial)
  | cons text texts ih =>
    rw [List.cons_append]
    by_cases hstars : text = twoStars
    · subst hstars
      simp only [componentsMatch_twoStars, accepts_twoStars, ih]
    · simp only [componentsMatch_glob hstars, accepts_glob hstars, ih]

/-- Segments of two stars alone match everything. -/
theorem componentsMatch_of_forall_eq_twoStars (hne : texts ≠ [])
    (h : ∀ text ∈ texts, text = twoStars) : componentsMatch ignoreCase texts components = true := by
  induction texts generalizing components with
  | nil => exact absurd rfl hne
  | cons text texts ih =>
    obtain ⟨rfl, hothers⟩ := List.forall_mem_cons.mp h
    by_cases hnil : texts = []
    · subst hnil
      exact componentsMatch_stars components
    · exact componentsMatch_twoStars.mpr ⟨[], components, rfl, ih hnil hothers⟩

/-- Two stars behind segments that ask for a directory ask for nothing more. -/
theorem matchesBeginning_append_twoStars (hne : texts ≠ []) :
    MatchesBeginning ignoreCase true (texts ++ [twoStars]) components isDir ↔
      MatchesBeginning ignoreCase true texts components isDir := by
  constructor
  · rintro ⟨before, after, hbefore, rfl, hend, hmatch⟩
    obtain ⟨matched, left, rfl, hmatched, -⟩ := componentsMatch_append_twoStars.mp hmatch
    by_cases hnil : matched = []
    · subst hnil
      have hstars := eq_twoStars_of_componentsMatch_nil hmatched
      exact ⟨_, after, hbefore, rfl, hend, componentsMatch_of_forall_eq_twoStars hne hstars⟩
    · refine ⟨matched, left ++ after, hnil, List.append_assoc matched left after, ?_, hmatched⟩
      intro ha
      exact (hend ha).imp_left fun hafter => List.append_ne_nil_of_right_ne_nil left hafter
  · rintro ⟨before, after, hbefore, rfl, hend, hmatch⟩
    refine ⟨before, after, hbefore, rfl, hend, componentsMatch_append_twoStars.mpr ?_⟩
    exact ⟨before, [], (List.append_nil before).symm, hmatch, trivial⟩

/-- The segments of an expression match a beginning if those of the pattern do. -/
theorem matchesBeginning_segmentTexts (h : pattern.all (· == '/') = false) :
    MatchesBeginning ignoreCase (Text.endsWith pattern ['/']) (segmentTexts pattern) components
        isDir ↔
      MatchesBeginning ignoreCase (Text.endsWith pattern ['/']) (patternSegments pattern)
        components isDir := by
  rw [segmentTexts_eq h]
  simp only [MatchesBeginning, componentsMatch_mergeStars]
  by_cases hends : Text.endsWith pattern ['/'] = true
  · rw [if_pos hends, hends]
    exact matchesBeginning_append_twoStars (patternSegments_ne_nil h)
  · rw [if_neg hends, List.append_nil]

/-- The expression of a plain pattern that is not about the contents of a directory is found in the
text of a path if the segments of the pattern match a beginning of its components. -/
theorem isFound_ofSegments_iff (h : pattern.all (· == '/') = false) (hplain : IsPlain pattern)
    (hcontents : Text.endsWith pattern ['/', '*', '*'] = false) {segments : List Segment}
    (hread : readSegments (segmentTexts pattern) = .ok segments)
    (hcomponents : ∀ c ∈ components, IsComponent c) (hne : components ≠ []) :
    (Expression.ofSegments (Text.endsWith pattern ['/']) segments).isFound ignoreCase
        (textFrom components isDir) = true ↔
      MatchesBeginning ignoreCase (Text.endsWith pattern ['/']) (patternSegments pattern)
        components isDir := by
  rw [isFound_ofSegments (segmentTexts_ne_nil h) (areSegmentTexts_segmentTexts h hplain) hread
    (getLast?_segmentTexts_of_endsWith h) ?_ hcomponents hne, matchesBeginning_segmentTexts h]
  intro hlast
  rcases of_getLast?_segmentTexts h hlast with hends | hends | hstars
  · exact Or.inl hends
  · rw [hcontents] at hends
    cases hends
  · exact Or.inr hstars

end

end SourceSnapshot.Pattern
