import SourceSnapshot.Proofs.Pattern.Brackets
import SourceSnapshot.Proofs.Pattern.Contents
import SourceSnapshot.Proofs.Pattern.Literals

/-!
# The last segment of a pattern

If the last piece of a pattern is neither empty nor made of two stars, it is the last segment, and
all other pieces are read in the same way whatever it is. So the expression is a sequence of pieces
that depends on the other segments alone, then the parts of the last one, and then an ending.
-/

namespace SourceSnapshot.Pattern

section

variable {last : List Char}

/-- A last segment that is not two stars is not merged. -/
theorem mergeStars_append_singleton (segments : List (List Char)) (hstars : last ≠ twoStars) :
    mergeStars (segments ++ [last]) = mergeStars segments ++ [last] := by
  induction segments with
  | nil => rfl
  | cons segment rest ih =>
    rw [List.cons_append, mergeStars, ih, mergeStars]
    cases mergeStars rest with
    | nil => simp [hstars]
    | cons next others =>
      simp only [List.cons_append]
      split <;> rfl

/-- The other segments do not depend on the last piece. -/
theorem exists_mergeStars_append (pieces : List (List Char)) :
    ∃ texts, ∀ last, last ≠ [] → last ≠ twoStars →
      mergeStars (closeDirectory (tie (pieces ++ [last]))) = texts ++ [last] := by
  have hclose : ∀ (tied : List (List Char)) (last : List Char), last ≠ [] → last ≠ twoStars →
      mergeStars (closeDirectory (tied ++ [last])) = mergeStars tied ++ [last] := by
    intro tied last hne hstars
    rw [closeDirectory_append_singleton, if_neg hne, mergeStars_append_singleton tied hstars]
  by_cases hpieces : pieces = []
  · subst hpieces
    refine ⟨mergeStars [twoStars], fun last hne hstars => ?_⟩
    obtain ⟨c, rest, rfl⟩ := List.exists_cons_of_ne_nil hne
    rw [← hclose _ _ hne hstars, List.nil_append, tie, if_neg hstars]
    · rfl
    · simp
  · refine ⟨mergeStars (dropEmptyHead pieces), fun last hne hstars => ?_⟩
    rw [tie_append_singleton hpieces hne, hclose _ _ hne hstars]

/-- The last text is read behind all others. -/
theorem readSegments_append_singleton_eq_ok {texts : List (List Char)} {segments : List Segment} :
    readSegments (texts ++ [last]) = .ok segments ↔
      ∃ front segment, readSegments texts = .ok front ∧ Segment.read last = .ok segment ∧
        segments = front ++ [segment] := by
  induction texts generalizing segments with
  | nil =>
    rw [List.nil_append, readSegments_cons_eq_ok]
    constructor
    · rintro ⟨segment, rest, hsegment, hrest, rfl⟩
      obtain rfl : [] = rest := Except.ok.inj hrest
      exact ⟨[], segment, rfl, hsegment, rfl⟩
    · rintro ⟨front, segment, hfront, hsegment, rfl⟩
      obtain rfl : [] = front := Except.ok.inj hfront
      exact ⟨segment, [], hsegment, rfl, rfl⟩
  | cons text texts ih =>
    simp only [List.cons_append, readSegments_cons_eq_ok, ih]
    constructor
    · rintro ⟨first, rest, hfirst, ⟨front, segment, hfront, hsegment, rfl⟩, rfl⟩
      exact ⟨first :: front, segment, ⟨first, front, hfirst, hfront, rfl⟩, hsegment, rfl⟩
    · rintro ⟨front, segment, ⟨first, rest, hfirst, hrest, rfl⟩, hsegment, rfl⟩
      exact ⟨first, rest ++ [segment], hfirst, ⟨rest, segment, hrest, hsegment, rfl⟩, rfl⟩

end

/-- The pieces of the other segments do not depend on the parts of the last one. -/
theorem exists_innerPieces_append_glob (asksDirectory joined : Bool) (segments : List Segment) :
    ∃ front, .ending ∉ front ∧ ∀ parts,
      innerPieces asksDirectory joined (segments ++ [.glob parts]) =
        front ++ (parts.map Atom.piece ++ [.ending]) := by
  have hslash : ∀ joined : Bool, Piece.ending ∉ (if joined then [Piece.slash] else []) := by
    intro joined
    cases joined <;> simp
  induction segments generalizing joined with
  | nil =>
    refine ⟨if joined then [.slash] else [], hslash joined, fun parts => ?_⟩
    simp [innerPieces_cons, Segment.pieces, innerPieces]
  | cons segment rest ih =>
    obtain ⟨front, hfront, hpieces⟩ := ih true
    have hne : ∀ parts, rest ++ [.glob parts] ≠ [] := by simp
    by_cases hdirectories : segment = .directories
    · subst hdirectories
      refine ⟨.innerDirectories :: front, by simpa using hfront, fun parts => ?_⟩
      rw [List.cons_append, innerPieces_directories _ _ (hne parts), hpieces, List.cons_append]
    · refine ⟨(if joined then [.slash] else []) ++ (segment.pieces ++ front), ?_, fun parts => ?_⟩
      · simp only [List.mem_append, not_or]
        exact ⟨hslash joined, ending_notMem_pieces segment, hfront⟩
      · rw [List.cons_append, innerPieces_cons_of_ne_nil _ _ hdirectories (hne parts), hpieces]
        simp only [List.append_assoc]

/-- The expression of segments of which the last one is a glob goes from the start of the path to an
ending behind the glob. -/
theorem exists_ofSegments_append_glob (asksDirectory : Bool) (segments : List Segment) :
    ∃ front, .ending ∉ front ∧ ∀ parts,
      Expression.ofSegments asksDirectory (segments ++ [.glob parts]) =
        .fromStart (front ++ (parts.map Atom.piece ++ [.ending])) := by
  obtain ⟨front, hfront, hpieces⟩ := exists_innerPieces_append_glob asksDirectory false segments
  cases segments with
  | nil => exact ⟨front, hfront, fun parts => congrArg Expression.fromStart (hpieces parts)⟩
  | cons segment rest =>
    by_cases hdirectories : segment = .directories
    · subst hdirectories
      obtain ⟨front, hfront, hpieces⟩ := exists_innerPieces_append_glob asksDirectory false rest
      refine ⟨.leadingDirectories :: front, by simpa using hfront, fun parts => ?_⟩
      have hlast : ∀ {others : List Segment}, rest ++ [.glob parts] = others →
          others.getLast? = some (.glob parts) := by
        rintro others rfl
        simp
      rw [List.cons_append, ofSegments_directories, hpieces, List.cons_append]
      · exact fun heq => by simpa using hlast heq
      · exact fun heq => by simpa using hlast heq
      · exact fun heq => by simpa using hlast heq
    · refine ⟨front, hfront, fun parts => ?_⟩
      rw [List.cons_append, ofSegments_of_ne hdirectories, ← hpieces, List.cons_append]

/-- A space behind a backslash that can be read is one more literal at the end of the expression. -/
theorem exists_ofSegments_append_space (asksDirectory : Bool) {pattern : List Char}
    {segments spaced : List Segment}
    (hread : readSegments (segmentTexts (pattern ++ ['\\'])) = .ok segments)
    (hspaced : readSegments (segmentTexts (pattern ++ ['\\', ' '])) = .ok spaced) :
    ∃ front, .ending ∉ front ∧
      Expression.ofSegments asksDirectory segments = .fromStart (front ++ [.ending]) ∧
      Expression.ofSegments asksDirectory spaced =
        .fromStart (front ++ [.literal ' ', .ending]) := by
  obtain ⟨pieces, -, last, -, -, hpieces⟩ := Text.exists_splitOn_append '/' pattern
  obtain ⟨texts, htexts⟩ := exists_mergeStars_append pieces
  -- With a backslash in it the last piece is read as a glob.
  have hsegments : ∀ {behind segments}, '/' ∉ behind →
      readSegments (segmentTexts (pattern ++ '\\' :: behind)) = .ok segments →
      ∃ others parts, readSegments texts = .ok others ∧ IsGlob (last ++ '\\' :: behind) parts ∧
        segments = others ++ [.glob parts] := by
    intro behind segments hbehind hread
    have hne : ∀ stars : List Char, '\\' ∉ stars → last ++ '\\' :: behind ≠ stars := by
      rintro stars hstars rfl
      exact hstars (by simp)
    rw [segmentTexts, hpieces _ (by simpa using hbehind),
      htexts _ (hne [] (by decide)) (hne twoStars (by decide))] at hread
    obtain ⟨others, segment, hothers, hsegment, rfl⟩ :=
      readSegments_append_singleton_eq_ok.mp hread
    rcases read_eq_ok_of_ne (hne twoStars (by decide)) hsegment with
      ⟨hstar, -⟩ | ⟨-, parts, hparts, rfl⟩
    · exact absurd hstar (hne ['*'] (by decide))
    · exact ⟨others, parts, hothers, atoms_eq_ok_iff.mp hparts, rfl⟩
  obtain ⟨others, parts, hothers, hparts, rfl⟩ := hsegments (by decide) hread
  obtain ⟨others', parts', hothers', hparts', rfl⟩ := hsegments (by decide) hspaced
  obtain rfl : others = others' := Except.ok.inj (hothers.symm.trans hothers')
  have hspace := hparts.append (.literal (show ' ' ∉ ['\\', '*', '?', '['] by decide) .nil)
  rw [List.append_assoc] at hspace
  obtain rfl : parts ++ [.literal ' '] = parts' :=
    Except.ok.inj (hspace.atoms_eq.symm.trans hparts'.atoms_eq)
  obtain ⟨front, hfront, hall⟩ := exists_ofSegments_append_glob asksDirectory others
  refine ⟨front ++ parts.map Atom.piece, ?_, by simp [hall], by simp [hall, Atom.piece]⟩
  rw [List.mem_append, not_or]
  exact ⟨hfront, ending_notMem_pieces (.glob parts)⟩

section

variable {ignoreCase : Bool} {front more : List Piece} (hfront : .ending ∉ front)

include hfront

/-- Pieces without an ending take a beginning of the text, and the pieces behind them fit what is
left. -/
theorem fits_append_iff {cs : List Char} :
    Fits ignoreCase (front ++ more) cs ↔
      ∃ taken rest, cs = taken ++ rest ∧ [] ∈ remaindersOf ignoreCase front taken ∧
        Fits ignoreCase more rest := by
  rw [fits_append]
  constructor
  · rintro ⟨rest, hrest, hmore⟩
    obtain ⟨taken, rfl⟩ := suffix_of_mem_remaindersOf hrest
    exact ⟨taken, rest, rfl, mem_remaindersOf_of_append hfront hrest, hmore⟩
  · rintro ⟨taken, rest, rfl, htaken, hmore⟩
    exact ⟨rest, append_mem_remaindersOf hfront htaken rest, hmore⟩

/-- With an ending behind them they fit some text if they take one. -/
theorem exists_fits_ending_iff :
    (∃ cs, Fits ignoreCase (front ++ [.ending]) cs) ↔
      ∃ taken, [] ∈ remaindersOf ignoreCase front taken := by
  simp only [fits_append_iff hfront]
  constructor
  · rintro ⟨cs, taken, rest, rfl, htaken, -⟩
    exact ⟨taken, htaken⟩
  · rintro ⟨taken, htaken⟩
    exact ⟨taken, taken, [], by simp, htaken, fits_ending.mpr (Or.inr rfl)⟩

/-- A space in front of the ending does not change that. -/
theorem exists_fits_space_iff :
    (∃ cs, Fits ignoreCase (front ++ [.literal ' ', .ending]) cs) ↔
      ∃ taken, [] ∈ remaindersOf ignoreCase front taken := by
  simp only [fits_append_iff hfront]
  constructor
  · rintro ⟨cs, taken, rest, rfl, htaken, -⟩
    exact ⟨taken, htaken⟩
  · rintro ⟨taken, htaken⟩
    refine ⟨taken ++ [' '], taken, [' '], rfl, htaken, ?_⟩
    exact fits_literal.mpr ⟨' ', [], rfl, sameChar_self ' ',
      fits_ending.mpr (Or.inr rfl)⟩

/-- A space in front of the ending changes which texts are fitted, unless there are none. -/
theorem fits_space_congr_iff :
    (∀ cs, Fits ignoreCase (front ++ [.literal ' ', .ending]) cs ↔
        Fits ignoreCase (front ++ [.ending]) cs) ↔
      ∀ taken, [] ∉ remaindersOf ignoreCase front taken := by
  constructor
  · -- A text that is taken fits with the ending, so with the space a shorter one is taken.
    intro hsame taken htaken
    induction hn : taken.length using Nat.strongRecOn generalizing taken with
    | ind n ih =>
      have hfits : Fits ignoreCase (front ++ [.ending]) taken :=
        (fits_append_iff hfront).mpr
          ⟨taken, [], by simp, htaken, fits_ending.mpr (Or.inr rfl)⟩
      obtain ⟨shorter, rest, rfl, hshorter, hspace⟩ :=
        (fits_append_iff hfront).mp ((hsame taken).mpr hfits)
      obtain ⟨c, left, rfl, -, -⟩ := fits_literal.mp hspace
      refine ih shorter.length ?_ shorter hshorter rfl
      simp at hn
      omega
  · intro hnone cs
    refine iff_of_false ?_ ?_
    · intro h
      obtain ⟨taken, htaken⟩ := (exists_fits_space_iff hfront).mp ⟨cs, h⟩
      exact hnone taken htaken
    · intro h
      obtain ⟨taken, htaken⟩ := (exists_fits_ending_iff hfront).mp ⟨cs, h⟩
      exact hnone taken htaken

end

end SourceSnapshot.Pattern
