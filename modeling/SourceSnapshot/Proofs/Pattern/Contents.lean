import SourceSnapshot.Proofs.Pattern.Directories

/-!
# Patterns about the contents of a directory

A pattern that ends with two stars behind a slash has the same segments as the pattern that is tied
to the root and ends with that slash. So the expressions of the two differ in nothing but the mark
of the last slash, unless all segments are two stars.
-/

namespace SourceSnapshot.Pattern

/-- The pattern of the directories at a path from the root on. -/
def directoryPattern (path : List Char) : List Char :=
  (if path.head? = some '/' then path else '/' :: path) ++ ['/']

/-- The pattern of the directories at a path starts and ends with a slash. -/
theorem exists_directoryPattern_eq (path : List Char) :
    ∃ inner, directoryPattern path = '/' :: (inner ++ ['/']) := by
  by_cases hhead : path.head? = some '/'
  · obtain ⟨rest, rfl⟩ := List.head?_eq_some_iff.mp hhead
    exact ⟨rest, rfl⟩
  · rw [directoryPattern, if_neg hhead]
    exact ⟨path, rfl⟩

theorem all_slash_directoryPattern (path : List Char) :
    (directoryPattern path).all (· == '/') = path.all (· == '/') := by
  rw [directoryPattern]
  split <;> simp

/-- An empty last segment becomes two stars, and every other one stays. -/
theorem closeDirectory_append_singleton (segments : List (List Char)) (last : List Char) :
    closeDirectory (segments ++ [last]) =
      segments ++ [if last = [] then twoStars else last] := by
  induction segments with
  | nil => rfl
  | cons segment rest ih =>
    have hne : rest ++ [last] ≠ [] := List.append_ne_nil_of_right_ne_nil rest (by simp)
    obtain ⟨next, others, hrest⟩ := List.exists_cons_of_ne_nil hne
    rw [hrest] at ih
    rw [List.cons_append, hrest, closeDirectory, ih, List.cons_append]
    exact List.cons_ne_nil next others

/-- A pattern with something behind other pieces is tied to the root. -/
theorem tie_append_singleton {pieces : List (List Char)} (hne : pieces ≠ []) {last : List Char}
    (hlast : last ≠ []) : tie (pieces ++ [last]) = dropEmptyHead pieces ++ [last] := by
  obtain ⟨c, rest, rfl⟩ := List.exists_cons_of_ne_nil hlast
  match pieces, hne with
  | [] :: _, _ => rfl
  | [_ :: _], _ => rfl
  | (_ :: _) :: _ :: _, _ => simp [tie, dropEmptyHead]

section

variable {path : List Char}

/-- A path without a slash in front has no empty first piece. -/
theorem dropEmptyHead_splitOn (hne : path ≠ []) (hhead : path.head? ≠ some '/') :
    dropEmptyHead (Text.splitOn '/' path) = Text.splitOn '/' path := by
  obtain ⟨c, rest, rfl⟩ := List.exists_cons_of_ne_nil hne
  have hc : c ≠ '/' := fun hc => hhead (hc ▸ rfl)
  obtain ⟨piece, pieces, -, hpieces⟩ := Text.splitOn_cons_of_ne hc rest
  rw [hpieces, dropEmptyHead]
  exact fun _ h => List.cons_ne_nil c piece (List.cons.inj h).1

/-- The segments of the contents of the directories at a path. -/
theorem segmentTexts_contents (path : List Char) :
    segmentTexts (path ++ ['/', '*', '*']) =
      mergeStars (dropEmptyHead (Text.splitOn '/' path) ++ [twoStars]) := by
  have hstars : Text.splitOn '/' twoStars = [twoStars] := rfl
  have hpieces : Text.splitOn '/' (path ++ ['/', '*', '*']) =
      Text.splitOn '/' path ++ [twoStars] := by
    rw [← hstars, ← Text.splitOn_append, twoStars]
  rw [segmentTexts, hpieces, tie_append_singleton (Text.splitOn_ne_nil '/' path) (by decide),
    closeDirectory_append_singleton, if_neg (by decide)]

/-- The segments of the directories at a path are the same. -/
theorem segmentTexts_directoryPattern (hne : path ≠ []) :
    segmentTexts (directoryPattern path) =
      mergeStars (dropEmptyHead (Text.splitOn '/' path) ++ [twoStars]) := by
  have htie : tie (Text.splitOn '/' (directoryPattern path)) =
      dropEmptyHead (Text.splitOn '/' path) ++ [[]] := by
    rw [directoryPattern, Text.splitOn_append]
    by_cases hhead : path.head? = some '/'
    · obtain ⟨rest, rfl⟩ := List.head?_eq_some_iff.mp hhead
      rw [if_pos hhead, Text.splitOn_cons_self]
      rfl
    · rw [if_neg hhead, Text.splitOn_cons_self, dropEmptyHead_splitOn hne hhead]
      rfl
  rw [segmentTexts, htie, closeDirectory_append_singleton, if_pos rfl]

/-- Segments are merged to two stars alone if all of them are two stars. -/
theorem mergeStars_eq_twoStars_iff {segments : List (List Char)} (hne : segments ≠ []) :
    mergeStars segments = [twoStars] ↔ ∀ segment ∈ segments, segment = twoStars := by
  induction segments with
  | nil => exact absurd rfl hne
  | cons segment rest ih =>
    rw [mergeStars, List.forall_mem_cons]
    by_cases hnil : rest = []
    · subst hnil
      simp [mergeStars]
    · rw [← ih hnil]
      obtain ⟨next, others, hrest⟩ := List.exists_cons_of_ne_nil (mergeStars_ne_nil hnil)
      rw [hrest]
      dsimp only
      split
      · rename_i hmerge
        exact (and_iff_right hmerge.1).symm
      · rename_i hkeep
        constructor
        · intro heq
          cases (List.cons.inj heq).2
        · rintro ⟨hsegment, heq⟩
          exact absurd ⟨hsegment, (List.cons.inj heq).1⟩ hkeep

/-- The path is made of two stars alone. -/
def IsStars (path : List Char) : Prop :=
  ∀ segment ∈ dropEmptyHead (Text.splitOn '/' path), segment = twoStars

instance : DecidablePred IsStars := fun path =>
  inferInstanceAs (Decidable (∀ segment ∈ dropEmptyHead (Text.splitOn '/' path),
    segment = twoStars))

/-- The segments of the contents are two stars alone if the path is made of two stars. -/
theorem segmentTexts_contents_eq_twoStars_iff :
    segmentTexts (path ++ ['/', '*', '*']) = [twoStars] ↔ IsStars path := by
  have hne := List.append_ne_nil_of_right_ne_nil (dropEmptyHead (Text.splitOn '/' path))
    (List.cons_ne_nil twoStars [])
  rw [segmentTexts_contents, mergeStars_eq_twoStars_iff hne, List.forall_mem_append]
  exact and_iff_left fun segment hmem => List.mem_singleton.mp hmem

/-- Only two stars alone are read as directories alone. -/
theorem readSegments_eq_directories_iff {texts : List (List Char)} {segments : List Segment}
    (hread : readSegments texts = .ok segments) :
    segments = [.directories] ↔ texts = [twoStars] := by
  constructor
  · rintro rfl
    cases texts with
    | nil => cases hread
    | cons text texts =>
      obtain ⟨segment, rest, hsegment, hrest, heq⟩ := readSegments_cons_eq_ok.mp hread
      obtain ⟨rfl, rfl⟩ := List.cons.inj heq
      rw [eq_twoStars_of_read_eq_directories hsegment, eq_nil_of_readSegments_eq_nil hrest]
  · rintro rfl
    exact (Except.ok.inj hread).symm

end

section

variable {ignoreCase : Bool} {cs : List Char} {segments : List Segment}

theorem search?_anything {c : Char} (hc : c ≠ '\n') :
    (Expression.anywhere .anything).search? ignoreCase (c :: cs) = some cs := by
  simp [Expression.search?, endings, matchFrom, Piece.remainders, afterOne, isLineChar, hc]

/-- It does not matter for a match whether the last slash is a mark. -/
theorem matchFrom_append_closing (front : List Piece) (asksDirectory other : Bool) :
    matchFrom ignoreCase (front ++ [closing asksDirectory]) =
      matchFrom ignoreCase (front ++ [closing other]) := by
  induction front with
  | nil => rw [List.nil_append, List.nil_append, matchFrom_closing, matchFrom_closing]
  | cons piece front ih =>
    funext cs
    rw [List.cons_append, List.cons_append, matchFrom, matchFrom, ih]

theorem reversedAmong?_append_closing (front : List Piece) (asksDirectory : Bool) (before : Nat) :
    reversedAmong? before (front ++ [closing asksDirectory]) = reversedAmong? before front := by
  induction front generalizing before with
  | nil => cases asksDirectory <;> rfl
  | cons piece front ih => simp only [List.cons_append, reversedAmong?, ih]

/-- Segments that end with two stars are searched for alike whether or not a directory is asked for,
unless they are two stars alone. -/
theorem EndWithStars.search?_congr (h : EndWithStars segments)
    (hne : segments ≠ [.directories]) (asksDirectory other : Bool) :
    (Expression.ofSegments asksDirectory segments).search? ignoreCase cs =
      (Expression.ofSegments other segments).search? ignoreCase cs := by
  rcases h.exists_front_ofSegments hne with hpieces | ⟨front, -, hpieces⟩
  · rw [hpieces, hpieces, Expression.search?, Expression.search?, matchFrom_closing,
      matchFrom_closing]
  · rw [hpieces, hpieces, Expression.search?, Expression.search?,
      matchFrom_append_closing front asksDirectory other]

/-- Whether a range is reversed does not depend on whether a directory is asked for. -/
theorem EndWithStars.reversedRange?_congr (h : EndWithStars segments)
    (asksDirectory other : Bool) :
    (Expression.ofSegments asksDirectory segments).reversedRange? =
      (Expression.ofSegments other segments).reversedRange? := by
  by_cases hne : segments = [.directories]
  · subst hne
    cases asksDirectory <;> cases other <;> rfl
  · rcases h.exists_front_ofSegments hne with hpieces | ⟨front, -, hpieces⟩
    · rw [hpieces, hpieces]
      cases asksDirectory <;> cases other <;> rfl
    · rw [hpieces, hpieces, Expression.reversedRange?, Expression.reversedRange?,
        reversedAmong?_append_closing, reversedAmong?_append_closing]

/-- Where the search leaves nothing of a text with a slash before the last one, the expression takes
the whole text. -/
theorem EndWithStars.takesWhole_of_search?_eq_nil (h : EndWithStars segments)
    (hne : segments ≠ [.directories]) {asksDirectory : Bool}
    (hsearch : (Expression.ofSegments asksDirectory segments).search? ignoreCase cs = some [])
    {before rest : List Char} (hcs : cs = before ++ '/' :: rest) (hrest : rest ≠ [])
    (other : Bool) : (Expression.ofSegments other segments).TakesWhole ignoreCase cs := by
  rcases h.exists_front_ofSegments hne with hpieces | ⟨front, hfront, hpieces⟩
  · rw [hpieces] at hsearch
    obtain ⟨first, heq, hfirst⟩ := search?_closing_eq_some_iff.mp hsearch
    -- The slash that is found is the first one, and behind it stands nothing.
    have hbefore : first = before ++ '/' :: rest.dropLast := by
      rw [hcs] at heq
      have hdrop := congrArg List.dropLast heq
      rw [List.dropLast_append_of_ne_nil (List.cons_ne_nil _ _), List.dropLast_concat,
        List.dropLast_cons_of_ne_nil hrest] at hdrop
      exact hdrop.symm
    rw [hbefore] at hfirst
    exact absurd (List.mem_append_right before List.mem_cons_self) hfirst
  · rw [hpieces, Expression.search?, matchFrom_eq_head?] at hsearch
    obtain ⟨taken, htaken⟩ := (mem_remaindersOf_append_closing hfront).mp
      (List.mem_of_head? hsearch)
    rw [hpieces, Expression.TakesWhole, Expression.pieces]
    exact (mem_remaindersOf_append_closing hfront).mpr ⟨taken, htaken⟩

end

end SourceSnapshot.Pattern
