import SourceSnapshot.Proofs.Pattern.Extension

/-!
# Expressions that are closed by a slash

Two stars at the end of a pattern leave a slash as the last piece of its expression. Such an
expression does not look behind that slash. So it is found in the path of a file or directory
exactly if it is found in the path of a directory that the path starts with.
-/

namespace SourceSnapshot.Pattern

/-- The piece that two stars at the end of a pattern leave. -/
def closing (asksDirectory : Bool) : Piece := if asksDirectory then .directoryMark else .slash

theorem closing_ne_ending (asksDirectory : Bool) : closing asksDirectory ≠ .ending := by
  cases asksDirectory <;> exact Piece.noConfusion

/-- The pieces of a segment have no ending among them. -/
theorem ending_notMem_pieces (segment : Segment) : .ending ∉ segment.pieces := by
  cases segment with
  | directories | name => simp [Segment.pieces]
  | glob atoms =>
    intro hmem
    obtain ⟨atom, -, hatom⟩ := List.mem_map.mp hmem
    cases atom <;> cases hatom

/-- Segments of which the last one is two stars. -/
inductive EndWithStars : List Segment → Prop where
  | last : EndWithStars [.directories]
  | directories {rest : List Segment} (h : EndWithStars rest) : EndWithStars (.directories :: rest)
  | segment {segment : Segment} {rest : List Segment} (hsegment : segment ≠ .directories)
    (h : EndWithStars rest) : EndWithStars (segment :: rest)

section

variable {segments rest : List Segment}

theorem EndWithStars.ne_nil (h : EndWithStars segments) : segments ≠ [] := by
  cases h <;> exact List.cons_ne_nil _ _

/-- Texts that end with two stars are read as segments that do. -/
theorem endWithStars_of_readSegments {texts : List (List Char)}
    (hread : readSegments texts = .ok segments) (hlast : texts.getLast? = some twoStars) :
    EndWithStars segments := by
  induction texts generalizing segments with
  | nil => cases hlast
  | cons text texts ih =>
    obtain ⟨segment, rest, hsegment, hrest, rfl⟩ := readSegments_cons_eq_ok.mp hread
    by_cases hnil : texts = []
    · subst hnil
      obtain rfl : [] = rest := Except.ok.inj hrest
      obtain rfl : text = twoStars := Option.some.inj hlast
      obtain rfl : Segment.directories = segment := Except.ok.inj hsegment
      exact .last
    · rw [List.getLast?_cons_of_ne_nil hnil] at hlast
      have hinner := ih hrest hlast
      by_cases hdirectories : segment = .directories
      · subst hdirectories
        exact hinner.directories
      · exact hinner.segment hdirectories

/-- Behind a segment with others there is no ending. -/
theorem innerPieces_cons_of_ne_nil (asksDirectory joined : Bool) {segment : Segment}
    (hsegment : segment ≠ .directories) (hrest : rest ≠ []) :
    innerPieces asksDirectory joined (segment :: rest) =
      (if joined then [.slash] else []) ++
        (segment.pieces ++ innerPieces asksDirectory true rest) := by
  have hmore : ¬rest.isEmpty = true := by simpa using hrest
  rw [innerPieces_cons _ _ hsegment, if_neg hmore, List.nil_append]

/-- Segments that end with two stars leave pieces that are closed by a slash. Only the last piece
tells whether a directory is asked for. -/
theorem EndWithStars.exists_front (h : EndWithStars segments) (joined : Bool) :
    ∃ front, .ending ∉ front ∧
      ∀ asksDirectory, innerPieces asksDirectory joined segments =
        front ++ [closing asksDirectory] := by
  induction h generalizing joined with
  | last => exact ⟨[], List.not_mem_nil, fun _ => rfl⟩
  | directories h ih =>
    obtain ⟨front, hfront, hpieces⟩ := ih true
    refine ⟨.innerDirectories :: front, by simpa using hfront, fun asksDirectory => ?_⟩
    rw [innerPieces_directories _ _ h.ne_nil, hpieces, List.cons_append]
  | @segment segment rest hsegment h ih =>
    obtain ⟨front, hfront, hpieces⟩ := ih true
    have hslash : Piece.ending ∉ (if joined then [Piece.slash] else []) := by
      cases joined <;> simp
    refine ⟨(if joined then [.slash] else []) ++ (segment.pieces ++ front), ?_,
      fun asksDirectory => ?_⟩
    · simp only [List.mem_append, not_or]
      exact ⟨hslash, ending_notMem_pieces segment, hfront⟩
    · rw [innerPieces_cons_of_ne_nil _ _ hsegment h.ne_nil, hpieces]
      simp only [List.append_assoc]

/-- Segments that end with two stars, and are not two stars alone, are searched for as a slash, or
they leave the pieces of segments that end with two stars, perhaps behind skipped directories. -/
theorem EndWithStars.cases_ofSegments (h : EndWithStars segments)
    (hne : segments ≠ [.directories]) :
    (∀ asksDirectory, Expression.ofSegments asksDirectory segments =
        .anywhere (closing asksDirectory)) ∨
      ∃ skipped rest, (skipped = [] ∨ skipped = [.leadingDirectories]) ∧ EndWithStars rest ∧
        ∀ asksDirectory, Expression.ofSegments asksDirectory segments =
          .fromStart (skipped ++ innerPieces asksDirectory false rest) := by
  cases h with
  | last => exact absurd rfl hne
  | @directories rest h =>
    have hname : rest ≠ [.name] := by
      rintro rfl
      cases h with
      | segment _ h => exact h.ne_nil rfl
    by_cases hdirectories : rest = [.name, .directories]
    · subst hdirectories
      exact Or.inl fun _ => rfl
    · right
      refine ⟨[.leadingDirectories], rest, Or.inr rfl, h, fun _ => ?_⟩
      exact ofSegments_directories h.ne_nil hname hdirectories
  | @segment segment rest hsegment h =>
    right
    refine ⟨[], segment :: rest, Or.inl rfl, h.segment hsegment, fun _ => ?_⟩
    exact ofSegments_of_ne hsegment rest

/-- In the second case the expression is closed by a slash, and only that slash tells whether a
directory is asked for. -/
theorem EndWithStars.exists_front_ofSegments (h : EndWithStars segments)
    (hne : segments ≠ [.directories]) :
    (∀ asksDirectory, Expression.ofSegments asksDirectory segments =
        .anywhere (closing asksDirectory)) ∨
      ∃ front, .ending ∉ front ∧ ∀ asksDirectory,
        Expression.ofSegments asksDirectory segments =
          .fromStart (front ++ [closing asksDirectory]) := by
  refine (h.cases_ofSegments hne).imp_right ?_
  rintro ⟨skipped, rest, hskipped, hrest, hpieces⟩
  obtain ⟨front, hfront, hinner⟩ := hrest.exists_front false
  refine ⟨skipped ++ front, ?_, fun asksDirectory => ?_⟩
  · rcases hskipped with rfl | rfl
    · exact hfront
    · simpa using hfront
  · rw [hpieces, hinner, List.append_assoc]

/-- An expression whose last piece is a slash, with no ending before it. -/
inductive Expression.ClosedBySlash : Expression → Prop where
  | anywhere (asksDirectory : Bool) : ClosedBySlash (.anywhere (closing asksDirectory))
  | fromStart (asksDirectory : Bool) {front : List Piece} (hfront : .ending ∉ front) :
    ClosedBySlash (.fromStart (front ++ [closing asksDirectory]))

/-- The expression of segments that end with two stars is closed by a slash if a directory is asked
for. -/
theorem EndWithStars.closedBySlash (h : EndWithStars segments) :
    (Expression.ofSegments true segments).ClosedBySlash := by
  by_cases hne : segments = [.directories]
  · subst hne
    exact .anywhere true
  · rcases h.exists_front_ofSegments hne with hpieces | ⟨front, hfront, hpieces⟩
    · rw [hpieces]
      exact .anywhere true
    · rw [hpieces]
      exact .fromStart true hfront

end

/-- The expression can match the whole text. -/
def Expression.TakesWhole (ignoreCase : Bool) (e : Expression) (cs : List Char) : Prop :=
  [] ∈ remaindersOf ignoreCase e.pieces cs

instance (ignoreCase : Bool) (e : Expression) (cs : List Char) :
    Decidable (e.TakesWhole ignoreCase cs) :=
  inferInstanceAs (Decidable ([] ∈ remaindersOf ignoreCase e.pieces cs))

section

variable {ignoreCase asksDirectory : Bool} {cs rest : List Char}

theorem mem_remaindersOf_closing :
    rest ∈ remaindersOf ignoreCase [closing asksDirectory] cs ↔ cs = '/' :: rest := by
  have hslash : (closing asksDirectory).remainders ignoreCase cs = (afterSlash? cs).toList := by
    cases asksDirectory <;> rfl
  simp [remaindersOf, hslash, ← afterSlash?_eq_some_iff]

/-- Pieces that are closed by a slash leave what stands behind a slash, if those before the slash
take all that stands before it. -/
theorem mem_remaindersOf_append_closing {front : List Piece} (hfront : .ending ∉ front) :
    rest ∈ remaindersOf ignoreCase (front ++ [closing asksDirectory]) cs ↔
      ∃ before, cs = before ++ '/' :: rest ∧ [] ∈ remaindersOf ignoreCase front before := by
  simp only [mem_remaindersOf_append, mem_remaindersOf_closing, exists_eq_right]
  constructor
  · intro hrest
    obtain ⟨before, rfl⟩ := suffix_of_mem_remaindersOf hrest
    exact ⟨before, rfl, mem_remaindersOf_of_append hfront hrest⟩
  · rintro ⟨before, rfl, hbefore⟩
    exact append_mem_remaindersOf hfront hbefore _

theorem matchFrom_closing : matchFrom ignoreCase [closing asksDirectory] = afterSlash? := by
  ext cs left
  rw [matchFrom_eq_head?]
  cases asksDirectory <;> simp [remaindersOf, closing, Piece.remainders]

/-- A slash that is searched for is found where the text has its first one. -/
theorem search?_closing_eq_some_iff :
    (Expression.anywhere (closing asksDirectory)).search? ignoreCase cs = some rest ↔
      ∃ before, cs = before ++ '/' :: rest ∧ '/' ∉ before := by
  rw [Expression.search?, matchFrom_closing]
  induction cs with
  | nil => simp [endings, afterSlash?]
  | cons c cs ih =>
    rw [endings, List.findSome?_cons]
    by_cases hc : c = '/'
    · subst hc
      constructor
      · intro h
        obtain rfl : cs = rest := Option.some.inj h
        exact ⟨[], rfl, List.not_mem_nil⟩
      · rintro ⟨before, heq, hbefore⟩
        cases before with
        | nil => exact congrArg some (List.cons.inj heq).2
        | cons d before =>
          rw [← (List.cons.inj heq).1] at hbefore
          exact absurd List.mem_cons_self hbefore
    · have hnone : afterSlash? (c :: cs) = none := by
        rw [Option.eq_none_iff_forall_ne_some]
        intro left hleft
        exact hc (List.cons.inj (afterSlash?_eq_some_iff.mp hleft)).1
      simp only [hnone, ih]
      constructor
      · rintro ⟨before, rfl, hbefore⟩
        exact ⟨c :: before, rfl, List.not_mem_cons_of_ne_of_not_mem (Ne.symm hc) hbefore⟩
      · rintro ⟨before, heq, hbefore⟩
        cases before with
        | nil => exact absurd (List.cons.inj heq).1 hc
        | cons d before =>
          exact ⟨before, (List.cons.inj heq).2, List.not_mem_of_not_mem_cons hbefore⟩

end

section

variable {ignoreCase : Bool} {e : Expression} {cs rest : List Char}

/-- An expression that is closed by a slash ends like one behind two stars. -/
theorem Expression.ClosedBySlash.endsAs (h : e.ClosedBySlash) : e.EndsAs twoStars := by
  cases h with
  | anywhere asksDirectory => exact closing_ne_ending asksDirectory
  | fromStart asksDirectory hfront =>
    refine .stars rfl fun hmem => ?_
    rcases List.mem_append.mp hmem with hmem | hmem
    · exact hfront hmem
    · exact closing_ne_ending asksDirectory (List.mem_singleton.mp hmem).symm

/-- An expression that is closed by a slash matches up to a slash, and there it is found. -/
theorem exists_of_search?_eq_some (h : e.ClosedBySlash)
    (hsearch : e.search? ignoreCase cs = some rest) :
    ∃ before, cs = before ++ '/' :: rest ∧ e.isFound ignoreCase (before ++ ['/']) = true := by
  cases h with
  | anywhere asksDirectory =>
    obtain ⟨before, rfl, hbefore⟩ := search?_closing_eq_some_iff.mp hsearch
    refine ⟨before, rfl, ?_⟩
    rw [Expression.isFound, search?_closing_eq_some_iff.mpr ⟨before, rfl, hbefore⟩]
    rfl
  | fromStart asksDirectory hfront =>
    rw [Expression.search?, matchFrom_eq_head?] at hsearch
    obtain ⟨before, rfl, hbefore⟩ :=
      (mem_remaindersOf_append_closing hfront).mp (List.mem_of_head? hsearch)
    refine ⟨before, rfl, ?_⟩
    rw [isFound_fromStart, fits_iff_exists_mem_remaindersOf]
    exact ⟨[], (mem_remaindersOf_append_closing hfront).mpr ⟨before, rfl, hbefore⟩⟩

/-- An expression that is closed by a slash is found in a text if it is found in a beginning of the
text that ends with a slash. -/
theorem isFound_iff_exists_slash (h : e.ClosedBySlash) :
    e.isFound ignoreCase cs = true ↔
      ∃ before rest, cs = before ++ '/' :: rest ∧
        e.isFound ignoreCase (before ++ ['/']) = true := by
  constructor
  · intro hfound
    obtain ⟨rest, hsearch⟩ := Option.isSome_iff_exists.mp hfound
    obtain ⟨before, hcs, hbefore⟩ := exists_of_search?_eq_some h hsearch
    exact ⟨before, rest, hcs, hbefore⟩
  · rintro ⟨before, rest, rfl, hfound⟩
    exact (isFound_below h.endsAs hfound rest).resolve_right (not_takesLastSlash h.endsAs)

end

end SourceSnapshot.Pattern
