import SourceSnapshot.Proofs.Pattern.Expressions

/-!
# Ranges of an expression

The bracket expressions among the pieces of an expression are those of its segments. So an
expression has a reversed range only where one of its segments has one.
-/

namespace SourceSnapshot.Pattern

/-- Items have no reversed range if each of them is the right way round. -/
theorem reversedIn?_eq_none_iff {items : List Bracket.Item} {before : Nat} :
    reversedIn? before items = none ↔ ∀ item ∈ items, item.isOrdered = true := by
  induction items generalizing before with
  | nil => simp [reversedIn?]
  | cons item rest ih =>
    cases item with
    | single c => simp [reversedIn?, ih, Bracket.Item.isOrdered]
    | range first last =>
      by_cases hordered : first.toNat ≤ last.toNat
      · simp [reversedIn?, hordered, ih, Bracket.Item.isOrdered]
      · simp [reversedIn?, hordered, Bracket.Item.isOrdered]

/-- Pieces have no reversed range if the ranges of each bracket expression are the right way round.
-/
theorem reversedAmong?_eq_none_iff {pieces : List Piece} {before : Nat} :
    reversedAmong? before pieces = none ↔ ∀ b, .bracket b ∈ pieces → b.isOrdered = true := by
  induction pieces generalizing before with
  | nil => simp [reversedAmong?]
  | cons piece rest ih =>
    cases piece with
    | bracket b =>
      simp [reversedAmong?, ih, reversedIn?_eq_none_iff, Bracket.isOrdered]
    | _ => simp [reversedAmong?, ih]

/-- An expression has no reversed range if the ranges of each bracket expression in it are the right
way round. -/
theorem Expression.reversedRange?_eq_none_iff {e : Expression} :
    e.reversedRange? = none ↔ ∀ b, .bracket b ∈ e.pieces → b.isOrdered = true := by
  cases e with
  | anywhere piece => exact reversedAmong?_eq_none_iff
  | fromStart pieces => exact reversedAmong?_eq_none_iff

/-- A segment whose ranges are all the right way round. -/
def Segment.IsOrdered (segment : Segment) : Prop :=
  ∀ b, .bracket b ∈ segment.pieces → b.isOrdered = true

section

variable {asksDirectory joined : Bool} {segments : List Segment} {b : Bracket}

/-- The bracket expressions among the pieces of segments are those of the segments. What stands
between and behind the segments has none. -/
theorem bracket_mem_innerPieces_iff :
    .bracket b ∈ innerPieces asksDirectory joined segments ↔
      ∃ segment ∈ segments, .bracket b ∈ segment.pieces := by
  induction segments generalizing joined with
  | nil => simp [innerPieces]
  | cons segment rest ih =>
    by_cases hdirectories : segment = .directories
    · subst hdirectories
      cases rest with
      | nil => cases asksDirectory <;> simp [innerPieces, Segment.pieces]
      | cons next others =>
        rw [innerPieces_directories _ _ (List.cons_ne_nil next others)]
        simpa [Segment.pieces] using ih
    · have hslash : Piece.bracket b ∉ (if joined then [Piece.slash] else []) := by
        cases joined <;> simp
      simp [innerPieces_cons _ _ hdirectories, ih, hslash]

/-- The bracket expressions of an expression are those of its segments. -/
theorem bracket_mem_ofSegments_iff :
    .bracket b ∈ (Expression.ofSegments asksDirectory segments).pieces ↔
      ∃ segment ∈ segments, .bracket b ∈ segment.pieces := by
  fun_cases Expression.ofSegments asksDirectory segments with
  | case1 => cases asksDirectory <;> simp [Expression.pieces, Segment.pieces]
  | case2 => simp [Expression.pieces, Segment.pieces]
  | case3 => cases asksDirectory <;> simp [Expression.pieces, Segment.pieces]
  | case4 rest =>
    simp [Expression.pieces, bracket_mem_innerPieces_iff, Segment.pieces]
  | case5 => exact bracket_mem_innerPieces_iff

/-- The expression of segments has no reversed range if the segments have none. -/
theorem reversedRange?_ofSegments_eq_none_iff :
    (Expression.ofSegments asksDirectory segments).reversedRange? = none ↔
      ∀ segment ∈ segments, segment.IsOrdered := by
  rw [Expression.reversedRange?_eq_none_iff]
  simp only [bracket_mem_ofSegments_iff, Segment.IsOrdered]
  exact ⟨fun h segment hsegment b hb => h b ⟨segment, hsegment, hb⟩,
    fun h b ⟨segment, hsegment, hb⟩ => h segment hsegment b hb⟩

end

end SourceSnapshot.Pattern
