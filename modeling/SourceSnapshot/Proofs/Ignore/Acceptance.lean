import SourceSnapshot.Proofs.Ignore.SingleRule
import SourceSnapshot.Proofs.Pattern.Soundness
import SourceSnapshot.Proofs.Text.Escapes

/-!
# Lines that are rules

A line is a rule if what is left of it, without byte order marks and trailing blanks, is no comment,
is not made of slashes alone, and has sound pieces between its slashes. Trailing blanks are dropped
all together, unless there is just a space and a backslash before it.
-/

namespace SourceSnapshot

namespace Pattern

section

variable {bare blanks : List Char} (hblanks : ∀ c ∈ blanks, Text.isBlank c = true)
  (hbare : ∀ c, bare.getLast? = some c → Text.isBlank c = false)

include hblanks hbare

theorem withoutTrailingBlanks_of_space (hspace : blanks = [' '])
    (hlast : bare.getLast? = some '\\') :
    withoutTrailingBlanks (bare ++ blanks) = bare ++ blanks := by
  rw [withoutTrailingBlanks, if_pos]
  exact (Text.endsWith_backslash_space_iff hblanks hbare).mpr ⟨hspace, hlast⟩

theorem withoutTrailingBlanks_of_not_space (h : ¬(blanks = [' '] ∧ bare.getLast? = some '\\')) :
    withoutTrailingBlanks (bare ++ blanks) = bare := by
  rw [withoutTrailingBlanks, if_neg, Text.dropTrailing_append_blanks hblanks hbare]
  exact fun hends => h ((Text.endsWith_backslash_space_iff hblanks hbare).mp hends)

end

section

variable {cs : List Char}

/-- The first character stays if it is no blank. -/
theorem head?_withoutTrailingBlanks {c : Char} (hc : Text.isBlank c = false) :
    (withoutTrailingBlanks cs).head? = some c ↔ cs.head? = some c := by
  constructor
  · intro h
    obtain ⟨behind, heq⟩ := withoutTrailingBlanks_prefix cs
    rw [← heq, List.head?_append, h, Option.some_or]
  · intro h
    obtain ⟨rest, rfl⟩ := List.head?_eq_some_iff.mp h
    rw [withoutTrailingBlanks, Text.dropTrailing_cons_of_eq_false hc]
    split <;> rfl

theorem splitNegation_fst_withoutTrailingBlanks (cs : List Char) :
    (splitNegation (withoutTrailingBlanks cs)).1 = (splitNegation cs).1 := by
  rw [Bool.eq_iff_iff, Ignore.splitNegation_fst_iff, Ignore.splitNegation_fst_iff,
    head?_withoutTrailingBlanks (by decide)]

theorem head?_ne_of_ofLine?_eq_some {e : Expression}
    (h : Expression.ofLine? (String.ofList cs) = .ok (some e)) :
    (withoutTrailingBlanks cs).head? ≠ some '#' := by
  intro hhash
  simp [Expression.ofLine?, hhash] at h

end

/-- The text of a line without trailing blanks, if the line is a rule. -/
structure IsRuleText (cs : List Char) : Prop where
  noComment : cs.head? ≠ some '#'
  notSlashes : (splitNegation cs).2.all (· == '/') = false
  sound : ∀ piece ∈ Text.splitOn '/' (splitNegation cs).2, IsSound piece

section

variable {before cs : List Char}

/-- An exclamation mark is split off in front of any other character. -/
theorem splitNegation_append_cons {c : Char} (hc : c ≠ '!') (before behind : List Char) :
    splitNegation (before ++ c :: behind) =
      ((splitNegation before).1, (splitNegation before).2 ++ c :: behind) := by
  cases before with
  | nil => exact splitNegation_of_head?_ne (by simpa using hc)
  | cons d before =>
    by_cases hd : d = '!'
    · subst hd
      rfl
    · rw [splitNegation_of_head?_ne (by simpa using hd),
        splitNegation_of_head?_ne (by simpa using hd), List.cons_append]

/-- An exclamation mark in front is no escape. -/
theorem endsInOpenEscape_splitNegation (cs : List Char) :
    Text.endsInOpenEscape (splitNegation cs).2 = Text.endsInOpenEscape cs := by
  rw [splitNegation.eq_def]
  split
  · exact (Text.endsInOpenEscape_cons (by decide) _).symm
  · rfl

/-- A text that ends in an open escape is not that of a rule, for its last piece is not sound. -/
theorem IsRuleText.endsInOpenEscape_eq_false (h : IsRuleText cs) :
    Text.endsInOpenEscape cs = false := by
  rw [Bool.eq_false_iff]
  intro hescape
  rw [← endsInOpenEscape_splitNegation] at hescape
  obtain ⟨piece, hpiece, hopen⟩ :=
    (Text.exists_piece_endsInOpenEscape_iff (show '/' ≠ '\\' by decide)).mpr (Or.inl hescape)
  exact not_isSound_iff.mpr (Or.inl hopen) (h.sound piece hpiece)

/-- What stands behind a backslash, without a slash, only matters for the last piece. -/
theorem isRuleText_append_backslash_iff {pieces : List (List Char)} {last : List Char}
    (hpieces : ∀ ending, '/' ∉ ending →
      Text.splitOn '/' ((splitNegation before).2 ++ ending) = pieces ++ [last ++ ending])
    {behind : List Char} (hbehind : '/' ∉ behind) :
    IsRuleText (before ++ '\\' :: behind) ↔
      before.head? ≠ some '#' ∧ (∀ piece ∈ pieces, IsSound piece) ∧
        IsSound (last ++ '\\' :: behind) := by
  have hhead : (before ++ '\\' :: behind).head? = some '#' ↔ before.head? = some '#' := by
    cases before <;> simp
  have hsplit := splitNegation_append_cons (show '\\' ≠ '!' by decide) before behind
  have hall := hpieces ('\\' :: behind) (by simpa using hbehind)
  constructor
  · rintro ⟨hhash, -, hsound⟩
    rw [hsplit, hall, List.forall_mem_append, List.forall_mem_singleton] at hsound
    exact ⟨mt hhead.mpr hhash, hsound⟩
  · rintro ⟨hhash, hsound⟩
    refine ⟨mt hhead.mp hhash, by simp [hsplit], ?_⟩
    rwa [hsplit, hall, List.forall_mem_append, List.forall_mem_singleton]

/-- Behind a backslash that is escaped a space does not matter for whether a text is that of a rule.
-/
theorem isRuleText_append_space_iff (hescape : Text.endsInOpenEscape before = true) :
    IsRuleText (before ++ ['\\', ' ']) ↔ IsRuleText (before ++ ['\\']) := by
  obtain ⟨pieces, last, hlast, hpieces⟩ := Text.exists_splitOn_append_endsInOpenEscape
    (show '/' ≠ '\\' by decide) (splitNegation before).2
  rw [endsInOpenEscape_splitNegation, hescape] at hlast
  have hsound := isSound_concat_iff (show ' ' ∉ ['\\', '*', '?', '[', ']'] by decide)
    (show Text.endsInOpenEscape (last ++ ['\\']) = false by simp [hlast])
  rw [List.append_assoc] at hsound
  rw [isRuleText_append_backslash_iff hpieces (by decide),
    isRuleText_append_backslash_iff hpieces (by decide)]
  exact and_congr_right fun _ => and_congr_right fun _ => hsound

end

end Pattern

namespace Ignore

open Pattern

/-- The text of a line behind byte order marks. -/
def textOf (line : String) : List Char := line.toList.dropWhile (· == Rule.byteOrderMark)

/-- A line is a rule if it has the text of one. -/
theorem Rule.exists_ofLine_eq_ok_iff {ignoreCase : Bool} {line : String} :
    (∃ r, Rule.ofLine ignoreCase line = .ok r) ↔
      IsRuleText (withoutTrailingBlanks (textOf line)) := by
  have hbody : (splitNegation (withoutTrailingBlanks (textOf line))).2 = bodyOf line :=
    splitNegation_withoutTrailingBlanks _
  simp only [Rule.ofLine_eq_ok_iff]
  constructor
  · rintro ⟨r, hslashes, expression, hline, hranges, -⟩
    obtain ⟨segments, hread, rfl⟩ := Expression.ofLine?_eq_some hline
    rw [reversedRange?_ofSegments_eq_none_iff] at hranges
    have hsound := exists_readSegments_iff_isSound.mp ⟨segments, hread, hranges⟩
    refine ⟨head?_ne_of_ofLine?_eq_some hline, hbody ▸ hslashes, ?_⟩
    rw [hbody]
    exact (isSound_segmentTexts_iff hslashes).mp hsound
  · rintro ⟨hhash, hslashes, hsound⟩
    rw [hbody] at hslashes hsound
    obtain ⟨segments, hread, hordered⟩ :=
      exists_readSegments_iff_isSound.mpr ((isSound_segmentTexts_iff hslashes).mpr hsound)
    rw [Ne, head?_withoutTrailingBlanks (by decide)] at hhash
    exact ⟨_, hslashes, _, Expression.ofLine?_of_readSegments hhash hslashes hread,
      reversedRange?_ofSegments_eq_none_iff.mpr hordered, rfl⟩

/-- A line that is no rule is rejected. -/
theorem Rule.exists_ofLine_eq_error_iff {ignoreCase : Bool} {line : String} :
    (∃ rejection, Rule.ofLine ignoreCase line = .error rejection) ↔
      ¬IsRuleText (withoutTrailingBlanks (textOf line)) := by
  rw [← Rule.exists_ofLine_eq_ok_iff]
  cases Rule.ofLine ignoreCase line <;> simp

end Ignore

end SourceSnapshot
