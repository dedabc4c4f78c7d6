import SourceSnapshot.Proofs.Ignore.Acceptance

/-!
# Lines that are no rules

A line is no pattern if nothing is left of it, if it is a comment, or if it ends in an open escape
or has a bracket expression that is open or has a reversed range. Two more kinds of lines are
rejected: those with an escaped slash, because a pattern is cut at its slashes before its escapes
are read, and those with an escaped blank at the end that is no space or has more blanks behind it,
because the blank is dropped and the backslash stays.
-/

namespace SourceSnapshot

namespace Pattern

/-- What keeps a text without byte order marks and unescaped blanks from being a pattern. -/
inductive IsNoPattern (cs : List Char) : Prop where
  | empty (h : cs = [])
  | comment (h : cs.head? = some '#')
  | openEscape (h : Text.endsInOpenEscape cs = true)
  | bracket {piece : List Char} (hpiece : piece ∈ Text.splitOn '/' (splitNegation cs).2)
    (h : HasOpenBracket piece ∨ HasReversedRange piece)
  | nothing (h : Text.trim (· == '/') (splitNegation cs).2 = [])

/-- Whether a slash of a text is escaped. -/
def EscapesSlash (cs : List Char) : Prop :=
  ∃ before after, cs = before ++ '/' :: after ∧ Text.endsInOpenEscape before = true

section

variable {cs : List Char}

/-- An exclamation mark in front does not tell whether a slash is escaped. -/
theorem escapesSlash_splitNegation : EscapesSlash (splitNegation cs).2 ↔ EscapesSlash cs := by
  rw [splitNegation.eq_def]
  split
  · rename_i rest
    constructor
    · rintro ⟨before, after, rfl, h⟩
      exact ⟨'!' :: before, after, rfl, by rwa [Text.endsInOpenEscape_cons (by decide)]⟩
    · rintro ⟨before, after, heq, h⟩
      cases before with
      | nil => cases h
      | cons c before =>
        obtain ⟨rfl, rfl⟩ := List.cons.inj heq
        exact ⟨before, after, rfl, by rwa [Text.endsInOpenEscape_cons (by decide)] at h⟩
  · rfl

/-- A text is not that of a rule if it is no pattern or has an escaped slash. -/
theorem not_isRuleText_iff : ¬IsRuleText cs ↔ IsNoPattern cs ∨ EscapesSlash cs := by
  have hescape : (∃ piece ∈ Text.splitOn '/' (splitNegation cs).2,
        Text.endsInOpenEscape piece = true) ↔
      Text.endsInOpenEscape cs = true ∨ EscapesSlash cs := by
    rw [Text.exists_piece_endsInOpenEscape_iff (by decide), endsInOpenEscape_splitNegation,
      ← escapesSlash_splitNegation]
    rfl
  constructor
  · intro h
    by_contra hnone
    rw [not_or] at hnone
    obtain ⟨hpattern, hslash⟩ := hnone
    refine h ⟨fun hhash => hpattern (.comment hhash), ?_, ?_⟩
    · rw [Bool.eq_false_iff]
      exact fun hall => hpattern (.nothing (Text.trim_eq_nil_iff.mpr hall))
    · intro piece hpiece
      by_contra hsound
      rcases not_isSound_iff.mp hsound with hopen | hbracket
      · rcases hescape.mp ⟨piece, hpiece, hopen⟩ with hopen | hopen
        · exact hpattern (.openEscape hopen)
        · exact hslash hopen
      · exact hpattern (.bracket hpiece hbracket)
  · rintro h hrule
    have hopen : ¬(Text.endsInOpenEscape cs = true ∨ EscapesSlash cs) := by
      rw [← hescape]
      rintro ⟨piece, hpiece, hopen⟩
      exact not_isSound_iff.mpr (Or.inl hopen) (hrule.sound piece hpiece)
    rw [not_or] at hopen
    rcases h with h | h
    · cases h with
      | empty h =>
        have hslashes := hrule.notSlashes
        simp [h, splitNegation] at hslashes
      | comment h => exact hrule.noComment h
      | openEscape h => exact hopen.1 h
      | bracket hpiece h => exact not_isSound_iff.mpr (Or.inr h) (hrule.sound _ hpiece)
      | nothing h =>
        have hslashes := hrule.notSlashes
        rw [Text.trim_eq_nil_iff.mp h] at hslashes
        cases hslashes
    · exact hopen.2 h

/-- A text is that of a rule without its trailing blanks if it is one without those that are not
escaped, and loses no escaped blank. -/
theorem isRuleText_withoutTrailingBlanks_iff :
    IsRuleText (withoutTrailingBlanks cs) ↔
      IsRuleText (Text.withoutOpenBlanks cs) ∧ ¬Text.LosesEscapedBlank cs := by
  obtain ⟨bare, blanks, rfl, hblanks, hbare⟩ := Text.exists_append_blanks cs
  rw [Text.losesEscapedBlank_append_iff hblanks hbare,
    Text.withoutOpenBlanks_append hblanks hbare]
  cases hescape : Text.endsInOpenEscape bare with
  | true =>
    have hlast := Text.getLast?_of_endsInOpenEscape hescape
    by_cases hnil : blanks = []
    · subst hnil
      rw [withoutTrailingBlanks_of_not_space hblanks hbare (by simp)]
      simp
    by_cases hspace : blanks = [' ']
    · rw [withoutTrailingBlanks_of_space hblanks hbare hspace hlast]
      simp [hspace]
    · rw [withoutTrailingBlanks_of_not_space hblanks hbare (by simp [hspace])]
      have hnone : ¬IsRuleText bare := by
        intro h
        rw [h.endsInOpenEscape_eq_false] at hescape
        cases hescape
      simp [hnone, hnil, hspace]
  | false =>
    by_cases hspace : blanks = [' '] ∧ bare.getLast? = some '\\'
    · rw [withoutTrailingBlanks_of_space hblanks hbare hspace.1 hspace.2]
      obtain ⟨before, rfl⟩ := List.getLast?_eq_some_iff.mp hspace.2
      have hbefore : Text.endsInOpenEscape before = true := by simpa using hescape
      have hrule := isRuleText_append_space_iff hbefore
      simpa [hspace.1] using hrule
    · rw [withoutTrailingBlanks_of_not_space hblanks hbare hspace]
      simp

end

end Pattern

namespace Ignore

open Pattern

/-- The text of a line behind byte order marks, without the blanks at its end that are not escaped.
-/
def keptText (line : String) : List Char := Text.withoutOpenBlanks (textOf line)

/-- A line is rejected if what is kept of it is no pattern. It is rejected as well if a slash in it
is escaped, or a blank at its end that is no space or has more blanks behind it. -/
theorem Rule.rejects_iff {ignoreCase : Bool} {line : String} :
    (∃ rejection, Rule.ofLine ignoreCase line = .error rejection) ↔
      IsNoPattern (keptText line) ∨ EscapesSlash (keptText line) ∨
        Text.LosesEscapedBlank (textOf line) := by
  rw [Rule.exists_ofLine_eq_error_iff, isRuleText_withoutTrailingBlanks_iff, not_and_or, not_not,
    not_isRuleText_iff, or_assoc]
  rfl

/-- A line with an escaped slash is rejected, although it ends in no escape and has no bracket. -/
theorem Rule.rejects_escaped_slash :
    (∃ rejection, Rule.ofLine true "a\\/b" = .error rejection) ∧
      ¬IsNoPattern (keptText "a\\/b") := by
  refine ⟨⟨.refused (.invalid "a\\/b"), by decide +kernel⟩, ?_⟩
  have hkept : keptText "a\\/b" = "a\\/b".toList := by decide +kernel
  rw [hkept]
  rintro (h | h | h | ⟨hpiece, h⟩ | h)
  · simp at h
  · simp at h
  · revert h
    decide +kernel
  · have hpieces : Text.splitOn '/' (splitNegation "a\\/b".toList).2 = [['a', '\\'], ['b']] := by
      decide
    have hbracket := bracket_mem_of_hasOpenBracket_or h
    rw [hpieces] at hpiece
    simp only [List.mem_cons, List.not_mem_nil, or_false] at hpiece
    rcases hpiece with rfl | rfl
    · simp at hbracket
    · simp at hbracket
  · revert h
    decide +kernel

end Ignore

end SourceSnapshot
