import SourceSnapshot.Pattern.Search
import SourceSnapshot.Proofs.Text.LetterCase

/-!
# Expressions that do not tell letters by their case

If case is ignored, a piece decides about a character of the text by its lower form only: a literal
and a bracket expression, negated or not, stand for both cases of an ASCII letter or for neither,
and the other pieces ask for slashes and line breaks. So the search in a text in lower case makes
the same choices as the search in the text itself, and what remains is the same text in lower case.
-/

namespace SourceSnapshot.Pattern

open Text (lowered)

namespace Bracket

/-- An item that holds an ASCII letter is cased. -/
theorem Item.isCased_of_holds {item : Item} {n : Nat} (hletter : Text.Case.IsLetter n)
    (h : item.holds n = true) : item.isCased = true := by
  cases item with
  | single c =>
    obtain rfl : c.toNat = n := beq_iff_eq.mp h
    rw [Item.isCased, Text.Case.isCased_of_isLetter hletter, Bool.true_or]
  | range first last =>
    rw [Item.holds, Bool.and_eq_true, decide_eq_true_eq, decide_eq_true_eq] at h
    rw [Item.isCased, Text.Case.anyCased_of_isLetter hletter h, Bool.true_or]

/-- An item for which case does not matter holds both cases of an ASCII letter or neither. -/
theorem Item.holds_toLower {item : Item} (h : item.isCased = false) (c : Char) :
    item.holds c.toLower.toNat = item.holds c.toNat := by
  cases hc : c.isUpper with
  | false => rw [Char.toLower_eq_of_not_isUpper (Bool.eq_false_iff.mp hc)]
  | true =>
    have hnone : ∀ n, Text.Case.IsLetter n → item.holds n = false := by
      intro n hletter
      rw [Bool.eq_false_iff]
      intro hholds
      rw [Item.isCased_of_holds hletter hholds] at h
      cases h
    obtain ⟨hfirst, hlast⟩ := Text.toNat_of_isUpper hc
    rw [Text.toNat_toLower_of_isUpper hc, hnone _ (Or.inl ⟨hfirst, hlast⟩),
      hnone _ (Or.inr ⟨by omega, by omega⟩)]

/-- Up to case, items hold both cases of an ASCII letter or neither. -/
theorem holdsUpToCase_toLower (items : List Item) (c : Char) :
    holdsUpToCase items c.toLower = holdsUpToCase items c := by
  rw [holdsUpToCase, holdsUpToCase]
  split
  · exact Text.Case.agrees_toLower _ c
  · split
    · rw [Text.Case.lower_toLower]
    · rename_i hcased
      -- Where no item is cased, the characters themselves are compared.
      rw [Bool.not_eq_true, List.any_eq_false] at hcased
      rw [Bool.eq_iff_iff, List.any_eq_true, List.any_eq_true]
      refine exists_congr fun item => and_congr_right fun hitem => ?_
      rw [Item.holds_toLower (Bool.eq_false_iff.mpr (hcased item hitem)) c]

theorem accepts_toLower (b : Bracket) (c : Char) :
    b.accepts true c.toLower = b.accepts true c := by
  rw [accepts, accepts, if_pos rfl, if_pos rfl, holdsUpToCase_toLower]

end Bracket

section

variable {p : Char → Bool} (hp : ∀ c, p c.toLower = p c)

include hp

/-- What remains behind runs of characters in `p` is found in lower case too. -/
theorem runRemainders_lowered (cs : List Char) :
    runRemainders p (lowered cs) = (runRemainders p cs).map lowered := by
  induction cs with
  | nil => rfl
  | cons c cs ih =>
    rw [lowered, List.map_cons, runRemainders, runRemainders, hp, List.map_cons]
    refine congrArg₂ _ rfl ?_
    split
    · exact ih
    · rfl

/-- What remains behind one character in `p` is found in lower case too. -/
theorem afterOne_lowered (cs : List Char) :
    afterOne p (lowered cs) = (afterOne p cs).map lowered := by
  cases cs with
  | nil => rfl
  | cons c cs =>
    rw [lowered, List.map_cons, afterOne, afterOne, hp]
    split
    · rfl
    · rfl

/-- What remains behind some characters in `p` is found in lower case too. -/
theorem afterSome_lowered (cs : List Char) :
    afterSome p (lowered cs) = (afterSome p cs).map lowered := by
  cases cs with
  | nil => rfl
  | cons c cs =>
    have hrun := runRemainders_lowered hp cs
    rw [lowered, List.map_cons, afterSome, afterSome, hp]
    split
    · rw [List.map_reverse, ← hrun]
      rfl
    · rfl

end

/-- What remains behind a slash is found in lower case too. -/
theorem afterSlash?_lowered (cs : List Char) :
    afterSlash? (lowered cs) = (afterSlash? cs).map lowered := by
  cases cs with
  | nil => rfl
  | cons c cs =>
    by_cases hc : c = '/'
    · rw [hc]
      rfl
    · have hlower : c.toLower ≠ '/' := mt (Text.toLower_eq_iff (by decide)).mp hc
      rw [lowered, List.map_cons, afterSlash?.eq_def, afterSlash?.eq_def]
      simp [hc, hlower]

/-- A text and the same text in lower case are both at their end or both not. -/
theorem isAtEnd_lowered (cs : List Char) : isAtEnd (lowered cs) = isAtEnd cs := by
  rw [isAtEnd, isAtEnd, Bool.eq_iff_iff]
  cases cs with
  | nil => rfl
  | cons c cs =>
    simp [lowered, Text.toLower_eq_iff (c := c) (d := '\n') (by decide)]

/-- A piece that ignores case leaves the same remainders of a text in lower case. -/
theorem Piece.remainders_lowered (piece : Piece) (cs : List Char) :
    piece.remainders true (lowered cs) = (piece.remainders true cs).map lowered := by
  have hline : ∀ c, isLineChar c.toLower = isLineChar c := by
    intro c
    rw [isLineChar, isLineChar, bne, bne, Text.beq_toLower (by decide)]
  have hname : ∀ c, isNameChar c.toLower = isNameChar c := by
    intro c
    rw [isNameChar, isNameChar, bne, bne, Text.beq_toLower (by decide)]
  cases piece with
  | leadingDirectories =>
    simp only [remainders, afterSome_lowered hline, List.map_append, List.filterMap_map,
      List.map_filterMap, List.map_singleton]
    refine congrArg (· ++ [lowered cs]) (List.filterMap_congr fun rest _ => ?_)
    exact afterSlash?_lowered rest
  | innerDirectories =>
    simp only [remainders, afterSlash?_lowered, List.map_append, List.map_singleton]
    cases afterSlash? cs with
    | none => rfl
    | some rest => exact congrArg (· ++ [lowered cs]) (afterSome_lowered hline rest)
  | slash => rw [remainders, remainders, afterSlash?_lowered, Option.toList_map]
  | directoryMark => rw [remainders, remainders, afterSlash?_lowered, Option.toList_map]
  | name => exact afterSome_lowered hname cs
  | run => rw [remainders, remainders, runRemainders_lowered hname, List.map_reverse]
  | one => exact afterOne_lowered hname cs
  | literal c => exact afterOne_lowered (Text.Case.agrees_toLower c) cs
  | bracket b => exact afterOne_lowered b.accepts_toLower cs
  | ending =>
    rw [remainders, remainders, afterSlash?_lowered, Option.toList_map, isAtEnd_lowered,
      List.map_append]
    split
    · rfl
    · rfl
  | anything => exact afterOne_lowered hline cs

/-- Pieces that ignore case match a text in lower case as they match the text. -/
theorem matchFrom_lowered (pieces : List Piece) (cs : List Char) :
    matchFrom true pieces (lowered cs) = (matchFrom true pieces cs).map lowered := by
  induction pieces generalizing cs with
  | nil => rfl
  | cons piece pieces ih =>
    rw [matchFrom, matchFrom, Piece.remainders_lowered, List.findSome?_map, List.map_findSome?]
    exact congrArg (fun f => List.findSome? f _) (funext ih)

theorem endings_lowered (cs : List Char) : endings (lowered cs) = (endings cs).map lowered := by
  induction cs with
  | nil => rfl
  | cons c cs ih => exact congrArg (lowered (c :: cs) :: ·) ih

/-- An expression that ignores case is found in a text in lower case where it is found in the text.
-/
theorem Expression.search?_lowered (e : Expression) (cs : List Char) :
    e.search? true (lowered cs) = (e.search? true cs).map lowered := by
  cases e with
  | fromStart pieces => exact matchFrom_lowered pieces cs
  | anywhere piece =>
    rw [search?, search?, endings_lowered, List.findSome?_map, List.map_findSome?]
    exact congrArg (fun f => List.findSome? f _) (funext (matchFrom_lowered [piece]))

end SourceSnapshot.Pattern
