/-!
# Cutting a text at a character

The pieces of a text between the places of one character. There is always a piece, and the pieces
joined by the character are the text again.
-/

namespace SourceSnapshot.Text

/-- The pieces between the places of `at_`; a text without one is one piece, the empty text too. -/
def splitOn (at_ : Char) : List Char → List (List Char)
  | [] => [[]]
  | c :: rest =>
    if c = at_ then [] :: splitOn at_ rest
    else
      match splitOn at_ rest with
      | [] => [[c]]
      | piece :: pieces => (c :: piece) :: pieces

/-- There is always a piece. -/
theorem splitOn_ne_nil (at_ : Char) (cs : List Char) : splitOn at_ cs ≠ [] := by
  cases cs with
  | nil => simp [splitOn]
  | cons c rest =>
    simp only [splitOn]
    split
    · simp
    · split <;> simp

/-- The pieces joined again are the text. -/
theorem intercalate_splitOn (at_ : Char) (cs : List Char) :
    List.intercalate [at_] (splitOn at_ cs) = cs := by
  induction cs with
  | nil => simp [splitOn, List.intercalate]
  | cons c rest ih =>
    simp only [splitOn]
    split
    · rename_i h
      subst h
      cases hs : splitOn c rest with
      | nil => exact absurd hs (splitOn_ne_nil c rest)
      | cons piece pieces => simpa [List.intercalate, hs] using ih
    · cases hs : splitOn at_ rest with
      | nil => exact absurd hs (splitOn_ne_nil at_ rest)
      | cons piece pieces =>
        cases pieces with
        | nil => simpa [List.intercalate, hs] using ih
        | cons next others => simpa [List.intercalate, hs] using ih

end SourceSnapshot.Text
