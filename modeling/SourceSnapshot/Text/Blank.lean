/-!
# Blanks

White space in the sense of Unicode, and the trimming of a text at one or both ends. A trimmed text
ends in a character that is kept, and trimming again changes nothing.
-/

namespace SourceSnapshot.Text

/-- White space: the separators of Unicode, the ASCII layout controls, and the four information
separators U+001C to U+001F. The zero-width space and the byte order mark are not blank. -/
def isBlank (c : Char) : Bool :=
  let n := c.toNat
  (9 ≤ n && n ≤ 13) || (28 ≤ n && n ≤ 32) || n == 0x85 || n == 0xA0 || n == 0x1680 ||
    (0x2000 ≤ n && n ≤ 0x200A) || n == 0x2028 || n == 0x2029 || n == 0x202F || n == 0x205F ||
    n == 0x3000

/-- The text without the longest ending of characters in `p`. -/
def dropTrailing (p : Char → Bool) (cs : List Char) : List Char :=
  (cs.reverse.dropWhile p).reverse

/-- The text without its longest beginning and ending of characters in `p`. -/
def trim (p : Char → Bool) (cs : List Char) : List Char :=
  dropTrailing p (cs.dropWhile p)

@[simp] theorem dropTrailing_nil (p : Char → Bool) : dropTrailing p [] = [] := rfl

theorem dropTrailing_append_singleton (p : Char → Bool) (cs : List Char) (c : Char) :
    dropTrailing p (cs ++ [c]) = if p c then dropTrailing p cs else cs ++ [c] := by
  by_cases h : p c <;> simp [dropTrailing, h]

/-- Whether the text ends with `ending`. -/
def endsWith (cs ending : List Char) : Bool := ending.isSuffixOf cs

end SourceSnapshot.Text
