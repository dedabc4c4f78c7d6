/-!
# Lines

Three ways to cut a text into lines. `piecesAtBreaks` cuts at LF and CRLF only and keeps empty
pieces, also the last one; `unifyBreaks` turns CRLF and a lone CR into LF; `lines` cuts at every
line boundary of Unicode and has no piece after a final boundary.
-/

namespace SourceSnapshot.Text

/-- The pieces between LF or CRLF; a text without a break is one piece, the empty text too. -/
def piecesAtBreaks : List Char → List (List Char)
  | [] => [[]]
  | '\r' :: '\n' :: rest => [] :: piecesAtBreaks rest
  | '\n' :: rest => [] :: piecesAtBreaks rest
  | c :: rest =>
    match piecesAtBreaks rest with
    | [] => [[c]]
    | piece :: pieces => (c :: piece) :: pieces

/-- CRLF and a lone CR become LF. -/
def unifyBreaks : List Char → List Char
  | [] => []
  | '\r' :: '\n' :: rest => '\n' :: unifyBreaks rest
  | c :: rest => (if c = '\r' then '\n' else c) :: unifyBreaks rest

/-- The characters that end a line: LF, CR, vertical tab, form feed, the separators U+001C to
U+001E, next line, and the line and paragraph separators. -/
def isLineBoundary (c : Char) : Bool :=
  let n := c.toNat
  (10 ≤ n && n ≤ 13) || (28 ≤ n && n ≤ 30) || n == 0x85 || n == 0x2028 || n == 0x2029

/-- The lines of a text without their boundaries; CRLF is one boundary. -/
def lines : List Char → List (List Char)
  | [] => []
  | '\r' :: '\n' :: rest => [] :: lines rest
  | c :: rest =>
    if isLineBoundary c then [] :: lines rest
    else
      match rest with
      | [] => [[c]]
      | d :: more =>
        match lines (d :: more) with
        | [] => [[c]]
        | line :: others => (c :: line) :: others

theorem piecesAtBreaks_ne_nil (cs : List Char) : piecesAtBreaks cs ≠ [] := by
  fun_cases piecesAtBreaks cs <;> simp_all

end SourceSnapshot.Text
