import SourceSnapshot.Pattern.Segment

/-!
# Expressions

What a pattern is turned into: a sequence of pieces that is searched for in a relative path. An
expression either has to match from the start of the path on or is a single piece that may match
anywhere. `Expression.text` writes an expression in the usual notation for regular expressions.
-/

namespace SourceSnapshot.Pattern

/-- A piece of an expression. -/
inductive Piece where
  /-- Directories in front, each with its slash, or nothing. -/
  | leadingDirectories
  /-- Directories in the middle, each behind its slash, or nothing. -/
  | innerDirectories
  | slash
  /-- The slash that marks a directory. -/
  | directoryMark
  /-- One or more characters of a name. -/
  | name
  /-- Any number of characters of a name. -/
  | run
  /-- One character of a name. -/
  | one
  | literal (c : Char)
  | bracket (b : Bracket)
  /-- A directory mark, or the end of the path. -/
  | ending
  /-- Any character of a line. -/
  | anything
  deriving DecidableEq

/-- A searchable expression. -/
inductive Expression where
  | anywhere (piece : Piece)
  | fromStart (pieces : List Piece)
  deriving DecidableEq

/-- The characters that stand for themselves only behind a backslash. -/
def isSpecial (c : Char) : Bool :=
  "()[]\x7b\x7d?*+-|^$\\.&~# \t\n\r\x0b\x0c".toList.contains c

/-- The text of a literal character. -/
def literalText (c : Char) : List Char := if isSpecial c then ['\\', c] else [c]

/-- The text of a directory mark, a group with a name. -/
def directoryMarkText : List Char := "(?P<ps_d>/)".toList

/-- The text of a piece. -/
def Piece.text : Piece → List Char
  | .leadingDirectories => "(?:.+/)?".toList
  | .innerDirectories => "(?:/.+)?".toList
  | .slash => ['/']
  | .directoryMark => directoryMarkText
  | .name => "[^/]+".toList
  | .run => "[^/]*".toList
  | .one => "[^/]".toList
  | .literal c => literalText c
  | .bracket b => b.text
  | .ending => "(?:".toList ++ directoryMarkText ++ "|$)".toList
  | .anything => ['.']

/-- The text of an expression. -/
def Expression.text : Expression → List Char
  | .anywhere piece => piece.text
  | .fromStart pieces => '^' :: pieces.flatMap Piece.text

/-- The pieces of an expression. -/
def Expression.pieces : Expression → List Piece
  | .anywhere piece => [piece]
  | .fromStart pieces => pieces

/-- The piece of a glob's part. -/
def Atom.piece : Atom → Piece
  | .run => .run
  | .one => .one
  | .literal c => .literal c
  | .bracket b => .bracket b

/-- The first reversed range of an expression: how many characters of the expression's text stand
before it, and its two ends. -/
def reversedIn? (before : Nat) : List Bracket.Item → Option (Nat × Char × Char)
  | [] => none
  | .single c :: rest => reversedIn? (before + (Bracket.charText c).length) rest
  | .range first last :: rest =>
    if first.toNat ≤ last.toNat then
      let width := (Bracket.charText first).length + 1 + (Bracket.charText last).length
      reversedIn? (before + width) rest
    else some (before, first, last)

/-- The first reversed range in a sequence of pieces with `before` characters in front of it. -/
def reversedAmong? (before : Nat) : List Piece → Option (Nat × Char × Char)
  | [] => none
  | piece :: rest =>
    let here :=
      match piece with
      | .bracket b => reversedIn? (before + 1 + if b.negated then 1 else 0) b.items
      | _ => none
    here <|> reversedAmong? (before + piece.text.length) rest

/-- The first reversed range of an expression. -/
def Expression.reversedRange? : Expression → Option (Nat × Char × Char)
  | .anywhere piece => reversedAmong? 0 [piece]
  | .fromStart pieces => reversedAmong? 1 pieces

end SourceSnapshot.Pattern
