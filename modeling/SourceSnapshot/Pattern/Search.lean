import SourceSnapshot.Pattern.Expression

/-!
# Search

Where an expression is found in a text. Each piece lists what can remain of the text behind it, the
preferred choice first: a longer match before a shorter one. `matchFrom` takes the first choice that
lets the remaining pieces match, so the remainder that a search returns is the preferred one.
-/

namespace SourceSnapshot.Pattern

/-- What remains behind each beginning of the text whose characters are all in `p`, the shortest
beginning first. -/
def runRemainders (p : Char → Bool) : List Char → List (List Char)
  | [] => [[]]
  | c :: rest => (c :: rest) :: if p c then runRemainders p rest else []

/-- A character of a name. -/
def isNameChar (c : Char) : Bool := c != '/'

/-- A character of a line. -/
def isLineChar (c : Char) : Bool := c != '\n'

/-- The text behind its first character, if that character is a slash. -/
def afterSlash? : List Char → Option (List Char)
  | '/' :: rest => some rest
  | _ => none

/-- The text behind its first character, if that character is in `p`. -/
def afterOne (p : Char → Bool) : List Char → List (List Char)
  | c :: rest => if p c then [rest] else []
  | [] => []

/-- What remains behind one or more characters in `p`, the longest run first. -/
def afterSome (p : Char → Bool) : List Char → List (List Char)
  | c :: rest => if p c then (runRemainders p rest).reverse else []
  | [] => []

/-- Whether the text is at its end, a final line break not counted. -/
def isAtEnd (cs : List Char) : Bool := cs == [] || cs == ['\n']

/-- Whether a character matches a literal. -/
def sameChar (ignoreCase : Bool) (literal c : Char) : Bool :=
  if ignoreCase then Text.Case.agrees literal c else literal == c

/-- What can remain of a text behind a piece, the preferred choice first. -/
def Piece.remainders (ignoreCase : Bool) (cs : List Char) : Piece → List (List Char)
  | .leadingDirectories => (afterSome isLineChar cs).filterMap afterSlash? ++ [cs]
  | .innerDirectories =>
    (match afterSlash? cs with
      | some rest => afterSome isLineChar rest
      | none => []) ++ [cs]
  | .slash => (afterSlash? cs).toList
  | .directoryMark => (afterSlash? cs).toList
  | .name => afterSome isNameChar cs
  | .run => (runRemainders isNameChar cs).reverse
  | .one => afterOne isNameChar cs
  | .literal c => afterOne (sameChar ignoreCase c) cs
  | .bracket b => afterOne (b.accepts ignoreCase) cs
  | .ending => (afterSlash? cs).toList ++ if isAtEnd cs then [cs] else []
  | .anything => afterOne isLineChar cs

/-- What remains of the text behind the preferred match of the pieces from its start on. -/
def matchFrom (ignoreCase : Bool) : List Piece → List Char → Option (List Char)
  | [], cs => some cs
  | piece :: pieces, cs => (piece.remainders ignoreCase cs).findSome? (matchFrom ignoreCase pieces)

/-- The endings of a text, the whole text first. -/
def endings : List Char → List (List Char)
  | [] => [[]]
  | c :: rest => (c :: rest) :: endings rest

/-- What remains of the text behind the first match of an expression. -/
def Expression.search? (ignoreCase : Bool) (e : Expression) (cs : List Char) : Option (List Char) :=
  match e with
  | .fromStart pieces => matchFrom ignoreCase pieces cs
  | .anywhere piece => (endings cs).findSome? (matchFrom ignoreCase [piece])

/-- Whether an expression is found in a text. -/
def Expression.isFound (ignoreCase : Bool) (e : Expression) (cs : List Char) : Bool :=
  (e.search? ignoreCase cs).isSome

end SourceSnapshot.Pattern
