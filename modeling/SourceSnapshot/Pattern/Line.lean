import SourceSnapshot.Pattern.Expression
import SourceSnapshot.Text.Blank
import SourceSnapshot.Text.Quoted
import SourceSnapshot.Text.Split

/-!
# Pattern lines

The expression of a line that holds a pattern. A pattern is cut at its slashes. A pattern without a
slash, or with one at its end only, may match at any depth; every other pattern is tied to the root.
What a pattern ends in decides what it is after: a slash asks for a directory, two stars for
everything inside, and any other segment for a file or directory of that name.
-/

namespace SourceSnapshot.Pattern

/-- Why a pattern is refused. -/
inductive Refusal where
  /-- Nothing is left of the pattern, or it ends in an open escape. -/
  | invalid (line : String)
  deriving DecidableEq

/-- What is reported of a refused pattern. -/
def Refusal.message : Refusal → String
  | .invalid line => "Invalid git pattern: " ++ Text.quoted line

/-- The line without trailing blanks, unless the last one is a blank behind a backslash. -/
def withoutTrailingBlanks (cs : List Char) : List Char :=
  if Text.endsWith cs ['\\', ' '] then cs else Text.dropTrailing Text.isBlank cs

/-- A leading exclamation mark, and the pattern behind it. -/
def splitNegation : List Char → Bool × List Char
  | '!' :: rest => (true, rest)
  | rest => (false, rest)

/-- The segment of two stars as it is written. -/
def twoStars : List Char := ['*', '*']

/-- A leading slash ties the pattern to the root and is dropped; a pattern without an inner slash
gets two stars in front. -/
def tie : List (List Char) → List (List Char)
  | [] => []
  | [] :: rest => rest
  | [segment] => if segment = twoStars then [segment] else [twoStars, segment]
  | [segment, []] => if segment = twoStars then [segment, []] else [twoStars, segment, []]
  | segments => segments

/-- An empty last segment becomes two stars. -/
def closeDirectory : List (List Char) → List (List Char)
  | [] => []
  | [segment] => [if segment = [] then twoStars else segment]
  | segment :: rest => segment :: closeDirectory rest

/-- Of several segments of two stars in a row one is kept. -/
def mergeStars : List (List Char) → List (List Char)
  | [] => []
  | segment :: rest =>
    match mergeStars rest with
    | [] => [segment]
    | next :: others =>
      if segment = twoStars ∧ next = twoStars then next :: others else segment :: next :: others

/-- The pieces of the segments behind the first one. `joined` tells whether a slash stands between
what came before and the next segment. -/
def innerPieces (asksDirectory joined : Bool) : List Segment → List Piece
  | [] => []
  | [.directories] => [if asksDirectory then .directoryMark else .slash]
  | .directories :: rest => .innerDirectories :: innerPieces asksDirectory true rest
  | segment :: rest =>
    (if joined then [.slash] else []) ++
      (match segment with
        | .glob atoms => atoms.map Atom.piece
        | _ => [.name]) ++
      (if rest.isEmpty then [.ending] else []) ++
      innerPieces asksDirectory true rest

/-- The expression of the segments of a pattern. A pattern of stars alone is found in every path
with the slashes it asks for. -/
def Expression.ofSegments (asksDirectory : Bool) : List Segment → Expression
  | [.directories] => .anywhere (if asksDirectory then .directoryMark else .anything)
  | [.directories, .name] => .anywhere .anything
  | [.directories, .name, .directories] =>
    .anywhere (if asksDirectory then .directoryMark else .slash)
  | .directories :: rest => .fromStart (.leadingDirectories :: innerPieces asksDirectory false rest)
  | segments => .fromStart (innerPieces asksDirectory false segments)

/-- The segments of a pattern, all of them or the fault of the first that is none. -/
def readSegments : List (List Char) → Except GlobFault (List Segment)
  | [] => .ok []
  | cs :: rest => do
    let segment ← Segment.read cs
    let segments ← readSegments rest
    return segment :: segments

/-- The segments of a pattern's text behind its negation, as they are written. -/
def segmentTexts (pattern : List Char) : List (List Char) :=
  mergeStars (closeDirectory (tie (Text.splitOn '/' pattern)))

/-- The expression of a pattern line: none for an empty line, a comment, a lone slash or a pattern
with an unclosed bracket, which match nothing. -/
def Expression.ofLine? (line : String) : Except Refusal (Option Expression) :=
  let cs := withoutTrailingBlanks line.toList
  if cs = [] || cs.head? = some '#' || cs = ['/'] then .ok none
  else
    let pattern := (splitNegation cs).2
    match segmentTexts pattern with
    | [] => .error (.invalid line)
    | texts =>
      match readSegments texts with
      | .ok segments => .ok (some (.ofSegments (Text.endsWith pattern ['/']) segments))
      | .error .unclosedBracket => .ok none
      | .error .openEscape => .error (.invalid line)

end SourceSnapshot.Pattern
