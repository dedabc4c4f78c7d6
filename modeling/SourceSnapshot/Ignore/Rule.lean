import SourceSnapshot.Pattern.Line
import SourceSnapshot.Pattern.Search

/-!
# Ignore rules

A rule is what one line of an ignore file says. Besides the expression of its pattern it knows
whether it takes paths back in, whether it speaks about directories only, whether it is tied to a
place, and whether it speaks about the contents of a directory and not about the directory itself.
-/

namespace SourceSnapshot.Ignore

open Pattern (Expression)

/-- A rule and the line it comes from. -/
structure Rule where
  source : String
  negative : Bool
  directoryOnly : Bool
  anchored : Bool
  contentsOnly : Bool
  ignoreCase : Bool
  expression : Expression
  deriving DecidableEq

/-- Why a line is no rule. -/
inductive Rejection where
  /-- Nothing is left without the exclamation mark, the slashes and the trailing blanks. -/
  | nothingToMatch
  /-- The line is a comment, or has an unclosed bracket. -/
  | matchesNothing
  /-- The pattern is refused. -/
  | refused (cause : Pattern.Refusal)
  /-- A range is the wrong way round; `before` counts the characters of the expression before it. -/
  | reversedRange (expression : List Char) (before : Nat) (first last : Char)
  deriving DecidableEq

namespace Rejection

/-- Where in a text of several lines a character stands. -/
def linePlace (text : List Char) (before : Nat) : String :=
  let above := text.take before
  let line := above.count '\n' + 1
  let column := (above.reverse.takeWhile (· != '\n')).length + 1
  " (line " ++ toString line ++ ", column " ++ toString column ++ ")"

/-- What is reported of a rejected line; empty lines and comments are passed over in silence. -/
def report? : Rejection → Option String
  | .nothingToMatch => none
  | .matchesNothing => none
  | .refused cause => some cause.message
  | .reversedRange text before first last =>
    some ("bad character range " ++
      String.ofList (Pattern.Bracket.charText first ++ '-' :: Pattern.Bracket.charText last) ++
      " at position " ++ toString before ++
      (if text.contains '\n' then linePlace text before else ""))

end Rejection

namespace Rule

/-- The byte order mark, which is dropped at the start of a line. -/
def byteOrderMark : Char := '\ufeff'

/-- What a line says behind its exclamation mark and without trailing blanks. -/
def body (line : List Char) : List Char :=
  Pattern.withoutTrailingBlanks (Pattern.splitNegation line).2

/-- The rule of a line, or why it is none. -/
def ofLine (ignoreCase : Bool) (line : String) : Except Rejection Rule :=
  let text := line.toList.dropWhile (· == byteOrderMark)
  let inner := body text
  if inner.all (· == '/') then .error .nothingToMatch
  else
    match Expression.ofLine? (String.ofList text) with
    | .error cause => .error (.refused cause)
    | .ok none => .error .matchesNothing
    | .ok (some expression) =>
      match expression.reversedRange? with
      | some (before, first, last) =>
        .error (.reversedRange expression.text before first last)
      | none =>
        .ok {
          source := line
          negative := (Pattern.splitNegation text).1
          directoryOnly := Text.endsWith inner ['/']
          anchored := inner.dropLast.contains '/'
          contentsOnly := Text.endsWith inner ['/', '*', '*']
          ignoreCase := ignoreCase
          expression := expression }

/-- The rule of an item of a list of lines; an item that is no text is no rule. -/
def ofItem (ignoreCase : Bool) : Option String → Except Rejection Rule
  | some line => ofLine ignoreCase line
  | none => .error .nothingToMatch

/-- A path with a slash at its end if it is that of a directory. -/
def asDirectory (isDir : Bool) (path : List Char) : List Char :=
  if isDir && !Text.endsWith path ['/'] then path ++ ['/'] else path

/-- Whether the rule matches a relative path, in which a directory ends with a slash. A rule about
the contents of a directory does not match where its preferred match takes in the whole directory.
-/
def matchesText (r : Rule) (path : List Char) : Bool :=
  match r.expression.search? r.ignoreCase path with
  | none => false
  | some rest => !(r.contentsOnly && rest.isEmpty && Text.endsWith path ['/'])

/-- Whether the rule matches a relative path of a file or directory. -/
def isMatch (r : Rule) (path : String) (isDir : Bool) : Bool :=
  r.matchesText (asDirectory isDir path.toList)

end Rule

end SourceSnapshot.Ignore
