import SourceSnapshot.Log
import SourceSnapshot.Text.Blank

/-!
# Transcripts

What the command writes to its streams. Messages lose the control sequences that would style them;
log records stand between them, each behind the time, and are left out unless they matter or details
are asked for.
-/

namespace SourceSnapshot.CommandLine

/-- The character that starts a control sequence. -/
def escape : Char := '\x1b'

/-- Whether the character is a parameter of a control sequence. -/
def isParameter (c : Char) : Bool := '0' ≤ c && c ≤ '?'

/-- Whether the character is an intermediate of a control sequence, behind its parameters. -/
def isIntermediate (c : Char) : Bool := ' ' ≤ c && c ≤ '/'

/-- Whether the character ends a control sequence. -/
def isFinal (c : Char) : Bool := '@' ≤ c && c ≤ '~'

/-- How many characters belong to the control sequence behind its escape, if there is one: a
bracket, parameters, intermediates and one final character. -/
def sequenceWidth? : List Char → Option Nat
  | '[' :: rest =>
    let parameters := rest.takeWhile isParameter
    let behind := rest.drop parameters.length
    let intermediates := behind.takeWhile isIntermediate
    match behind.drop intermediates.length with
    | c :: _ =>
      if isFinal c then some (parameters.length + intermediates.length + 2) else none
    | [] => none
  | _ => none

/-- The text without control sequences, after skipping `skipped` characters. -/
def unstyledFrom (skipped : Nat) : List Char → List Char
  | [] => []
  | c :: rest =>
    match skipped with
    | n + 1 => unstyledFrom n rest
    | 0 =>
      match if c = escape then sequenceWidth? rest else none with
      | some width => unstyledFrom width rest
      | none => c :: unstyledFrom 0 rest

/-- The text without control sequences. -/
def unstyled (s : String) : String := String.ofList (unstyledFrom 0 s.toList)

/-- A message, or a record of the log. -/
inductive Notice where
  | message (text : String)
  | record (r : Log.Record)
  deriving DecidableEq

/-- A message as it is written. -/
def messageLine (text : String) : String := unstyled (text ++ "\n")

/-- A record as it is written. -/
def recordLine (time : String) (r : Log.Record) : String :=
  time ++ " - " ++ r.level.text ++ " - " ++ r.message ++ "\n"

/-- A notice as it is written, if it is. -/
def Notice.text (verbose : Bool) (time : String) : Notice → String
  | .message text => messageLine text
  | .record r => if verbose || r.level.isAlwaysShown then recordLine time r else ""

/-- Notices as they are written. -/
def transcript (verbose : Bool) (time : String) (notices : List Notice) : String :=
  String.join (notices.map (Notice.text verbose time))

end SourceSnapshot.CommandLine
