import SourceSnapshot.CommandLine.Arguments
import SourceSnapshot.FileSystem.Lookup
import SourceSnapshot.Number.Numeral
import SourceSnapshot.Settings
import SourceSnapshot.Snapshot.Output
import SourceSnapshot.Text.Split

/-!
# Options

What the arguments ask for. The values are checked in the order in which the switches are first
given, then the directory, then whether there are too many operands; the first fault ends the check.
-/

namespace SourceSnapshot.CommandLine

open FileSystem (AccessFault)
open Number (Binary64)
open Snapshot (Format)

/-- What the arguments ask for. The size limit is in mebibytes. -/
structure Options where
  directory : String
  output : String
  ignore : String
  ignoreFile : String
  maxSize : Binary64
  includeBinary : Bool
  includeDot : Bool
  maxDepth : Option Nat
  format : Format
  printOnly : Bool
  explicit : Repository.Explicit
  verbose : Bool
  deriving DecidableEq

/-- Why the command does not start. -/
inductive StartFault where
  | usage (fault : UsageFault)
  | nulInPath
  | help
  deriving DecidableEq

/-- The output directory unless another is asked for. -/
def defaultOutput : String := "code-digest-output"

/-- The size limit in mebibytes unless another is asked for. -/
def defaultMaxSize : Binary64 := .finite false 10 0

/-- The size limit that a text writes; it is not below zero. -/
def readMaxSize? (text : String) : Option Binary64 :=
  match Number.fraction? text with
  | some fraction =>
    let size := Binary64.ofBits fraction.toBits
    if size.isNegative then none else some size
  | none => none

/-- The depth that a text writes. -/
def readMaxDepth? (text : String) : Option Nat :=
  match Number.integer? text with
  | some (.ofNat n) => some n
  | _ => none

/-- What a path leads to; nothing if it leads nowhere. -/
def placeOf (fs : FileSystem) (path : String) : Except StartFault (Option FileSystem.Place) :=
  match fs.lookUp path with
  | .ok place => .ok (some place)
  | .error .nulInPath => .error .nulInPath
  | .error (.call _) => .ok none

/-- Checks the value of a switch that is given. -/
def checkValue (fs : FileSystem) (switch : Switch) (value : String) : Except StartFault Unit :=
  let fail := .error (.usage (.badValue switch value))
  match switch with
  | .maxSize => if (readMaxSize? value).isSome then .ok () else fail
  | .maxDepth => if (readMaxDepth? value).isSome then .ok () else fail
  | .format => if (Format.ofName? value).isSome then .ok () else fail
  | .ignoreFile =>
    match placeOf fs value with
    | .error fault => .error fault
    | .ok (some (.directory _)) => fail
    | .ok _ => .ok ()
  | _ => .ok ()

/-- Checks the directory: something is there that is no regular file. -/
def checkDirectory (fs : FileSystem) (path : String) : Except StartFault Unit :=
  match placeOf fs path with
  | .error fault => .error fault
  | .ok none => .error (.usage (.badDirectory path))
  | .ok (some (.file _ _ _)) => .error (.usage (.badDirectory path))
  | .ok (some _) => .ok ()

/-- The switches in the order in which they are first given. -/
def switchOrder (given : List Given) : List Switch := (given.map Given.switch).eraseDups

/-- Checks all values. -/
def check (fs : FileSystem) (a : Arguments) : Except StartFault Unit := do
  if a.has .help then throw .help
  (switchOrder a.switches).forM fun switch => checkValue fs switch ((a.value? switch).getD "")
  checkDirectory fs (a.operands.head?.getD ".")
  match a.operands with
  | _ :: extra :: _ => throw (.usage (.extraOperand extra))
  | _ => return ()

/-- The value of a switch, or else of an environment variable that is not empty. -/
def fromEnvironment (a : Arguments) (environment : List (String × String)) (switch : Switch)
    (variable_ : String) : Option String :=
  match a.value? switch with
  | some value => some value
  | none => (environment.lookup variable_).filter (· != "")

/-- What the arguments ask for, once all values are checked. -/
def Options.ofArguments (a : Arguments) (environment : List (String × String)) : Options where
  directory := a.operands.head?.getD "."
  output := (a.value? .output).getD defaultOutput
  ignore := (a.value? .ignore).getD ""
  ignoreFile := (a.value? .ignoreFile).getD ""
  maxSize := ((a.value? .maxSize).bind readMaxSize?).getD defaultMaxSize
  includeBinary := a.has .includeBinary
  includeDot := a.has .includeDot
  maxDepth := (a.value? .maxDepth).bind readMaxDepth?
  format := ((a.value? .format).bind Format.ofName?).getD .both
  printOnly := a.has .print
  explicit := {
    repository? := fromEnvironment a environment .repository "GITHUB_REPOSITORY"
    branch? := fromEnvironment a environment .branch "GITHUB_REF"
    commit? := fromEnvironment a environment .commit "GITHUB_SHA" }
  verbose := a.has .verbose

/-- What a command line asks for. -/
def Options.read (fs : FileSystem) (environment : List (String × String))
    (arguments : List String) : Except StartFault Options :=
  match Arguments.read arguments with
  | .error fault => .error (.usage fault)
  | .ok a =>
    match check fs a with
    | .error fault => .error fault
    | .ok () => .ok (.ofArguments a environment)

/-- The patterns in a list that is separated by commas; blanks around them are dropped, and with
them what is blank. -/
def splitPatterns (text : String) : List String :=
  (((Text.splitOn ',' text.toList).map (Text.trim Text.isBlank)).filter (· != [])).map String.ofList

end SourceSnapshot.CommandLine
