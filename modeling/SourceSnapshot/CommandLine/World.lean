import SourceSnapshot.CommandLine.Run
import SourceSnapshot.FileSystem.Description

/-!
# Descriptions of the world

What the command finds around it, written down as data: the entries of the working directory, the
environment, the repository around the directory, two readings of the clock and the instant.
-/

namespace SourceSnapshot.CommandLine

open Repository (Checkout)
open Snapshot (Instant Moment Quantity)

/-- The value under a key that is no null. -/
def memberAt? (members : List (String × Json)) (key : String) : Option Json :=
  match Json.member? key members with
  | some .null => none
  | found => found

/-- The text under a key. -/
def textAt? (members : List (String × Json)) (key : String) : Option String :=
  match memberAt? members key with
  | some (.string s) => some s
  | _ => none

/-- The repository that a value describes; without a place for its files there is none. -/
def checkoutOf : Option Json → Option Checkout
  | some (.object members) =>
    if (memberAt? members "missing").any Json.isTruthy then none
    else
      some ⟨textAt? members "url", textAt? members "worktree",
        (textAt? members "git_dir").getD "", textAt? members "branch", textAt? members "commit"⟩
  | _ => none

/-- The quantity that a number stands for; a truth value is zero or one. -/
def quantityOf : Json → Quantity
  | .float bits => .float bits
  | .int n => .whole n
  | .bool b => .whole (if b then 1 else 0)
  | _ => .whole 0

/-- The natural numbers in an array. -/
def naturalsOf : Option Json → List Nat
  | some (.array items) => items.map fun
    | .int n => n.toNat
    | _ => 0
  | _ => []

/-- The instant given by seven numbers. -/
def instantOf : List Nat → Instant
  | [year, month, day, hour, minute, second, microsecond] =>
    ⟨year, month, day, hour, minute, second, microsecond⟩
  | _ => ⟨2024, 1, 2, 3, 4, 5, 678901⟩

/-- The circumstances of a snapshot. -/
def momentOf (members : List (String × Json)) : Moment :=
  let instant := instantOf (naturalsOf (memberAt? members "now"))
  match memberAt? members "clock" with
  | some (.array [started, stopped]) => ⟨quantityOf started, quantityOf stopped, instant⟩
  | _ => ⟨.whole 0, .whole 0, instant⟩

/-- The texts among the members of an object. -/
def textsOf : Option Json → List (String × String)
  | some (.object members) => members.filterMap fun
    | (key, .string value) => some (key, value)
    | _ => none
  | _ => []

/-- The file system whose working directory is described. -/
def fileSystemOf (location : List String) (members : List (String × Json)) : FileSystem :=
  .ofWorkingDirectory location (((memberAt? members "fs").map FileSystem.Entry.listOf).getD [])

/-- The world that is described, with its working directory at a location. -/
def worldOf (location : List String) (logTime : String) (members : List (String × Json)) :
    World where
  fileSystem := fileSystemOf location members
  environment := textsOf (memberAt? members "env")
  checkout? := checkoutOf (memberAt? members "git")
  moment := momentOf members
  logTime := logTime

end SourceSnapshot.CommandLine
