import SourceSnapshot.FileSystem.Lookup
import SourceSnapshot.Ignore.Exclusion
import SourceSnapshot.Text.Encoding.Name

/-!
# Traversals

What a walk through a directory has in common, whatever it collects. A walk goes through the entries
in the order of their listing and takes along an ignore engine, which remembers its answers. It may
be stopped by a failure; what was found until then stays.
-/

namespace SourceSnapshot

open FileSystem (AccessFault CallFault Entry)
open Ignore (Engine Exclusion PathFault)
open Text.Encoding (ReadFault)

namespace Traversal

/-- Why a traversal ended without a result. -/
inductive Failure where
  /-- The root cannot be listed. -/
  | unlistable (fault : CallFault)
  /-- The path of the root has a NUL in it. -/
  | nulInPath
  /-- An entry has a path that no rule can be asked about. -/
  | badPath (fault : PathFault)
  /-- It cannot be told what an entry is. -/
  | unknown (fault : CallFault)
  /-- The encoding of the run cannot yield the text of a file. -/
  | unreadable (fault : ReadFault)
  deriving DecidableEq

/-- What is reported of a traversal without a result. -/
def Failure.message : Failure → String
  | .unlistable fault => "Cannot read directory " ++ fault.path ++ ": " ++ fault.message
  | .nulInPath => AccessFault.nulInPath.message
  | .badPath fault => fault.message
  | .unknown fault => fault.message
  | .unreadable fault => fault.message

/-- What a walk has found, the engine that it leaves behind, and what stopped it. -/
structure Walk (α : Type) where
  engine? : Option Engine
  found : List α
  log : List Log.Record
  stop? : Option Failure

namespace Walk

variable {α : Type}

/-- A walk that finds nothing. -/
def idle (engine? : Option Engine) (log : List Log.Record) : Walk α := ⟨engine?, [], log, none⟩

/-- A walk that finds one thing. -/
def single (engine? : Option Engine) (a : α) (log : List Log.Record) : Walk α :=
  ⟨engine?, [a], log, none⟩

/-- A walk that is stopped before it finds anything. -/
def stopped (engine? : Option Engine) (failure : Failure) : Walk α :=
  ⟨engine?, [], [], some failure⟩

/-- A walk goes on with the next one unless it was stopped. -/
def andThen (first : Walk α) (next : Option Engine → Walk α) : Walk α :=
  match first.stop? with
  | some _ => first
  | none =>
    let second := next first.engine?
    ⟨second.engine?, first.found ++ second.found, first.log ++ second.log, second.stop?⟩

end Walk

/-- What to do about an entry: it may be left out, or kept. -/
def decideEntry {α : Type} (includeDotNames : Bool) (engine? : Option Engine)
    (path name : String) (isDir : Bool) (excluded : Option Engine → Exclusion → Walk α)
    (kept : Option Engine → Walk α) : Walk α :=
  match Exclusion.of includeDotNames engine? path name isDir with
  | (.error fault, engine?) => .stopped engine? (.badPath fault)
  | (.ok (some exclusion), engine?) => excluded engine? exclusion
  | (.ok none, engine?) => kept engine?

/-- The result of a traversal, with the engine and the log that it leaves behind. -/
structure Run (α : Type) where
  result : Except Failure α
  engine? : Option Engine
  log : List Log.Record

/-- A traversal of the directory that a path leads to. -/
def run {α β : Type} (fs : FileSystem) (engine? : Option Engine) (path : String)
    (walk : List Entry → Walk α) (finish : List α → β × List Log.Record) : Run β :=
  match fs.list path with
  | .error .nulInPath => ⟨.error .nulInPath, engine?, []⟩
  | .error (.call fault) => ⟨.error (.unlistable fault), engine?, []⟩
  | .ok entries =>
    let course := walk entries
    match course.stop? with
    | some failure => ⟨.error failure, course.engine?, course.log⟩
    | none =>
      let (value, log) := finish course.found
      ⟨.ok value, course.engine?, course.log ++ log⟩

end Traversal

end SourceSnapshot
