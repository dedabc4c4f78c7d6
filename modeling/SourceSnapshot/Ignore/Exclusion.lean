import SourceSnapshot.Ignore.Engine

/-!
# Exclusion of entries

Why an entry of a directory is left out of a run: the directory of the version control system always
is, names that start with a dot unless they are wanted, and what the ignore rules say. The rules are
asked only where the name does not decide. Every run over a directory asks the same question, so all
runs see the same paths.
-/

namespace SourceSnapshot.Ignore

/-- Why an entry is left out. -/
inductive Exclusion where
  | reserved
  | dotName
  | rule
  deriving DecidableEq

/-- The wording of an exclusion. -/
def Exclusion.text : Exclusion → String
  | .reserved => "hard-coded exclude"
  | .dotName => "dot file"
  | .rule => "ignore rule"

namespace Exclusion

/-- The name that is always left out. -/
def reservedName : String := ".git"

/-- Why a name alone leaves an entry out. -/
def ofName? (includeDotNames : Bool) (name : String) : Option Exclusion :=
  if name = reservedName then some .reserved
  else if !includeDotNames && name.toList.head? = some '.' then some .dotName
  else none

/-- Why an entry is left out, if it is, and the engine that remembers its answer. Without an engine
no rule leaves anything out. -/
def of (includeDotNames : Bool) (engine? : Option Engine) (path name : String) (isDir : Bool) :
    Except PathFault (Option Exclusion) × Option Engine :=
  match ofName? includeDotNames name with
  | some exclusion => (.ok (some exclusion), engine?)
  | none =>
    match engine? with
    | none => (.ok none, none)
    | some engine =>
      let (answer, engine) := engine.ignores path isDir
      (answer.map fun ignored => if ignored then some .rule else none, some engine)

end Exclusion

end SourceSnapshot.Ignore
