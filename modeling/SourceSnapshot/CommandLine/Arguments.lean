import SourceSnapshot.Text.Split

/-!
# Arguments

How a list of arguments is told apart into options, their values and operands. An option has a long
name behind two hyphens, and it may have a short one behind a single hyphen; short options may be
written together, and a value may be joined to its option. Two hyphens alone end the options.
-/

namespace SourceSnapshot.CommandLine

/-- The switches of the command. -/
inductive Switch where
  | output
  | ignore
  | ignoreFile
  | maxSize
  | includeBinary
  | includeDot
  | maxDepth
  | format
  | print
  | repository
  | branch
  | commit
  | verbose
  | help
  deriving DecidableEq

namespace Switch

/-- Whether a value belongs to the switch. -/
def takesValue : Switch → Bool
  | .includeBinary => false
  | .includeDot => false
  | .print => false
  | .verbose => false
  | .help => false
  | _ => true

/-- The switch of a long name. -/
def ofLong? : String → Option Switch
  | "--output" => some .output
  | "--ignore" => some .ignore
  | "--gitignore" => some .ignoreFile
  | "--max-size" => some .maxSize
  | "--include-binary" => some .includeBinary
  | "--include-dot" => some .includeDot
  | "--max-depth" => some .maxDepth
  | "--format" => some .format
  | "--print" => some .print
  | "--repository" => some .repository
  | "--branch" => some .branch
  | "--commit" => some .commit
  | "--verbose" => some .verbose
  | "--help" => some .help
  | _ => none

/-- The switch of a short name. -/
def ofShort? : Char → Option Switch
  | 'o' => some .output
  | 'i' => some .ignore
  | 'f' => some .format
  | 'p' => some .print
  | 'v' => some .verbose
  | _ => none

end Switch

/-- A switch that is given, with its value if it takes one. -/
structure Given where
  switch : Switch
  value : String
  deriving DecidableEq

/-- What is wrong with the use of the command. -/
inductive UsageFault where
  | unknownSwitch (name : String)
  | missingValue (switch : Switch)
  | unexpectedValue (switch : Switch)
  | badValue (switch : Switch) (value : String)
  | badDirectory (path : String)
  | extraOperand (path : String)
  deriving DecidableEq

/-- What a single argument says: switches that are complete, and a last one whose value is the next
argument. -/
structure Cluster where
  complete : List Given
  awaiting? : Option Switch
  deriving DecidableEq

/-- The switches of short names written together; what follows one that takes a value is its value.
-/
def readShort : List Char → Except UsageFault Cluster
  | [] => .ok ⟨[], none⟩
  | c :: rest =>
    match Switch.ofShort? c with
    | none => .error (.unknownSwitch (String.ofList ['-', c]))
    | some switch =>
      if switch.takesValue then
        if rest.isEmpty then .ok ⟨[], some switch⟩
        else .ok ⟨[⟨switch, String.ofList rest⟩], none⟩
      else
        (readShort rest).map fun cluster =>
          { cluster with complete := ⟨switch, ""⟩ :: cluster.complete }

/-- The name in front of an equals sign, and the value behind it. -/
def splitAtEquals (cs : List Char) : List Char × Option (List Char) :=
  let name := cs.takeWhile (· != '=')
  match cs.drop name.length with
  | [] => (name, none)
  | _ :: value => (name, some value)

/-- What an argument says that starts with a hyphen. -/
def readSwitches (argument : List Char) : Except UsageFault Cluster :=
  let (name, value?) := splitAtEquals argument
  match Switch.ofLong? (String.ofList name), value? with
  | some switch, some value =>
    if switch.takesValue then .ok ⟨[⟨switch, String.ofList value⟩], none⟩
    else .error (.unexpectedValue switch)
  | some switch, none =>
    if switch.takesValue then .ok ⟨[], some switch⟩ else .ok ⟨[⟨switch, ""⟩], none⟩
  | none, _ =>
    if ['-', '-'].isPrefixOf argument then .error (.unknownSwitch (String.ofList name))
    else readShort (argument.drop 1)

/-- The switches and the operands of a command line, each in their order. -/
structure Arguments where
  switches : List Given
  operands : List String
  deriving DecidableEq

/-- Whether an argument is read as switches. -/
def isSwitches (argument : String) : Bool :=
  match argument.toList with
  | '-' :: _ :: _ => true
  | _ => false

/-- Tells the arguments apart. -/
def Arguments.read : List String → Except UsageFault Arguments
  | [] => .ok ⟨[], []⟩
  | argument :: rest =>
    if argument = "--" then .ok ⟨[], rest⟩
    else if !isSwitches argument then
      (read rest).map fun others => { others with operands := argument :: others.operands }
    else
      match readSwitches argument.toList with
      | .error fault => .error fault
      | .ok ⟨complete, none⟩ =>
        (read rest).map fun others => { others with switches := complete ++ others.switches }
      | .ok ⟨complete, some switch⟩ =>
        match rest with
        | [] => .error (.missingValue switch)
        | value :: rest =>
          (read rest).map fun others =>
            { others with switches := complete ++ ⟨switch, value⟩ :: others.switches }

/-- The value of a switch; of several the last one counts. -/
def Arguments.value? (a : Arguments) (switch : Switch) : Option String :=
  (a.switches.reverse.find? fun given => given.switch = switch).map Given.value

/-- Whether a switch is given. -/
def Arguments.has (a : Arguments) (switch : Switch) : Bool :=
  a.switches.any fun given => given.switch = switch

end SourceSnapshot.CommandLine
