import SourceSnapshot.Json.Value
import SourceSnapshot.Number.Whole
import SourceSnapshot.Validation.Violation

/-!
# Readers of values and fields

Checks that turn an untyped value into a typed one. An integer may be given as a whole number of any
form or as its text, a truth value also as zero, one or one of a few words; texts and lists are only
taken as they are. The fields of a record are checked in the order of their declaration; a missing
field has its default, if it has one.
-/

namespace SourceSnapshot.Validation

open Number (Binary64)

/-- A check of an untyped value. -/
abbrev Reader (α : Type) := Json → Checked α

/-- The least positive integer that does not fit into 64 bits with a sign. -/
def wordBound : Int := Nat.pow 2 63

/-- Whether an integer fits into 64 bits with a sign. -/
def fitsWord (n : Int) : Bool := -wordBound ≤ n && n < wordBound

/-- Whether an integer that a floating-point number stands for is small enough to be taken. -/
def isTakenWhole (n : Int) : Bool := -wordBound < n && n < wordBound

/-- The integer that a floating-point number stands for. -/
def wholeNumber : Binary64 → Checked Int
  | .finite negative mantissa exponent =>
    let n := Binary64.signed negative (Binary64.wholePart mantissa exponent)
    if !Binary64.isWhole mantissa exponent then .broken .integral
    else if isTakenWhole n then .valid n
    else .broken .integerSize
  | _ => .broken .finite

/-- The integer that a text writes. -/
def integerText (s : String) : Checked Int :=
  match Number.Whole.ofText s with
  | .ok n => .valid n
  | .error .tooLong => .broken .integerSize
  | .error .malformed => .broken .integerText

/-- Reads an integer. -/
def integer : Reader Int
  | .int n => .valid n
  | .bool b => .valid (if b then 1 else 0)
  | .float bits => wholeNumber (Binary64.ofBits bits)
  | .string s => integerText s
  | _ => .broken .integer

/-- Reads an integer that is not negative. -/
def natural : Reader Nat := fun v =>
  (integer v).andThen fun
    | .ofNat n => .valid n
    | .negSucc _ => .broken .nonnegative

/-- The words for a truth value; the case of their letters does not matter. -/
def booleanWord? (word : String) : Option Bool :=
  if ["1", "on", "t", "true", "y", "yes"].contains word then some true
  else if ["0", "off", "f", "false", "n", "no"].contains word then some false
  else none

/-- The truth value that an integer stands for. -/
def booleanOf : Int → Checked Bool
  | 0 => .valid false
  | 1 => .valid true
  | _ => .broken .booleanText

/-- Reads a truth value. -/
def boolean : Reader Bool
  | .bool b => .valid b
  | .int n => if fitsWord n then booleanOf n else .broken .boolean
  | .float bits =>
    match wholeNumber (Binary64.ofBits bits) with
    | .valid n => booleanOf n
    | .invalid _ => .broken .boolean
  | .string s =>
    match booleanWord? (String.ofList (s.toList.map Char.toLower)) with
    | some b => .valid b
    | none => .broken .booleanText
  | _ => .broken .boolean

/-- Reads a text. -/
def text : Reader String
  | .string s => .valid s
  | _ => .broken .text

/-- Reads the name of an encoding. -/
def encoding (codecs : Text.Codecs) : Reader Text.Encoding.Named := fun v =>
  (text v).andThen fun name =>
    match Text.Encoding.Named.ofName codecs name with
    | .ok known => .valid known
    | .error fault => .broken (.encoding fault)

/-- Reads a value that may be null. -/
def optional {α : Type} (read : Reader α) : Reader (Option α)
  | .null => .valid none
  | v => (read v).map some

/-- Reads the items of a list, counted from a position. -/
def itemsFrom {α : Type} (read : Reader α) (position : Nat) : List Json → Checked (List α)
  | [] => .valid []
  | item :: rest =>
    .both List.cons ((read item).below (.index position)) (itemsFrom read (position + 1) rest)

/-- Reads a list. -/
def list {α : Type} (read : Reader α) : Reader (List α)
  | .array items => itemsFrom read 0 items
  | _ => .broken .list

/-- Reads the members of an object that stands for a record of the given name. -/
def record {α : Type} (name : String) (read : List (String × Json) → Checked α) : Reader α
  | .object members => read members
  | _ => .broken (.record name)

/-- Reads a field that must be there. -/
def required {α : Type} (members : List (String × Json)) (key : String) (read : Reader α) :
    Checked α :=
  match Json.member? key members with
  | some v => (read v).below (.key key)
  | none => (Checked.broken .present).below (.key key)

/-- Reads a field that has a default. -/
def defaulting {α : Type} (members : List (String × Json)) (key : String) (default : α)
    (read : Reader α) : Checked α :=
  match Json.member? key members with
  | some v => (read v).below (.key key)
  | none => .valid default

/-- Reads a field that must be there under one of two keys, the first of which goes before. -/
def requiredAs {α : Type} (members : List (String × Json)) (key other : String) (read : Reader α) :
    Checked α :=
  match Json.member? key members, Json.member? other members with
  | none, some v => (read v).below (.key other)
  | _, _ => required members key read

/-- Refuses members with other keys than these. -/
def only (keys : List String) (members : List (String × Json)) : Checked Unit :=
  match members.filter fun (key, _) => !keys.contains key with
  | [] => .valid ()
  | others => .invalid (others.map fun (key, _) => ⟨.expected, [.key key]⟩)

end SourceSnapshot.Validation
