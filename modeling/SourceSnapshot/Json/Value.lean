import SourceSnapshot.Number.Binary64

/-!
# JSON values

Values as they come in from outside, with the members of an object in their order. A number written
with a point or an exponent keeps the bits of the floating-point number it stands for.
-/

namespace SourceSnapshot

/-- A JSON value. -/
inductive Json where
  | null
  | bool (b : Bool)
  | int (n : Int)
  | float (bits : UInt64)
  | string (s : String)
  | array (items : List Json)
  | object (members : List (String × Json))

namespace Json

/-- The value of the first member with this key. -/
def member? (key : String) : List (String × Json) → Option Json
  | [] => none
  | (k, v) :: rest => if k = key then some v else member? key rest

/-- Whether the value counts as present: not null, false, zero or empty. -/
def isTruthy : Json → Bool
  | .null => false
  | .bool b => b
  | .int n => n != 0
  | .float bits => (Number.Binary64.ofBits bits).isNonzero
  | .string s => s != ""
  | .array items => !items.isEmpty
  | .object members => !members.isEmpty

mutual

/-- How many values stand within each other, the outermost one included. -/
def nesting : Json → Nat
  | .array items => nestingOfItems items + 1
  | .object members => nestingOfMembers members + 1
  | _ => 1

/-- The deepest nesting among items. -/
def nestingOfItems : List Json → Nat
  | [] => 0
  | item :: rest => max (nesting item) (nestingOfItems rest)

/-- The deepest nesting among members. -/
def nestingOfMembers : List (String × Json) → Nat
  | [] => 0
  | (_, value) :: rest => max (nesting value) (nestingOfMembers rest)

end

/-- How deep values may stand within each other where the depth is limited. -/
def maxNesting : Nat := 255

/-- What is reported of values that stand too deep within each other to be handed out. -/
def nestingMessage : String := "Maximum serialization depth exceeded"

end Json

end SourceSnapshot
