import SourceSnapshot.Text.Encoding.Name

/-!
# Violations

What is wrong with a value that came in from outside: the rule that it breaks, and where it stands
in what was handed over. A checked value is either good or comes with all of its violations in
order.
-/

namespace SourceSnapshot.Validation

/-- The rule that a value breaks. -/
inductive Rule where
  | nonnegative
  | integer
  | integerText
  | integerSize
  | integral
  | finite
  | boolean
  | booleanText
  | text
  | list
  | dictionary
  | record (name : String)
  | choice (words : String)
  | callable
  | present
  | expected
  | frozen
  | nesting
  | encoding (fault : Text.Encoding.NameFault)
  deriving DecidableEq

/-- The short name under which a broken rule is reported. -/
def Rule.code : Rule → String
  | .nonnegative => "greater_than_equal"
  | .integer => "int_type"
  | .integerText => "int_parsing"
  | .integerSize => "int_parsing_size"
  | .integral => "int_from_float"
  | .finite => "finite_number"
  | .boolean => "bool_type"
  | .booleanText => "bool_parsing"
  | .text => "string_type"
  | .list => "list_type"
  | .dictionary => "dict_type"
  | .record _ => "model_type"
  | .choice _ => "enum"
  | .callable => "callable_type"
  | .present => "missing"
  | .expected => "extra_forbidden"
  | .frozen => "frozen_instance"
  | .nesting => "recursion_depth_exceeded"
  | .encoding _ => "value_error"

/-- What is reported of a broken rule. -/
def Rule.message : Rule → String
  | .nonnegative => "Input should be greater than or equal to 0"
  | .integer => "Input should be a valid integer"
  | .integerText => "Input should be a valid integer, unable to parse string as an integer"
  | .integerSize => "Unable to parse input string as an integer, exceeded maximum size"
  | .integral => "Input should be a valid integer, got a number with a fractional part"
  | .finite => "Input should be a finite number"
  | .boolean => "Input should be a valid boolean"
  | .booleanText => "Input should be a valid boolean, unable to interpret input"
  | .text => "Input should be a valid string"
  | .list => "Input should be a valid list"
  | .dictionary => "Input should be a valid dictionary"
  | .record name => "Input should be a valid dictionary or instance of " ++ name
  | .choice words => "Input should be " ++ words
  | .callable => "Input should be callable"
  | .present => "Field required"
  | .expected => "Extra inputs are not permitted"
  | .frozen => "Instance is frozen"
  | .nesting => "Recursion error - maximum validation depth exceeded"
  | .encoding fault => "Value error, " ++ fault.message

/-- One step from a value to a part of it. -/
inductive Step where
  | key (name : String)
  | index (position : Nat)
  deriving DecidableEq

/-- A broken rule and where it is broken. -/
structure Violation where
  rule : Rule
  place : List Step
  deriving DecidableEq

/-- A good value, or all that is wrong with it. -/
inductive Checked (α : Type) where
  | valid (value : α)
  | invalid (violations : List Violation)

namespace Checked

/-- A value with a single violation, at the value itself. -/
def broken {α : Type} (rule : Rule) : Checked α := .invalid [⟨rule, []⟩]

/-- Changes the good value. -/
def map {α β : Type} (f : α → β) : Checked α → Checked β
  | .valid value => .valid (f value)
  | .invalid violations => .invalid violations

/-- Two checks in a row; the violations of both are kept. -/
def both {α β γ : Type} (f : α → β → γ) : Checked α → Checked β → Checked γ
  | .valid a, .valid b => .valid (f a b)
  | .valid _, .invalid vs => .invalid vs
  | .invalid vs, .valid _ => .invalid vs
  | .invalid vs, .invalid ws => .invalid (vs ++ ws)

/-- A further check of a good value. -/
def andThen {α β : Type} (check : α → Checked β) : Checked α → Checked β
  | .valid value => check value
  | .invalid violations => .invalid violations

/-- The check of a part, seen from the whole. -/
def below {α : Type} (step : Step) : Checked α → Checked α
  | .valid value => .valid value
  | .invalid violations => .invalid (violations.map fun v => { v with place := step :: v.place })

instance : Applicative Checked where
  pure := .valid
  seq f a := both (fun f a => f a) f (a ())

end Checked

end SourceSnapshot.Validation
