/-!
# Log records

What an operation reports while it runs, as data: how much it matters, which part of the program
speaks, and the message.
-/

namespace SourceSnapshot.Log

/-- How much a record matters. -/
inductive Level where
  | debug
  | info
  | warning
  deriving DecidableEq

/-- The part of the program that speaks. -/
inductive Topic where
  | pattern
  | ignore
  | scan
  | tree
  | snapshot
  | output
  | repository
  deriving DecidableEq

/-- One record. -/
structure Record where
  level : Level
  topic : Topic
  message : String
  deriving DecidableEq

/-- The word for a level. -/
def Level.text : Level → String
  | .debug => "DEBUG"
  | .info => "INFO"
  | .warning => "WARNING"

/-- Whether records of this level are shown when details are not asked for. -/
def Level.isAlwaysShown : Level → Bool
  | .warning => true
  | _ => false

end SourceSnapshot.Log
