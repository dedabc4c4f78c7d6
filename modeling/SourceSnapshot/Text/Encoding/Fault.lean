import SourceSnapshot.Text.Quoted

/-!
# Faults of a byte sequence

Why bytes are no text in an encoding: the rule that is broken, the bytes that break it and where
they stand. The message names a single byte by its value and several by their positions.
-/

namespace SourceSnapshot.Text

/-- The rule of an encoding that a byte sequence breaks. -/
inductive DecodeFault.Cause where
  | invalidStart
  | invalidContinuation
  | unexpectedEnd
  | notAscii
  | unmapped
  | truncated
  | illegalSurrogate
  | illegalUnit
  | beyondRange
  | surrogateCodePoint
  | other (reason : String)
  deriving DecidableEq

/-- The first fault of a byte sequence: `count` bytes from position `start` on, the first of them
`first`, under the rules of `codec`. -/
structure DecodeFault where
  codec : String
  cause : DecodeFault.Cause
  start : Nat
  first : UInt8
  count : Nat
  deriving DecidableEq

/-- The wording of each broken rule. -/
def DecodeFault.Cause.message : DecodeFault.Cause → String
  | .invalidStart => "invalid start byte"
  | .invalidContinuation => "invalid continuation byte"
  | .unexpectedEnd => "unexpected end of data"
  | .notAscii => "ordinal not in range(128)"
  | .unmapped => "character maps to <undefined>"
  | .truncated => "truncated data"
  | .illegalSurrogate => "illegal UTF-16 surrogate"
  | .illegalUnit => "illegal encoding"
  | .beyondRange => "code point not in range(0x110000)"
  | .surrogateCodePoint => "code point in surrogate code point range(0xd800, 0xe000)"
  | .other reason => reason

/-- What is reported of a fault. -/
def DecodeFault.message (f : DecodeFault) : String :=
  let place :=
    if f.count = 1 then
      "byte 0x" ++ String.ofList (hexDigits 2 f.first.toNat) ++ " in position " ++ toString f.start
    else
      "bytes in position " ++ toString f.start ++ "-" ++ toString (f.start + f.count - 1)
  "'" ++ f.codec ++ "' codec can't decode " ++ place ++ ": " ++ f.cause.message

end SourceSnapshot.Text
