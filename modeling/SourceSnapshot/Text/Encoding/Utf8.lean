import SourceSnapshot.Text.Encoding.Fault

/-!
# UTF-8

Reading of well-formed UTF-8: no overlong forms, no surrogates, nothing above U+10FFFF, no character
cut off. A fault covers the longest beginning of a well-formed character that the bytes hold, so it
ends before the first byte that rules the character out.
-/

namespace SourceSnapshot.Text.Utf8

/-- A byte that continues a character. -/
def isTail (b : UInt8) : Bool := 0x80 ≤ b && b ≤ 0xBF

/-- The second bytes that a first byte admits: some are narrowed so that no character has two forms,
none is a surrogate and none lies beyond U+10FFFF. -/
def admitsSecond (first second : UInt8) : Bool :=
  if first = 0xE0 then 0xA0 ≤ second && second ≤ 0xBF
  else if first = 0xED then 0x80 ≤ second && second ≤ 0x9F
  else if first = 0xF0 then 0x90 ≤ second && second ≤ 0xBF
  else if first = 0xF4 then 0x80 ≤ second && second ≤ 0x8F
  else isTail second

/-- How many bytes a character with this first byte has; none if no character starts so. -/
def width? (b : UInt8) : Option Nat :=
  if b < 0x80 then some 1
  else if b < 0xC2 then none
  else if b < 0xE0 then some 2
  else if b < 0xF0 then some 3
  else if b < 0xF5 then some 4
  else none

/-- The six payload bits of a continuation byte. -/
def payload (b : UInt8) : Nat := b.toNat % 64

/-- The character of two bytes. -/
def char2 (a b : UInt8) : Char := Char.ofNat (a.toNat % 32 * 64 + payload b)

/-- The character of three bytes. -/
def char3 (a b c : UInt8) : Char :=
  Char.ofNat (a.toNat % 16 * 4096 + payload b * 64 + payload c)

/-- The character of four bytes. -/
def char4 (a b c d : UInt8) : Char :=
  Char.ofNat (a.toNat % 8 * 262144 + payload b * 4096 + payload c * 64 + payload d)

/-- A fault of `count` bytes that start with `first` at `start`. -/
def fault (cause : DecodeFault.Cause) (start : Nat) (first : UInt8) (count : Nat) : DecodeFault :=
  ⟨"utf-8", cause, start, first, count⟩

/-- Reads the bytes from position `start` on; `done` holds the characters before, last one first. -/
def decodeFrom (start : Nat) (done : List Char) : List UInt8 → Except DecodeFault (List Char)
  | [] => .ok done.reverse
  | a :: rest =>
    match width? a with
    | none => .error (fault .invalidStart start a 1)
    | some 1 => decodeFrom (start + 1) (Char.ofNat a.toNat :: done) rest
    | some n =>
      match rest with
      | [] => .error (fault .unexpectedEnd start a 1)
      | b :: rest =>
        if !admitsSecond a b then .error (fault .invalidContinuation start a 1)
        else if n = 2 then decodeFrom (start + 2) (char2 a b :: done) rest
        else
          match rest with
          | [] => .error (fault .unexpectedEnd start a 2)
          | c :: rest =>
            if !isTail c then .error (fault .invalidContinuation start a 2)
            else if n = 3 then decodeFrom (start + 3) (char3 a b c :: done) rest
            else
              match rest with
              | [] => .error (fault .unexpectedEnd start a 3)
              | d :: rest =>
                if !isTail d then .error (fault .invalidContinuation start a 3)
                else decodeFrom (start + 4) (char4 a b c d :: done) rest

/-- The text of the bytes, or their first fault. -/
def decode (bytes : List UInt8) : Except DecodeFault (List Char) := decodeFrom 0 [] bytes

/-- The byte order mark. -/
def mark : List UInt8 := [0xEF, 0xBB, 0xBF]

/-- The text after one leading byte order mark, if there is one. Positions count from behind the
mark; bytes that are only the beginning of a mark are no text at all. -/
def decodeMarked (bytes : List UInt8) : Except DecodeFault (List Char) :=
  if bytes.length < 3 && bytes.isPrefixOf mark then .ok []
  else if mark.isPrefixOf bytes then decode (bytes.drop 3)
  else decode bytes

end SourceSnapshot.Text.Utf8
