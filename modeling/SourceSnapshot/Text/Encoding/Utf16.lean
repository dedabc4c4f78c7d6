import SourceSnapshot.Text.Encoding.Fault

/-!
# UTF-16 and UTF-32

Reading of two-byte and four-byte units in either byte order. Text in UTF-16 is a sequence of units
in which surrogates come in pairs, a high one before a low one; text in UTF-32 is a sequence of code
points.
-/

namespace SourceSnapshot.Text

/-- The order of the bytes in a unit. -/
inductive ByteOrder where
  | little
  | big
  deriving DecidableEq

namespace ByteOrder

/-- The ending of an encoding's name that tells the order. -/
def suffix : ByteOrder → String
  | .little => "-le"
  | .big => "-be"

/-- The unit of two bytes. -/
def unit16 : ByteOrder → UInt8 → UInt8 → Nat
  | .little, a, b => a.toNat + 256 * b.toNat
  | .big, a, b => 256 * a.toNat + b.toNat

/-- The unit of four bytes. -/
def unit32 : ByteOrder → UInt8 → UInt8 → UInt8 → UInt8 → Nat
  | .little, a, b, c, d => a.toNat + 256 * (b.toNat + 256 * (c.toNat + 256 * d.toNat))
  | .big, a, b, c, d => d.toNat + 256 * (c.toNat + 256 * (b.toNat + 256 * a.toNat))

end ByteOrder

namespace Utf16

/-- A fault in UTF-16 of the given byte order. -/
def fault (order : ByteOrder) (cause : DecodeFault.Cause) (start : Nat) (first : UInt8)
    (count : Nat) : DecodeFault :=
  ⟨"utf-16" ++ order.suffix, cause, start, first, count⟩

/-- A unit that starts a surrogate pair. -/
def isHigh (n : Nat) : Bool := 0xD800 ≤ n && n < 0xDC00

/-- A unit that ends a surrogate pair. -/
def isLow (n : Nat) : Bool := 0xDC00 ≤ n && n < 0xE000

/-- The character of a surrogate pair. -/
def pair (high low : Nat) : Char :=
  Char.ofNat (0x10000 + (high - 0xD800) * 0x400 + (low - 0xDC00))

/-- Reads the bytes from position `start` on; `done` holds the characters before, last one first. -/
def decodeFrom (order : ByteOrder) (start : Nat) (done : List Char) :
    List UInt8 → Except DecodeFault (List Char)
  | [] => .ok done.reverse
  | [a] => .error (fault order .truncated start a 1)
  | a :: b :: rest =>
    let high := order.unit16 a b
    if isLow high then .error (fault order .illegalUnit start a 2)
    else if !isHigh high then decodeFrom order (start + 2) (Char.ofNat high :: done) rest
    else
      match rest with
      | [] => .error (fault order .unexpectedEnd start a 2)
      | [_] => .error (fault order .unexpectedEnd start a 3)
      | c :: d :: rest =>
        let low := order.unit16 c d
        if isLow low then decodeFrom order (start + 4) (pair high low :: done) rest
        else .error (fault order .illegalSurrogate start a 2)

/-- The text of bytes in a known order; a byte order mark is an ordinary character here. -/
def decode (order : ByteOrder) (bytes : List UInt8) : Except DecodeFault (List Char) :=
  decodeFrom order 0 [] bytes

/-- The order that a leading byte order mark tells. -/
def orderOfMark? : List UInt8 → Option ByteOrder
  | 0xFF :: 0xFE :: _ => some .little
  | 0xFE :: 0xFF :: _ => some .big
  | _ => none

/-- The text behind a byte order mark. Without a mark the bytes are read in little order, so that a
fault is found, and `none` stands for a text that lacks the mark. -/
def decodeMarked (bytes : List UInt8) : Except DecodeFault (Option (List Char)) :=
  match orderOfMark? bytes with
  | some order => some <$> decodeFrom order 2 [] (bytes.drop 2)
  | none =>
    match decode .little bytes with
    | .ok [] => .ok (some [])
    | .ok (_ :: _) => .ok none
    | .error f => .error f

end Utf16

namespace Utf32

/-- A fault in UTF-32 of the given byte order. -/
def fault (order : ByteOrder) (cause : DecodeFault.Cause) (start : Nat) (first : UInt8)
    (count : Nat) : DecodeFault :=
  ⟨"utf-32" ++ order.suffix, cause, start, first, count⟩

/-- Reads the bytes from position `start` on; `done` holds the characters before, last one first. -/
def decodeFrom (order : ByteOrder) (start : Nat) (done : List Char) :
    List UInt8 → Except DecodeFault (List Char)
  | [] => .ok done.reverse
  | a :: b :: c :: d :: rest =>
    let n := order.unit32 a b c d
    if 0xD800 ≤ n && n < 0xE000 then .error (fault order .surrogateCodePoint start a 4)
    else if 0x110000 ≤ n then .error (fault order .beyondRange start a 4)
    else decodeFrom order (start + 4) (Char.ofNat n :: done) rest
  | a :: rest => .error (fault order .truncated start a (rest.length + 1))

/-- The text of bytes in a known order; a byte order mark is an ordinary character here. -/
def decode (order : ByteOrder) (bytes : List UInt8) : Except DecodeFault (List Char) :=
  decodeFrom order 0 [] bytes

/-- The order that a leading byte order mark tells. -/
def orderOfMark? : List UInt8 → Option ByteOrder
  | 0xFF :: 0xFE :: 0 :: 0 :: _ => some .little
  | 0 :: 0 :: 0xFE :: 0xFF :: _ => some .big
  | _ => none

/-- The text behind a byte order mark. Without a mark the bytes are read in little order, so that a
fault is found, and `none` stands for a text that lacks the mark. -/
def decodeMarked (bytes : List UInt8) : Except DecodeFault (Option (List Char)) :=
  match orderOfMark? bytes with
  | some order => some <$> decodeFrom order 4 [] (bytes.drop 4)
  | none =>
    match decode .little bytes with
    | .ok [] => .ok (some [])
    | .ok (_ :: _) => .ok none
    | .error f => .error f

end Utf32

end SourceSnapshot.Text
