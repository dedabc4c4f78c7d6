import SourceSnapshot.Text.Encoding.Fault

/-!
# One byte, one character

Encodings in which every character is one byte: ASCII, Latin-1, and the code pages 437 and 1252.
Below 128 they all agree with ASCII. Latin-1 and code page 437 give a character to every byte, so
that every byte sequence is a text; ASCII and code page 1252 leave some bytes without one.
-/

namespace SourceSnapshot.Text

/-- An encoding of one byte for each character. -/
inductive CodePage where
  | ascii
  | latin1
  | cp437
  | cp1252
  deriving DecidableEq

namespace CodePage

/-- The characters of the bytes from 128 on in code page 437. -/
def upper437 : List Nat := [
  199, 252, 233, 226, 228, 224, 229, 231, 234, 235, 232, 239, 238, 236,
  196, 197, 201, 230, 198, 244, 246, 242, 251, 249, 255, 214, 220, 162,
  163, 165, 8359, 402, 225, 237, 243, 250, 241, 209, 170, 186, 191, 8976,
  172, 189, 188, 161, 171, 187, 9617, 9618, 9619, 9474, 9508, 9569, 9570, 9558,
  9557, 9571, 9553, 9559, 9565, 9564, 9563, 9488, 9492, 9524, 9516, 9500, 9472, 9532,
  9566, 9567, 9562, 9556, 9577, 9574, 9568, 9552, 9580, 9575, 9576, 9572, 9573, 9561,
  9560, 9554, 9555, 9579, 9578, 9496, 9484, 9608, 9604, 9612, 9616, 9600, 945, 223,
  915, 960, 931, 963, 181, 964, 934, 920, 937, 948, 8734, 966, 949, 8745,
  8801, 177, 8805, 8804, 8992, 8993, 247, 8776, 176, 8729, 183, 8730, 8319, 178,
  9632, 160]

/-- The characters of the bytes 128 to 159 in code page 1252; 0 stands for a byte without one. -/
def middle1252 : List Nat := [
  8364, 0, 8218, 402, 8222, 8230, 8224, 8225, 710, 8240, 352, 8249, 338, 0,
  381, 0, 0, 8216, 8217, 8220, 8221, 8226, 8211, 8212, 732, 8482, 353, 8250,
  339, 0, 382, 376]

/-- The character of a byte, if it has one. -/
def char? (page : CodePage) (b : UInt8) : Option Char :=
  let n := b.toNat
  if n < 128 then some (Char.ofNat n)
  else
    match page with
    | .ascii => none
    | .latin1 => some (Char.ofNat n)
    | .cp437 => upper437[n - 128]?.map Char.ofNat
    | .cp1252 =>
      if 160 ≤ n then some (Char.ofNat n)
      else
        match middle1252[n - 128]? with
        | some (m + 1) => some (Char.ofNat (m + 1))
        | _ => none

/-- The fault of a byte without a character. -/
def fault (page : CodePage) (start : Nat) (b : UInt8) : DecodeFault :=
  match page with
  | .ascii => ⟨"ascii", .notAscii, start, b, 1⟩
  | _ => ⟨"charmap", .unmapped, start, b, 1⟩

/-- Reads the bytes from position `start` on; `done` holds the characters before, last one first. -/
def decodeFrom (page : CodePage) (start : Nat) (done : List Char) :
    List UInt8 → Except DecodeFault (List Char)
  | [] => .ok done.reverse
  | b :: rest =>
    match page.char? b with
    | some c => decodeFrom page (start + 1) (c :: done) rest
    | none => .error (page.fault start b)

/-- The text of the bytes, or the first byte without a character. -/
def decode (page : CodePage) (bytes : List UInt8) : Except DecodeFault (List Char) :=
  page.decodeFrom 0 [] bytes

end CodePage

end SourceSnapshot.Text
