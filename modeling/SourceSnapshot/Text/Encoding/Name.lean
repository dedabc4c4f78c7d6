import SourceSnapshot.Text.Encoding.Utf8
import SourceSnapshot.Text.Encoding.Utf16
import SourceSnapshot.Text.Encoding.CodePage

/-!
# Encodings and their names

The known encodings, the names they go by, and the reading of a whole byte sequence. Case does not
matter in a name, nor how its parts are joined. Some known encodings turn bytes into bytes; they
have a name and read no text. Any other name may stand for a foreign encoding, of which only that is
known what it makes of bytes.
-/

namespace SourceSnapshot.Text

/-- Why bytes could not be read as text. -/
inductive Encoding.ReadFault where
  /-- The bytes break a rule of the encoding. -/
  | malformed (fault : DecodeFault)
  /-- The bytes would be a text, but the byte order mark is missing. -/
  | unmarked (encoding : String)
  /-- The encoding yields no text. -/
  | notText (name : String)
  /-- The encoding refuses the bytes for a reason of its own, without telling where they break a
  rule. -/
  | refused (reason : String)
  deriving DecidableEq

/-- What is reported of bytes that could not be read. -/
def Encoding.ReadFault.message : ReadFault → String
  | .malformed fault => fault.message
  | .unmarked encoding => encoding ++ " stream does not start with BOM"
  | .notText name =>
    "'" ++ name ++ "' is not a text encoding; use codecs.open() to handle arbitrary codecs"
  | .refused reason => reason

/-- An encoding that is not defined here: what it makes of a whole byte sequence. -/
structure Codec where
  read : List UInt8 → Except Encoding.ReadFault String

/-- The encodings that are not defined here, by their names. -/
abbrev Codecs := String → Option Codec

/-- An encoding. `utf8Marked` skips a leading byte order mark, `utf16` and `utf32` need one,
`transform` stands for the encodings that yield bytes, and a `foreign` one is not defined here. -/
inductive Encoding where
  | utf8
  | utf8Marked
  | utf16
  | utf16Of (order : ByteOrder)
  | utf32
  | utf32Of (order : ByteOrder)
  | page (chart : CodePage)
  | transform
  | foreign (codec : Codec)

namespace Encoding

/-- Whether an encoding is one that is not defined here. -/
def isForeign : Encoding → Bool
  | .foreign _ => true
  | _ => false

/-- The proper names, each in its normal form. -/
def properNames : List (Encoding × List String) := [
  (.utf8, ["utf_8"]),
  (.utf8Marked, ["utf_8_sig"]),
  (.utf16, ["utf_16"]),
  (.utf16Of .little, ["utf_16_le"]),
  (.utf16Of .big, ["utf_16_be"]),
  (.utf32, ["utf_32"]),
  (.utf32Of .little, ["utf_32_le"]),
  (.utf32Of .big, ["utf_32_be"]),
  (.page .latin1, ["latin_1", "iso8859_1"]),
  (.page .ascii, ["ascii"]),
  (.page .cp1252, ["cp1252"]),
  (.page .cp437, ["cp437"]),
  (.transform, ["hex_codec", "rot_13", "base64_codec", "bz2_codec", "zlib_codec", "quopri_codec",
    "uu_codec"])]

/-- Other names, in which a dot may stand for an underscore. -/
def otherNames : List (Encoding × List String) := [
  (.utf8, ["cp65001", "u8", "utf", "utf8", "utf8_ucs2", "utf8_ucs4"]),
  (.utf16, ["u16", "utf16"]),
  (.utf16Of .little, ["unicodelittleunmarked", "utf_16le"]),
  (.utf16Of .big, ["unicodebigunmarked", "utf_16be"]),
  (.utf32, ["u32", "utf32"]),
  (.utf32Of .little, ["utf_32le"]),
  (.utf32Of .big, ["utf_32be"]),
  (.page .latin1, ["8859", "cp819", "csisolatin1", "ibm819", "iso8859", "iso8859_1", "iso_8859_1",
    "iso_8859_1_1987", "iso_ir_100", "l1", "latin", "latin1"]),
  (.page .ascii, ["646", "ansi_x3.4_1968", "ansi_x3.4_1986", "ansi_x3_4_1968", "cp367", "csascii",
    "ibm367", "iso646_us", "iso_646.irv_1991", "iso_ir_6", "us", "us_ascii"]),
  (.page .cp1252, ["1252", "windows_1252"]),
  (.page .cp437, ["437", "cspc8codepage437", "ibm437"]),
  (.transform, ["base64", "base_64", "bz2", "hex", "quopri", "quoted_printable", "quotedprintable",
    "rot13", "uu", "zip", "zlib"])]

/-- The parts of a name, runs of ASCII letters, digits and dots, in lower case and joined by single
underscores. `started` tells whether a part stands before, `apart` whether a joint does. -/
def joinParts (started apart : Bool) : List Char → List Char
  | [] => []
  | c :: rest =>
    if c.isAlphanum || c == '.' then
      if started && apart then '_' :: c.toLower :: joinParts true false rest
      else c.toLower :: joinParts true false rest
    else joinParts started true rest

/-- The normal form of a name. -/
def normalName (name : String) : List Char := joinParts false false name.toList

/-- The encoding that goes by a name in normal form. -/
def findName? (table : List (Encoding × List String)) (name : List Char) : Option Encoding :=
  (table.find? fun row => row.2.any fun known => known.toList == name).map Prod.fst

/-- The encoding of this name among those that are defined here. -/
def ofName? (name : String) : Option Encoding :=
  let normal := normalName name
  let undotted := normal.map fun c => if c = '.' then '_' else c
  findName? otherNames normal <|> findName? otherNames undotted <|> findName? properNames normal

/-- An encoding together with the name it was asked for by. Only a name of none that are defined
here stands for a foreign one. -/
structure Named where
  name : String
  encoding : Encoding
  known : ofName? name = some encoding ∨ ofName? name = none ∧ encoding.isForeign = true

/-- Why a name is no known encoding. -/
inductive NameFault where
  | unknown (name : String)
  | containsNul
  deriving DecidableEq

/-- What is reported of a bad name. -/
def NameFault.message : NameFault → String
  | .unknown name => "unknown encoding: " ++ name
  | .containsNul => "embedded null character"

/-- The encoding of this name, kept with it. -/
def Named.ofName (codecs : Codecs) (name : String) : Except NameFault Named :=
  if name.toList.contains '\x00' then .error .containsNul
  else
    match h : ofName? name with
    | some encoding => .ok ⟨name, encoding, Or.inl h⟩
    | none =>
      match codecs name with
      | some codec => .ok ⟨name, .foreign codec, Or.inr ⟨h, rfl⟩⟩
      | none => .error (.unknown name)

/-- Reads bytes whose encoding may ask for a byte order mark. -/
def ofMarked (encoding : String) :
    Except DecodeFault (Option (List Char)) → Except ReadFault String
  | .ok (some cs) => .ok (String.ofList cs)
  | .ok none => .error (.unmarked encoding)
  | .error fault => .error (.malformed fault)

/-- Reads bytes in an encoding without a mark of its own. -/
def ofPlain : Except DecodeFault (List Char) → Except ReadFault String
  | .ok cs => .ok (String.ofList cs)
  | .error fault => .error (.malformed fault)

/-- The text of a byte sequence, all of it or nothing. -/
def Named.read (e : Named) (bytes : List UInt8) : Except ReadFault String :=
  match e.encoding with
  | .utf8 => ofPlain (Utf8.decode bytes)
  | .utf8Marked => ofPlain (Utf8.decodeMarked bytes)
  | .utf16 => ofMarked "UTF-16" (Utf16.decodeMarked bytes)
  | .utf16Of order => ofPlain (Utf16.decode order bytes)
  | .utf32 => ofMarked "UTF-32" (Utf32.decodeMarked bytes)
  | .utf32Of order => ofPlain (Utf32.decode order bytes)
  | .page chart => ofPlain (chart.decode bytes)
  | .transform => .error (.notText e.name)
  | .foreign codec => codec.read bytes

/-- UTF-8 under its usual name. -/
def Named.utf8 : Named := ⟨"utf-8", .utf8, Or.inl (by rfl)⟩

end Encoding

end SourceSnapshot.Text
