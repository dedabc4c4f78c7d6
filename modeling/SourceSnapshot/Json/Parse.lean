import SourceSnapshot.Json.Value
import SourceSnapshot.Number.Numeral

/-!
# Reading JSON documents

The value of a document, and nothing if the text is no document. A member that is repeated keeps its
place and takes the last value. A number with a point or an exponent is a floating-point number, any
other an integer. The length of the text bounds the depth of the reading.
-/

namespace SourceSnapshot.Json

/-- Blanks between the parts of a document. -/
def isGap (c : Char) : Bool := c == ' ' || c == '\t' || c == '\n' || c == '\r'

/-- The text without the blanks in front. -/
def skipGap (cs : List Char) : List Char := cs.dropWhile isGap

/-- The value of a hexadecimal digit. -/
def hexDigit? (c : Char) : Option Nat :=
  if c.isDigit then some (c.toNat - '0'.toNat)
  else if 'a' ≤ c ∧ c ≤ 'f' then some (c.toNat - 'a'.toNat + 10)
  else if 'A' ≤ c ∧ c ≤ 'F' then some (c.toNat - 'A'.toNat + 10)
  else none

/-- The number written by four hexadecimal digits. -/
def unit? (a b c d : Char) : Option Nat := do
  return (((← hexDigit? a) * 16 + (← hexDigit? b)) * 16 + (← hexDigit? c)) * 16 + (← hexDigit? d)

/-- The character behind a backslash. -/
def escaped? : Char → Option Char
  | '"' => some '"'
  | '\\' => some '\\'
  | '/' => some '/'
  | 'b' => some '\x08'
  | 'f' => some '\x0c'
  | 'n' => some '\n'
  | 'r' => some '\r'
  | 't' => some '\t'
  | _ => none

/-- The rest of a string up to its closing quote, and what follows. `high` is the first half of a
character that is written in two halves, or zero. -/
def readString (high : Nat) (done : List Char) : List Char → Option (String × List Char)
  | '"' :: rest => if high = 0 then some (String.ofList done.reverse, rest) else none
  | '\\' :: 'u' :: a :: b :: c :: d :: rest =>
    match unit? a b c d with
    | none => none
    | some unit =>
      if 0xD800 ≤ unit ∧ unit < 0xDC00 then
        if high = 0 then readString unit done rest else none
      else if 0xDC00 ≤ unit ∧ unit < 0xE000 then
        if high = 0 then none
        else
          let code := 0x10000 + (high - 0xD800) * 0x400 + (unit - 0xDC00)
          readString 0 (Char.ofNat code :: done) rest
      else if high = 0 then readString 0 (Char.ofNat unit :: done) rest
      else none
  | '\\' :: c :: rest =>
    match escaped? c with
    | some e => if high = 0 then readString 0 (e :: done) rest else none
    | none => none
  | c :: rest =>
    if high = 0 && c != '\\' && 32 ≤ c.toNat then readString 0 (c :: done) rest else none
  | [] => none

/-- Whether the character may stand in a number. -/
def isNumberPart (c : Char) : Bool :=
  c.isDigit || c == '-' || c == '+' || c == '.' || c == 'e' || c == 'E'

/-- The number that a text writes. -/
def number? (cs : List Char) : Option Json :=
  let (negative, rest) := Number.splitSign cs
  if cs.head? = some '+' || !(rest.head?.any Char.isDigit) then none
  else if rest.all Char.isDigit then
    some (.int (Number.Binary64.signed negative (Number.ofDigits rest)))
  else (Number.finiteFraction? negative rest).map fun f => .float f.toBits

/-- The members with one more; a repeated key keeps its place and takes the new value. -/
def putMember (key : String) (value : Json) : List (String × Json) → List (String × Json)
  | [] => [(key, value)]
  | (k, v) :: rest => if k = key then (key, value) :: rest else (k, v) :: putMember key value rest

/-- The text behind a word that it starts with. -/
def afterWord? (word : List Char) (cs : List Char) : Option (List Char) :=
  if word.isPrefixOf cs then some (cs.drop word.length) else none

mutual

/-- The value at the start of a text, and what follows. -/
def readValue : Nat → List Char → Option (Json × List Char)
  | 0, _ => none
  | depth + 1, cs =>
    match skipGap cs with
    | '"' :: rest => (readString 0 [] rest).map fun (s, rest) => (.string s, rest)
    | '[' :: rest =>
      match skipGap rest with
      | ']' :: rest => some (.array [], rest)
      | rest => (readItems depth rest).map fun (items, rest) => (.array items, rest)
    | '\x7b' :: rest =>
      match skipGap rest with
      | '\x7d' :: rest => some (.object [], rest)
      | rest => (readMembers depth [] rest).map fun (members, rest) => (.object members, rest)
    | rest =>
      match afterWord? "null".toList rest, afterWord? "true".toList rest,
        afterWord? "false".toList rest with
      | some rest, _, _ => some (.null, rest)
      | _, some rest, _ => some (.bool true, rest)
      | _, _, some rest => some (.bool false, rest)
      | none, none, none =>
        (number? (rest.takeWhile isNumberPart)).map fun n => (n, rest.dropWhile isNumberPart)

/-- The items of an array up to its end, and what follows. -/
def readItems : Nat → List Char → Option (List Json × List Char)
  | 0, _ => none
  | depth + 1, cs => do
    let (item, rest) ← readValue depth cs
    match skipGap rest with
    | ',' :: rest => do
      let (items, rest) ← readItems depth rest
      some (item :: items, rest)
    | ']' :: rest => some ([item], rest)
    | _ => none

/-- The members of an object up to its end behind those that are known, and what follows. -/
def readMembers : Nat → List (String × Json) → List Char → Option (List (String × Json) × List Char)
  | 0, _, _ => none
  | depth + 1, known, cs =>
    match skipGap cs with
    | '"' :: rest => do
      let (key, rest) ← readString 0 [] rest
      match skipGap rest with
      | ':' :: rest => do
        let (value, rest) ← readValue depth rest
        let members := putMember key value known
        match skipGap rest with
        | ',' :: rest => readMembers depth members rest
        | '\x7d' :: rest => some (members, rest)
        | _ => none
      | _ => none
    | _ => none

end

/-- The value of a document. -/
def parse? (text : String) : Option Json :=
  let cs := text.toList
  match readValue (cs.length + 1) cs with
  | some (v, rest) => if (skipGap rest).isEmpty then some v else none
  | none => none

end SourceSnapshot.Json
