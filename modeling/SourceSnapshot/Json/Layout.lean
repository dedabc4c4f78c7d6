import SourceSnapshot.Json.Value
import SourceSnapshot.Number.Shortest
import SourceSnapshot.Text.Blank
import SourceSnapshot.Text.Quoted

/-!
# The layout of JSON documents

Each item and each member stands on a line of its own, two blanks deeper than the value that holds
it; an empty array or object takes no line. Only the quote, the backslash and the controls below
U+0020 are escaped. A floating-point number is written with the fewest digits that read back,
positionally from 1e-5 up to below 1e16 and with a signed exponent beyond.
-/

namespace SourceSnapshot.Json

/-- The form of one character in a JSON string. -/
def escapeChar (c : Char) : List Char :=
  if c == '"' then ['\\', '"']
  else if c == '\\' then ['\\', '\\']
  else if c == '\x08' then ['\\', 'b']
  else if c == '\t' then ['\\', 't']
  else if c == '\n' then ['\\', 'n']
  else if c == '\x0c' then ['\\', 'f']
  else if c == '\r' then ['\\', 'r']
  else if c.toNat < 32 then '\\' :: 'u' :: Text.hexDigits 4 c.toNat
  else [c]

/-- A JSON string. -/
def quote (s : String) : String :=
  String.ofList ('"' :: s.toList.flatMap escapeChar ++ ['"'])

/-- The text of `digits * 10 ^ exponent`, for digits that do not end in a zero. -/
def decimalText (digits : List Char) (exponent : Int) : List Char :=
  let point : Int := digits.length + exponent
  if 0 ≤ exponent && point ≤ 16 then
    digits ++ List.replicate exponent.toNat '0' ++ ['.', '0']
  else if 0 < point && point ≤ 16 then
    digits.take point.toNat ++ '.' :: digits.drop point.toNat
  else if -5 < point && point ≤ 0 then
    '0' :: '.' :: List.replicate (-point).toNat '0' ++ digits
  else
    let power := (if 0 < point then ['+'] else []) ++ (toString (point - 1)).toList
    match digits with
    | [d] => d :: 'e' :: power
    | d :: more => d :: '.' :: more ++ 'e' :: power
    | [] => power

/-- The text of a floating-point number; what is no finite number is written as null. -/
def floatText (bits : UInt64) : String :=
  match Number.Binary64.ofBits bits with
  | .finite negative mantissa exponent =>
    let magnitude :=
      if mantissa = 0 then ['0', '.', '0']
      else
        let decimal := Number.Shortest.ofMagnitude mantissa exponent
        let all := Nat.toDigits 10 decimal.digits
        let kept := Text.dropTrailing (· == '0') all
        decimalText kept (decimal.exponent + (all.length - kept.length : Nat))
    String.ofList (if negative then '-' :: magnitude else magnitude)
  | _ => "null"

/-- The start of a line at the given depth. -/
def lineStart (depth : Nat) : String := String.ofList ('\n' :: List.replicate (2 * depth) ' ')

mutual

/-- The document of a value whose lines start at the given depth. -/
def layoutAt (depth : Nat) : Json → String
  | .null => "null"
  | .bool b => if b then "true" else "false"
  | .int n => toString n
  | .float bits => floatText bits
  | .string s => quote s
  | .array [] => "[]"
  | .array (item :: items) =>
    "[" ++ lineStart (depth + 1) ++ layoutAt (depth + 1) item ++ layoutItems (depth + 1) items ++
      lineStart depth ++ "]"
  | .object [] => "\x7b\x7d"
  | .object ((key, value) :: members) =>
    "\x7b" ++ lineStart (depth + 1) ++ quote key ++ ": " ++ layoutAt (depth + 1) value ++
      layoutMembers (depth + 1) members ++ lineStart depth ++ "\x7d"

/-- The items behind the first one. -/
def layoutItems (depth : Nat) : List Json → String
  | [] => ""
  | item :: items => "," ++ lineStart depth ++ layoutAt depth item ++ layoutItems depth items

/-- The members behind the first one. -/
def layoutMembers (depth : Nat) : List (String × Json) → String
  | [] => ""
  | (key, value) :: members =>
    "," ++ lineStart depth ++ quote key ++ ": " ++ layoutAt depth value ++
      layoutMembers depth members

end

/-- The document of a value. -/
def layout (v : Json) : String := layoutAt 0 v

end SourceSnapshot.Json
