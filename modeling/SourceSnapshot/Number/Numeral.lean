import SourceSnapshot.Number.Binary64
import SourceSnapshot.Text.Blank

/-!
# Numerals

Reading of integers and of decimal fractions as they are typed. Blanks may stand around a numeral, a
sign before it, and a single underscore between two digits; the decimal digits of every script
count.
-/

namespace SourceSnapshot.Number

/-- The code points of the digit zero in the scripts with decimal digits. -/
def zeros : List Nat := [
  48, 1632, 1776, 1984, 2406, 2534, 2662, 2790, 2918, 3046, 3174, 3302, 3430, 3558, 3664, 3792,
  3872, 4160, 4240, 6112, 6160, 6470, 6608, 6784, 6800, 6992, 7088, 7232, 7248, 42528, 43216, 43264,
  43472, 43504, 43600, 44016, 65296, 66720, 68912, 69734, 69872, 69942, 70096, 70384, 70736, 70864,
  71248, 71360, 71472, 71904, 72016, 72784, 73040, 73120, 92768, 92864, 93008, 120782, 120792,
  120802, 120812, 120822, 123200, 123632, 125264, 130032]

/-- The value of a decimal digit of any script. -/
def digit? (c : Char) : Option Nat :=
  (zeros.find? fun start => start ≤ c.toNat && c.toNat < start + 10).map (c.toNat - ·)

/-- A blank that may stand around a numeral: the information separators may not. -/
def isNumeralBlank (c : Char) : Bool :=
  Text.isBlank c && !(28 ≤ c.toNat && c.toNat ≤ 31)

/-- A decimal digit of any script as an ASCII digit; other characters stay. -/
def asciiDigit (c : Char) : Char :=
  match digit? c with
  | some n => Char.ofNat (48 + n)
  | none => c

/-- The characters of a numeral without the blanks around it, its digits in ASCII. -/
def bare (s : String) : List Char :=
  (Text.trim isNumeralBlank s.toList).map asciiDigit

/-- The text without underscores, if each of them stands between two digits. -/
def dropUnderscores? (previous : Char) : List Char → Option (List Char)
  | [] => if previous = '_' then none else some []
  | c :: rest =>
    if c = '_' then
      if previous.isDigit then dropUnderscores? c rest else none
    else if previous = '_' && !c.isDigit then none
    else (c :: ·) <$> dropUnderscores? c rest

/-- The number written by a run of ASCII digits. -/
def ofDigits (ds : List Char) : Nat :=
  ds.foldl (fun n c => 10 * n + (c.toNat - 48)) 0

/-- A leading sign, and what follows it. -/
def splitSign : List Char → Bool × List Char
  | '-' :: rest => (true, rest)
  | '+' :: rest => (false, rest)
  | rest => (false, rest)

/-- The longest numeral of an integer that is read. -/
def maxDigits : Nat := 4300

/-- The integer that a text writes. -/
def integer? (s : String) : Option Int := do
  let (negative, rest) := splitSign (bare s)
  let digits ← dropUnderscores? ' ' rest
  if digits.isEmpty || !digits.all Char.isDigit || maxDigits < digits.length then none
  else some (Binary64.signed negative (ofDigits digits))

/-- A decimal fraction as written: a signed multiple of a power of ten, or one of the two words for
what is no finite number. -/
inductive Fraction where
  | finite (negative : Bool) (digits : Nat) (exponent : Int)
  | infinite (negative : Bool)
  | notANumber
  deriving DecidableEq

/-- The exponent that ends a decimal fraction: nothing, or `e` and an integer. -/
def exponent? : List Char → Option Int
  | [] => some 0
  | c :: rest =>
    if c = 'e' || c = 'E' then
      let (negative, digits) := splitSign rest
      if digits.isEmpty || !digits.all Char.isDigit then none
      else some (Binary64.signed negative (ofDigits digits))
    else none

/-- The decimal fraction written by digits, a point, digits and an exponent. -/
def finiteFraction? (negative : Bool) (cs : List Char) : Option Fraction := do
  let whole := cs.takeWhile Char.isDigit
  let rest := cs.dropWhile Char.isDigit
  let (places, rest) :=
    match rest with
    | '.' :: behind => (behind.takeWhile Char.isDigit, behind.dropWhile Char.isDigit)
    | _ => ([], rest)
  if whole.isEmpty && places.isEmpty then none
  else
    let exponent ← exponent? rest
    some (.finite negative (ofDigits (whole ++ places)) (exponent - places.length))

/-- The decimal fraction that a text writes. -/
def fraction? (s : String) : Option Fraction := do
  let (negative, rest) := splitSign (← dropUnderscores? ' ' (bare s))
  let word := String.ofList (rest.map Char.toLower)
  if word == "inf" || word == "infinity" then some (.infinite negative)
  else if word == "nan" then some .notANumber
  else finiteFraction? negative rest

/-- The bits of the floating-point number nearest to a decimal fraction. -/
def Fraction.toBits : Fraction → UInt64
  | .notANumber => 0x7FF8000000000000
  | .infinite negative => if negative then 0xFFF0000000000000 else 0x7FF0000000000000
  | .finite negative digits exponent =>
    let size : Int := (Nat.toDigits 10 digits).length
    let magnitude : UInt64 :=
      if digits = 0 || size + exponent < -400 then 0
      else if 400 < size + exponent then 0x7FF0000000000000
      else (Float.ofScientific digits (exponent < 0) exponent.natAbs).toBits
    if negative then magnitude ||| 0x8000000000000000 else magnitude

end SourceSnapshot.Number
