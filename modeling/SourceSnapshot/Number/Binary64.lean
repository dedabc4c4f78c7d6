import SourceSnapshot.Number.Rounding

/-!
# Binary floating-point numbers

The exact value of a 64-bit floating-point number, read off its bits, and what is derived from it by
integer arithmetic: the integer part, the form with two decimal places, and whether it is a whole
number.
-/

namespace SourceSnapshot.Number

/-- The value of a floating-point number: `mantissa * 2 ^ exponent` with a sign, or none. -/
inductive Binary64 where
  | finite (negative : Bool) (mantissa : Nat) (exponent : Int)
  | infinite (negative : Bool)
  | notANumber
  deriving DecidableEq

namespace Binary64

/-- The value that the bits stand for. -/
def ofBits (bits : UInt64) : Binary64 :=
  let n : Nat := bits.toNat
  let negative := n / Nat.pow 2 63 = 1
  let power : Nat := n / Nat.pow 2 52 % Nat.pow 2 11
  let fraction : Nat := n % Nat.pow 2 52
  if power = 2047 then
    if fraction = 0 then .infinite negative else .notANumber
  else if power = 0 then .finite negative fraction (-1074)
  else .finite negative (Nat.pow 2 52 + fraction) (power - 1075)

/-- A magnitude as a quotient of natural numbers. -/
def ratio (mantissa : Nat) : Int → Nat × Nat
  | .ofNat e => (mantissa * Nat.pow 2 e, 1)
  | .negSucc e => (mantissa, Nat.pow 2 (e + 1))

/-- The integer part of a magnitude. -/
def wholePart (mantissa : Nat) (exponent : Int) : Nat :=
  let (num, den) := ratio mantissa exponent
  num / den

/-- Whether a magnitude is a whole number. -/
def isWhole (mantissa : Nat) (exponent : Int) : Bool :=
  let (num, den) := ratio mantissa exponent
  num % den == 0

/-- A number with a sign. -/
def signed (negative : Bool) (n : Nat) : Int := if negative then -n else n

/-- Rounded toward zero, if the number is finite. -/
def truncate? : Binary64 → Option Int
  | .finite negative mantissa exponent => some (signed negative (wholePart mantissa exponent))
  | _ => none

/-- With two decimal places, the exact value rounded half to even. -/
def twoPlaces : Binary64 → String
  | .finite negative mantissa exponent =>
    let (num, den) := ratio mantissa exponent
    (if negative then "-" else "") ++ hundredths num den
  | .infinite negative => if negative then "-inf" else "inf"
  | .notANumber => "nan"

/-- Whether the number is finite. -/
def isFinite : Binary64 → Bool
  | .finite _ _ _ => true
  | _ => false

/-- Whether the number differs from zero. -/
def isNonzero : Binary64 → Bool
  | .finite _ mantissa _ => mantissa != 0
  | _ => true

/-- Whether the number is below zero. -/
def isNegative : Binary64 → Bool
  | .finite negative mantissa _ => negative && mantissa != 0
  | .infinite negative => negative
  | .notANumber => false

/-- The number moved by a power of two; beyond the largest finite number it is infinite. -/
def scale (shift : Nat) : Binary64 → Binary64
  | .finite negative mantissa exponent =>
    if Nat.pow 2 1024 ≤ wholePart mantissa (exponent + shift) then .infinite negative
    else .finite negative mantissa (exponent + shift)
  | other => other

end Binary64

end SourceSnapshot.Number
