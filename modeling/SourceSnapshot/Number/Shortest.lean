import SourceSnapshot.Number.Binary64

/-!
# Shortest decimal form

The shortest decimal number that reads back as a given floating-point number, and of those the
nearest. A decimal reads back if it lies between the halfway points to the neighbouring numbers, the
halfway points themselves included when the mantissa is even.
-/

namespace SourceSnapshot.Number

/-- A decimal number: `digits * 10 ^ exponent`. -/
structure Decimal where
  digits : Nat
  exponent : Int
  deriving DecidableEq

namespace Shortest

/-- `a * 10 ^ k` against `num / den`, both sides brought to natural numbers. -/
def crossed (a : Nat) (k : Int) (num den : Nat) : Nat × Nat :=
  match k with
  | .ofNat k => (a * Nat.pow 10 k * den, num)
  | .negSucc k => (a * den, num * Nat.pow 10 (k + 1))

/-- The number of digits before the decimal point of `num / den`; zero or negative for a number that
starts behind the point. -/
def leadingPlace (num den : Nat) : Int :=
  if den ≤ num then (Nat.toDigits 10 (num / den)).length
  else
    match (List.range 400).find? fun j => den ≤ num * Nat.pow 10 (j + 1) with
    | some j => -j
    | none => -400

/-- The mantissa scaled by four, with its halfway points, so that all three are natural numbers. The
lower halfway point is nearer at a power of two. -/
def halfway (mantissa : Nat) (exponent : Int) : Nat × Nat :=
  (if mantissa = Nat.pow 2 52 ∧ exponent ≠ -1074 then 4 * mantissa - 1 else 4 * mantissa - 2,
    4 * mantissa + 2)

/-- Whether `digits * 10 ^ place` reads back as the number. -/
def readsBack (mantissa : Nat) (exponent : Int) (digits : Nat) (place : Int) : Bool :=
  let (low, high) := halfway mantissa exponent
  let below := Binary64.ratio low (exponent - 2)
  let above := Binary64.ratio high (exponent - 2)
  let (x, lowest) := crossed digits place below.1 below.2
  let (y, highest) := crossed digits place above.1 above.2
  if mantissa % 2 = 0 then lowest ≤ x && y ≤ highest else lowest < x && y < highest

/-- The decimals of `count` digits next to the number that read back, the nearer one first. -/
def candidates (mantissa : Nat) (exponent : Int) (count : Nat) : List Decimal :=
  let (num, den) := Binary64.ratio mantissa exponent
  let place := leadingPlace num den - count
  let (unit, scaled) := crossed 1 place num den
  let floor := scaled / unit
  let rest := 2 * (scaled % unit)
  let upFirst := unit < rest || (rest == unit && floor % 2 == 1)
  let order := if upFirst then [floor + 1, floor] else [floor, floor + 1]
  (order.filter fun digits => readsBack mantissa exponent digits place).map (⟨·, place⟩)

/-- The shortest decimal that reads back as a number other than zero. -/
def ofMagnitude (mantissa : Nat) (exponent : Int) : Decimal :=
  match (List.range 17).findSome? fun n => (candidates mantissa exponent (n + 1)).head? with
  | some decimal => decimal
  | none => ⟨0, 0⟩

end Shortest

end SourceSnapshot.Number
