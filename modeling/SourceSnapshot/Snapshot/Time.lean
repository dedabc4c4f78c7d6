import SourceSnapshot.Number.Binary64

/-!
# Instants and durations

The instant of a snapshot in universal time, and the time that it took. A duration of less than a
second is shown in whole milliseconds, cut off toward zero; from there on it is shown in seconds
with two decimal places. Integers that no floating-point number is near to have no text where one is
needed.
-/

namespace SourceSnapshot.Snapshot

open Number (Binary64)

/-- An instant in universal time. -/
structure Instant where
  year : Nat
  month : Nat
  day : Nat
  hour : Nat
  minute : Nat
  second : Nat
  microsecond : Nat
  deriving DecidableEq

/-- A number in decimal digits with zeros in front up to a width. -/
def padded (width n : Nat) : String :=
  let digits := Nat.toDigits 10 n
  String.ofList (List.replicate (width - digits.length) '0' ++ digits)

/-- The text of an instant; microseconds are left out if there are none. -/
def Instant.text (t : Instant) : String :=
  padded 4 t.year ++ "-" ++ padded 2 t.month ++ "-" ++ padded 2 t.day ++ "T" ++
    padded 2 t.hour ++ ":" ++ padded 2 t.minute ++ ":" ++ padded 2 t.second ++
    (if t.microsecond = 0 then "" else "." ++ padded 6 t.microsecond) ++ "+00:00"

/-- Why a duration cannot be shown. -/
inductive DurationFault where
  | infinite
  | readingTooLarge
  | secondsTooLarge
  | tooManyDigits
  deriving DecidableEq

/-- What is reported of a duration that cannot be shown. -/
def DurationFault.message : DurationFault → String
  | .infinite => "cannot convert float infinity to integer"
  | .readingTooLarge => "int too large to convert to float"
  | .secondsTooLarge => "integer division result too large for a float"
  | .tooManyDigits =>
    "Exceeds the limit (4300 digits) for integer string conversion; " ++
      "use sys.set_int_max_str_digits() to increase the limit"

/-- A quantity as it is measured: an integer, or a floating-point number by its bits. -/
inductive Quantity where
  | whole (n : Int)
  | float (bits : UInt64)
  deriving DecidableEq

/-- The floating-point number nearest to an integer over a power of ten, unless it is too large to
be finite. -/
def nearest? (n : Int) (places : Nat) : Option Float :=
  let magnitude := Float.ofScientific n.natAbs true places
  if (Binary64.ofBits magnitude.toBits).isFinite then
    some (if n < 0 then -magnitude else magnitude)
  else none

namespace Quantity

/-- The quantity as a floating-point number. -/
def toFloat : Quantity → Except DurationFault Float
  | .whole n => (nearest? n 0).elim (.error .readingTooLarge) .ok
  | .float bits => .ok (Float.ofBits bits)

/-- The milliseconds from one reading of a clock in seconds to another; they are exact between
integers. -/
def millisecondsBetween : Quantity → Quantity → Except DurationFault Quantity
  | .whole start, .whole stop => .ok (.whole ((stop - start) * 1000))
  | start, stop => do
    let start ← start.toFloat
    let stop ← stop.toFloat
    return .float ((stop - start) * 1000).toBits

/-- Whether the quantity is below a bound. -/
def isBelow (bound : Nat) : Quantity → Bool
  | .whole n => n < bound
  | .float bits =>
    match Binary64.ofBits bits with
    | .finite negative mantissa exponent =>
      (negative && mantissa != 0) || Binary64.wholePart mantissa exponent < bound
    | .infinite negative => negative
    | .notANumber => false

/-- The quantity cut off toward zero. -/
def truncate : Quantity → Except DurationFault Int
  | .whole n => .ok n
  | .float bits => (Binary64.ofBits bits).truncate?.elim (.error .infinite) .ok

/-- A thousandth of the quantity as a floating-point number. -/
def thousandth : Quantity → Except DurationFault Float
  | .whole n => (nearest? n 3).elim (.error .secondsTooLarge) .ok
  | .float bits => .ok (Float.ofBits bits / 1000)

end Quantity

/-- The most digits that an integer is written with. -/
def maxShownDigits : Nat := 4300

/-- The text of an integer. -/
def integerText (n : Int) : Except DurationFault String :=
  if Nat.pow 10 maxShownDigits ≤ n.natAbs then .error .tooManyDigits else .ok (toString n)

/-- The text of a duration in milliseconds. -/
def durationText (milliseconds : Quantity) : Except DurationFault String :=
  if milliseconds.isBelow 1000 then do
    return (← integerText (← milliseconds.truncate)) ++ " ms"
  else do
    return (Binary64.ofBits (← milliseconds.thousandth).toBits).twoPlaces ++ " seconds"

/-- The text of the time between two readings of a clock in seconds. -/
def elapsedText (start stop : Quantity) : Except DurationFault String := do
  durationText (← start.millisecondsBetween stop)

end SourceSnapshot.Snapshot
