/-!
# Rounding of quotients

A quotient of natural numbers rounded to the nearest integer, a half going to the even neighbour,
and its printing with two decimal places.
-/

namespace SourceSnapshot.Number

/-- `num / den` to the nearest integer, a half to the even neighbour. -/
def roundHalfEven (num den : Nat) : Nat :=
  let whole := num / den
  let twice := 2 * (num % den)
  if twice < den then whole
  else if den < twice then whole + 1
  else whole + whole % 2

/-- A natural number in at least two decimal digits. -/
def twoDigits (n : Nat) : String :=
  if n < 10 then "0" ++ toString n else toString n

/-- `num / den` with two decimal places. -/
def hundredths (num den : Nat) : String :=
  let n := roundHalfEven (100 * num) den
  toString (n / 100) ++ "." ++ twoDigits (n % 100)

end SourceSnapshot.Number
