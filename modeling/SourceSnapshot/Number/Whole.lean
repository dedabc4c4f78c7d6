import SourceSnapshot.Number.Numeral

/-!
# Whole numbers as texts

A whole number is read off its plain form, and a text is first brought into it: blanks around the
number, a plus sign, leading zeros with the underscores among them, a point with zeros behind it,
and single underscores between two characters are taken away. Only a text that starts with too many
digits is told apart from one that writes no whole number.
-/

namespace SourceSnapshot.Number.Whole

/-- Why a text is not read as a whole number. -/
inductive Fault where
  | malformed
  | tooLong
  deriving DecidableEq

/-- The magnitude written by a run of digits: there is a digit, and a leading zero stands alone. -/
def magnitude? : List Char → Option Nat
  | [] => none
  | ['0'] => some 0
  | '0' :: _ => none
  | ds => if ds.all Char.isDigit then some (ofDigits ds) else none

/-- The number that a plain form writes: a run of digits with a minus sign or none, and not too many
characters in all. -/
def ofPlain? (cs : List Char) : Option Int :=
  if maxDigits < cs.length then none
  else
    match cs with
    | '-' :: ds => (magnitude? ds).map fun n => -n
    | ds => (magnitude? ds).map fun n => n

/-- Whether a text starts with more digits than a number may have, a minus sign being one of
them. -/
def startsTooLong : List Char → Bool
  | '-' :: ds => ds.head? != some '0' && maxDigits ≤ (ds.takeWhile Char.isDigit).length
  | ds => ds.head? != some '0' && maxDigits < (ds.takeWhile Char.isDigit).length

/-- What stands behind leading zeros and the underscores among them, the last of which is given. It
stays if nothing stands behind it, or a point. -/
def behindZeros? (last : Char) : List Char → Option (List Char)
  | [] => some [last]
  | c :: rest =>
    if c = '0' || c = '_' then behindZeros? c rest
    else if c.isDigit || c = '-' then some (c :: rest)
    else if c = '.' then some (last :: c :: rest)
    else none

/-- A number that starts with a digit, without its leading zeros. -/
def withoutLeadingZeros? : List Char → Option (List Char)
  | [] => none
  | c :: rest =>
    if c = '0' then behindZeros? c rest
    else if c.isDigit then some (c :: rest)
    else none

/-- A number without its point if there are zeros behind it, and nothing else. -/
def withoutZeroPlaces (cs : List Char) : List Char :=
  let whole := cs.takeWhile (· != '.')
  let places := cs.drop (whole.length + 1)
  if !places.isEmpty && places.all (· == '0') then whole else cs

/-- Whether two underscores stand side by side. -/
def hasDoubleUnderscore : List Char → Bool
  | '_' :: '_' :: _ => true
  | _ :: rest => hasDoubleUnderscore rest
  | [] => false

/-- A number without its underscores if none of them is the first or the last character or stands
beside another one. -/
def withoutUnderscores (cs : List Char) : List Char :=
  if cs.head? = some '_' || cs.getLast? = some '_' || hasDoubleUnderscore cs then cs
  else cs.filter (· != '_')

/-- A number without blanks around it and without a plus sign; the sign does not stand before a
minus sign. -/
def withoutPlus? (cs : List Char) : Option (List Char) :=
  match Text.trim isNumeralBlank cs with
  | '+' :: '-' :: _ => none
  | '+' :: rest => some rest
  | bare => some bare

/-- A number without its leading zeros, which may stand behind a minus sign. -/
def withoutSignedZeros? : List Char → Option (List Char)
  | '-' :: rest => (withoutLeadingZeros? rest).map ('-' :: ·)
  | rest => withoutLeadingZeros? rest

/-- The plain form that a text is brought into. -/
def plain? (cs : List Char) : Option (List Char) := do
  let body ← withoutSignedZeros? (← withoutPlus? cs)
  return withoutUnderscores (withoutZeroPlaces body)

/-- The number that a text writes. -/
def ofText (s : String) : Except Fault Int :=
  if startsTooLong s.toList then .error .tooLong
  else
    match (plain? s.toList).bind ofPlain? with
    | some n => .ok n
    | none => .error .malformed

end SourceSnapshot.Number.Whole
