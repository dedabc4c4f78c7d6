import SourceSnapshot.Text.CaseTable

/-!
# Letters up to case

Two characters are variants of each other if their lower forms agree or have one upper form in
common, so that `k`, `K` and the Kelvin sign are variants, and `s` and the long s. `variants c`
lists every character that is a variant of `c`, itself included.
-/

namespace SourceSnapshot.Text

namespace CaseRun

/-- Whether the run holds the code point. -/
def covers (run : CaseRun) (n : Nat) : Bool :=
  run.first ≤ n && n ≤ run.last && (n - run.first) % run.stride == 0

/-- Where the run moves a code point. -/
def move (run : CaseRun) (n : Nat) : Nat := (Int.ofNat n + run.shift).toNat

/-- The code point that the run moves to `n`, if there is one. -/
def source? (run : CaseRun) (n : Nat) : Option Nat :=
  let m := (Int.ofNat n - run.shift).toNat
  if run.covers m && run.move m == n then some m else none

/-- The least member of the run that is not below `low`, if there is one. -/
def leastFrom? (run : CaseRun) (low : Nat) : Option Nat :=
  let n := if low ≤ run.first then run.first
    else low + (run.stride - (low - run.first) % run.stride) % run.stride
  if n ≤ run.last then some n else none

/-- Whether the run holds a code point between `low` and `high`. -/
def meets (run : CaseRun) (low high : Nat) : Bool :=
  (run.leastFrom? low).any (· ≤ high)

end CaseRun

namespace Case

/-- The image of a code point under a list of runs; a code point in none of them is its own image.
-/
def image (runs : List CaseRun) (n : Nat) : Nat :=
  match runs.find? (·.covers n) with
  | some run => run.move n
  | none => n

/-- The lower form of a code point. -/
def lower (n : Nat) : Nat := image CaseTable.lowering n

/-- The upper form of a code point. -/
def upper (n : Nat) : Nat := image CaseTable.raising n

/-- Whether the code point differs from its lower or its upper form. -/
def isCased (n : Nat) : Bool := lower n != n || upper n != n

/-- Whether some code point between `low` and `high` is cased. -/
def anyCased (low high : Nat) : Bool :=
  CaseTable.lowering.any (·.meets low high) || CaseTable.raising.any (·.meets low high)

/-- The other lower forms that share their upper form with this one. -/
def siblings (n : Nat) : List Nat :=
  match CaseTable.equivalents.find? (·.contains n) with
  | some group => group.filter (· != n)
  | none => []

/-- Every code point whose lower form is `n`. -/
def withLower (n : Nat) : List Nat :=
  (if lower n = n then [n] else []) ++ CaseTable.lowering.filterMap (·.source? n)

/-- Every code point whose lower form is `n` or a sibling of it. -/
def withLowerLike (n : Nat) : List Nat :=
  (n :: siblings n).flatMap withLower

/-- Whether two characters agree up to case. -/
def agrees (a b : Char) : Bool :=
  let low := lower a.toNat
  lower b.toNat == low || (siblings low).contains (lower b.toNat)

end Case

end SourceSnapshot.Text
