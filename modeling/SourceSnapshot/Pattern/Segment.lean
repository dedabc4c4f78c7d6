import SourceSnapshot.Pattern.Bracket

/-!
# Segments

The part of a pattern between two slashes. Two stars stand for any number of directories, one star
for any name, and every other segment is a glob: a sequence of wildcards, bracket expressions and
literal characters, in which a backslash makes the next character literal. A glob with an unclosed
bracket is no pattern at all, and one that ends in an open escape is an error.
-/

namespace SourceSnapshot.Pattern

/-- A part of a glob. -/
inductive Atom where
  /-- Any run of characters. -/
  | run
  /-- Any one character. -/
  | one
  | literal (c : Char)
  | bracket (b : Bracket)
  deriving DecidableEq

/-- Why a text is no glob. -/
inductive GlobFault where
  | unclosedBracket
  | openEscape
  deriving DecidableEq

/-- Reads a glob after skipping `skipped` characters. -/
def atomsFrom (skipped : Nat) : List Char → Except GlobFault (List Atom)
  | [] => .ok []
  | c :: rest =>
    match skipped with
    | n + 1 => atomsFrom n rest
    | 0 =>
      if c = '\\' then
        match rest with
        | [] => .error .openEscape
        | d :: more => (.literal d :: ·) <$> atomsFrom 0 more
      else if c = '*' then (.run :: ·) <$> atomsFrom 0 rest
      else if c = '?' then (.one :: ·) <$> atomsFrom 0 rest
      else if c = '[' then
        match Bracket.read? rest with
        | none => .error .unclosedBracket
        | some (b, width) => (.bracket b :: ·) <$> atomsFrom width rest
      else (.literal c :: ·) <$> atomsFrom 0 rest

/-- Reads a glob. -/
def atoms (cs : List Char) : Except GlobFault (List Atom) := atomsFrom 0 cs

/-- Skipping is dropping. -/
theorem atomsFrom_eq_drop (n : Nat) (cs : List Char) : atomsFrom n cs = atoms (cs.drop n) := by
  induction cs generalizing n with
  | nil => simp [atoms, atomsFrom]
  | cons c rest ih =>
    cases n with
    | zero => rfl
    | succ n => simpa [atomsFrom] using ih n

/-- A segment of a pattern. -/
inductive Segment where
  | directories
  | name
  | glob (atoms : List Atom)
  deriving DecidableEq

/-- Reads one segment. -/
def Segment.read (cs : List Char) : Except GlobFault Segment :=
  if cs = ['*', '*'] then .ok .directories
  else if cs = ['*'] then .ok .name
  else .glob <$> atoms cs

end SourceSnapshot.Pattern
