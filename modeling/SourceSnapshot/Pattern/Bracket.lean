import SourceSnapshot.Text.Case

/-!
# Bracket expressions

A bracket expression stands for one character out of a set of characters and ranges, or for one
outside of it. A dash between two characters makes a range, also after a range has ended; a dash at
the end is a plain character, and so is every backslash. A range whose ends are reversed makes the
expression invalid.
-/

namespace SourceSnapshot.Pattern

/-- A bracket expression as it is written between its brackets, without the mark of negation. -/
structure Bracket where
  negated : Bool
  body : List Char
  deriving DecidableEq

namespace Bracket

/-- A character or a range of characters. -/
inductive Item where
  | single (c : Char)
  | range (first last : Char)
  deriving DecidableEq

/-- The items of the text between brackets, left to right. -/
def itemsOf : List Char → List Item
  | [] => []
  | [c] => [.single c]
  | [c, '-'] => [.single c, .single '-']
  | c :: '-' :: d :: rest => .range c d :: itemsOf rest
  | c :: rest => .single c :: itemsOf rest

/-- The items of a bracket expression. -/
def items (b : Bracket) : List Item := itemsOf b.body

/-- Whether the range is the right way round; a single character always is. -/
def Item.isOrdered : Item → Bool
  | .single _ => true
  | .range first last => first.toNat ≤ last.toNat

/-- Whether every range is the right way round. -/
def isOrdered (b : Bracket) : Bool := b.items.all Item.isOrdered

/-- Whether the item holds the code point. -/
def Item.holds (n : Nat) : Item → Bool
  | .single c => c.toNat == n
  | .range first last => first.toNat ≤ n && n ≤ last.toNat

/-- Whether case can matter for the item: it holds a cased character or one beyond the first plane.
-/
def Item.isCased : Item → Bool
  | .single c => Text.Case.isCased c.toNat || 0x10000 ≤ c.toNat
  | .range first last => Text.Case.anyCased first.toNat last.toNat || 0x10000 ≤ last.toNat

/-- Whether the item holds a variant of the lower form `low`. Beyond the first plane a single
character stands for itself alone, and a range is asked for the lower form and its upper form. -/
def Item.holdsLowered (low : Nat) : Item → Bool
  | .single c =>
    if 0x10000 ≤ Text.Case.lower c.toNat then c.toNat == low
    else (Text.Case.withLowerLike low).contains c.toNat
  | .range first last =>
    (Text.Case.withLowerLike low).any (fun n => first.toNat ≤ n && n ≤ last.toNat) ||
      (0x10000 ≤ last.toNat &&
        ((first.toNat ≤ low && low ≤ last.toNat) ||
          (first.toNat ≤ Text.Case.upper low && Text.Case.upper low ≤ last.toNat)))

/-- Whether one of the items holds the character, up to case. Items that all name one character are
compared like that character outside of brackets. -/
def holdsUpToCase (items : List Item) (c : Char) : Bool :=
  match items.eraseDups with
  | [.single d] => Text.Case.agrees d c
  | _ =>
    if items.any Item.isCased then items.any (·.holdsLowered (Text.Case.lower c.toNat))
    else items.any (·.holds c.toNat)

/-- Whether the bracket expression stands for the character. -/
def accepts (ignoreCase : Bool) (b : Bracket) (c : Char) : Bool :=
  (if ignoreCase then holdsUpToCase b.items c else b.items.any (·.holds c.toNat)) != b.negated

/-- Reads a bracket expression behind its opening bracket, together with the number of characters
that belong to it. A closing bracket in the first place is a plain character. -/
def read? (cs : List Char) : Option (Bracket × Nat) :=
  let (negated, behind) :=
    match cs with
    | '!' :: rest => (true, rest)
    | '^' :: rest => (true, rest)
    | rest => (false, rest)
  let (first, rest) :=
    match behind with
    | ']' :: rest => ([']'], rest)
    | rest => ([], rest)
  let inner := rest.takeWhile (· != ']')
  if inner.length < rest.length then
    some (⟨negated, first ++ inner⟩,
      (if negated then 1 else 0) + first.length + inner.length + 1)
  else none

/-- The text of one character between brackets. -/
def charText (c : Char) : List Char := if c = '\\' then ['\\', '\\'] else [c]

/-- The text of a bracket expression in an expression. -/
def text (b : Bracket) : List Char :=
  '[' :: (if b.negated then ['^'] else []) ++ b.body.flatMap charText ++ [']']

end Bracket

end SourceSnapshot.Pattern
