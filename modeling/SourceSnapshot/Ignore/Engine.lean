import SourceSnapshot.Ignore.Rule
import SourceSnapshot.Ignore.Key
import SourceSnapshot.Log
import SourceSnapshot.Text.Line

/-!
# The ignore engine

An ordered list of rules that decides which relative paths are left out. The last rule that matches
a path decides, except that nothing below an ignored directory is ever taken back in. Answers are
remembered for every key on the way; remembered answers are forgotten whenever a rule is added.
-/

namespace SourceSnapshot.Ignore

/-- Answers that are remembered, the latest first. -/
abbrev Memo (α : Type) := List (Key × α)

/-- What the rules say about a path: whether it is left out, whether it is taken back in, and the
rule that decides. -/
structure Verdict where
  ignored : Bool
  unignored : Bool
  rule : Option Rule
  deriving DecidableEq

/-- The verdict where no rule decides. -/
def Verdict.undecided : Verdict := ⟨false, false, none⟩

/-- The verdict of a deciding rule. -/
def Verdict.ofRule (r : Rule) : Verdict := ⟨!r.negative, r.negative, some r⟩

/-- The last rule that matches a key. -/
def lastMatch? (rules : List Rule) (k : Key) : Option Rule :=
  rules.reverse.find? (·.matchesText k.chars)

/-- Whether the rules leave out this key, the directories above it not considered. -/
def leavesOut (rules : List Rule) (k : Key) : Bool :=
  match lastMatch? rules k with
  | some r => !r.negative
  | none => false

/-- What the rules say about this key, the directories above it not considered. -/
def judge (rules : List Rule) (k : Key) : Verdict :=
  match lastMatch? rules k with
  | some r => .ofRule r
  | none => .undecided

/-- An ordered list of rules with the answers it remembers. -/
structure Engine where
  ignoreCase : Bool
  rules : List Rule
  ignoredMemo : Memo Bool
  verdictMemo : Memo Verdict
  deriving DecidableEq

namespace Engine

/-- An engine without rules. -/
def empty (ignoreCase : Bool) : Engine := ⟨ignoreCase, [], [], []⟩

/-- An engine with these rules that remembers nothing. -/
def ofRules (ignoreCase : Bool) (rules : List Rule) : Engine := ⟨ignoreCase, rules, [], []⟩

/-- The lines that the rules come from. -/
def patterns (e : Engine) : List String := e.rules.map Rule.source

/-- Looks along a lineage, from the inside out, for a key that is left out. -/
def resolve (rules : List Rule) : List Key → Memo Bool → Bool × Memo Bool
  | [], memo => (false, memo)
  | k :: above, memo =>
    match memo.lookup k with
    | some answer => (answer, memo)
    | none =>
      let (aboveIgnored, memo) := resolve rules above memo
      let answer := aboveIgnored || leavesOut rules k
      (answer, (k, answer) :: memo)

/-- Looks along a lineage, from the inside out, for the verdict of the outermost ignored directory,
or else that of the key itself. -/
def resolveVerdict (rules : List Rule) : List Key → Memo Verdict → Verdict × Memo Verdict
  | [], memo => (.undecided, memo)
  | k :: above, memo =>
    match memo.lookup k with
    | some answer => (answer, memo)
    | none =>
      let (aboveVerdict, memo) := resolveVerdict rules above memo
      let answer := if aboveVerdict.ignored then aboveVerdict else judge rules k
      (answer, (k, answer) :: memo)

/-- Whether a path is left out, and the engine that remembers it. -/
def ignores (e : Engine) (path : String) (isDir : Bool) : Except PathFault Bool × Engine :=
  match Key.ofPath path isDir with
  | .error fault => (.error fault, e)
  | .ok k =>
    let (answer, memo) := resolve e.rules k.lineage e.ignoredMemo
    (.ok answer, { e with ignoredMemo := memo })

/-- What the rules say about a path, and the engine that remembers it. -/
def explain (e : Engine) (path : String) (isDir : Bool) : Except PathFault Verdict × Engine :=
  match Key.ofPath path isDir with
  | .error fault => (.error fault, e)
  | .ok k =>
    let (answer, memo) := resolveVerdict e.rules k.lineage e.verdictMemo
    (.ok answer, { e with verdictMemo := memo })

/-- The paths that are not left out; the first path without a key ends the search. -/
def filterPaths (e : Engine) : List String → Except PathFault (List String) × Engine
  | [] => (.ok [], e)
  | path :: rest =>
    match e.ignores path false with
    | (.error fault, e) => (.error fault, e)
    | (.ok answer, e) =>
      let (kept, e) := e.filterPaths rest
      (kept.map fun paths => if answer then paths else path :: paths, e)

/-- The rules among a list of items. -/
def accepted (ignoreCase : Bool) (items : List (Option String)) : List Rule :=
  items.filterMap fun item => (Rule.ofItem ignoreCase item).toOption

/-- What is reported of the items that are no rules. -/
def rejectedReports (ignoreCase : Bool) (items : List (Option String)) : List Log.Record :=
  items.filterMap fun item =>
    match item, Rule.ofItem ignoreCase item with
    | some line, .error rejection =>
      rejection.report?.map fun reason =>
        ⟨.debug, .pattern, "Dropping pattern " ++ Text.quoted line ++ ": " ++ reason⟩
    | _, _ => none

/-- Appends the rules among a list of items. What is remembered stays if there are none. -/
def addItems (e : Engine) (items : List (Option String)) : Engine :=
  match accepted e.ignoreCase items with
  | [] => e
  | new => ofRules e.ignoreCase (e.rules ++ new)

end Engine

/-- How rules are handed over: as one text, as a list of items, or not at all. -/
inductive Lines where
  | text (s : String)
  | list (items : List (Option String))
  | nothing

/-- The items that are handed over; a text is cut at LF and CRLF. -/
def Lines.toItems : Lines → List (Option String)
  | .text s => (Text.piecesAtBreaks s.toList).map fun cs => some (String.ofList cs)
  | .list items => items
  | .nothing => []

/-- Appends the rules that are handed over. -/
def Engine.add (e : Engine) (given : Lines) : Engine := e.addItems given.toItems

end SourceSnapshot.Ignore
