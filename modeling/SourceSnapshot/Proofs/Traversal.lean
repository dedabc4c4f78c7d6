import SourceSnapshot.Proofs.Ignore.Ancestors
import SourceSnapshot.Traversal

/-!
# Traversals without memory

A walk takes along an engine that remembers its answers. As long as what it remembers agrees with
its rules, every entry is decided by the rules alone, and the engine that is handed on still has the
same rules. So the course of a walk depends on the rules and not on what was asked before.
-/

namespace SourceSnapshot

open FileSystem (Entry IsName)
open Ignore (Engine Exclusion Key Rule isIgnored)

namespace Ignore

/-- The engine that is taken along answers from these rules; without rules there is no engine. -/
structure Follows (engine? : Option Engine) (rules? : Option (List Rule)) : Prop where
  rules : engine?.map Engine.rules = rules?
  consistent : ∀ e ∈ engine?, e.Consistent

/-- An engine that was reached by calls follows its own rules. -/
theorem follows_of_reachable {engine? : Option Engine} (h : ∀ e ∈ engine?, e.Reachable) :
    Follows engine? (engine?.map Engine.rules) :=
  ⟨rfl, fun e he => (h e he).consistent⟩

/-- Asking an engine whether a path is left out leaves an engine that follows the same rules. -/
theorem Engine.Consistent.follows {e : Engine} (h : e.Consistent) (path : String) (isDir : Bool) :
    Follows (some (e.ignores path isDir).2) (some e.rules) := by
  obtain ⟨memo, hmemo⟩ := Engine.ignores_frame (e := e) path isDir
  refine ⟨by rw [hmemo]; rfl, ?_⟩
  rintro e' he
  rw [← Option.mem_some.mp he]
  exact (h.ignores path isDir).2

/-- Why the entry with a name is left out, from the names above it and the rules alone. -/
def Exclusion.byRules? (includeDotNames : Bool) (rules? : Option (List Rule))
    (above : List String) (name : String) (isDir : Bool) : Option Exclusion :=
  match ofName? includeDotNames name with
  | some exclusion => some exclusion
  | none =>
    if rules?.any (isIgnored · (Key.ofNames (above ++ [name]) isDir)) then some .rule else none

/-- An entry is kept if neither its name nor the rules leave it out. -/
theorem Exclusion.byRules?_eq_none_iff {includeDotNames : Bool} {rules? : Option (List Rule)}
    {above : List String} {name : String} {isDir : Bool} :
    byRules? includeDotNames rules? above name isDir = none ↔
      ofName? includeDotNames name = none ∧
        rules?.any (isIgnored · (Key.ofNames (above ++ [name]) isDir)) = false := by
  rw [byRules?]
  cases ofName? includeDotNames name with
  | some exclusion => simp
  | none => simp

/-- The answer about an entry comes from the rules alone, and the engine goes on following them. -/
theorem Exclusion.of_follows {engine? : Option Engine} {rules? : Option (List Rule)}
    (hf : Follows engine? rules?) {above : List String} {name : String}
    (h : ∀ n ∈ above ++ [name], IsName n) (includeDotNames isDir : Bool) :
    ∃ next?, Follows next? rules? ∧
      Exclusion.of includeDotNames engine? ("/".intercalate (above ++ [name])) name isDir =
        (.ok (byRules? includeDotNames rules? above name isDir), next?) := by
  rw [byRules?]
  unfold Exclusion.of
  cases ofName? includeDotNames name with
  | some exclusion => exact ⟨engine?, hf, rfl⟩
  | none =>
    cases engine? with
    | none =>
      obtain rfl : none = rules? := hf.rules
      exact ⟨none, hf, rfl⟩
    | some e =>
      obtain rfl : some e.rules = rules? := hf.rules
      have he := hf.consistent e rfl
      refine ⟨_, he.follows ("/".intercalate (above ++ [name])) isDir, ?_⟩
      simp only [he.ignores_intercalate h (by simp) isDir, Except.map, Option.any_some]

end Ignore

namespace Traversal

open Ignore (Follows)

theorem Walk.andThen_of_some {α : Type} {first : Walk α} {failure : Failure}
    (h : first.stop? = some failure) (next : Option Engine → Walk α) :
    first.andThen next = first := by
  rw [andThen, h]

/-- A walk that was not stopped goes on, and finds what both find. -/
theorem Walk.andThen_of_none {α : Type} {first : Walk α} (h : first.stop? = none)
    (next : Option Engine → Walk α) :
    first.andThen next =
      ⟨(next first.engine?).engine?, first.found ++ (next first.engine?).found,
        first.log ++ (next first.engine?).log, (next first.engine?).stop?⟩ := by
  rw [andThen, h]

/-- What holds of leaving an entry out if the rules do, and of keeping it if they do not, holds of
what is done about the entry. -/
theorem decideEntry_cases {α : Type} {motive : Walk α → Prop} {engine? : Option Engine}
    {rules? : Option (List Rule)} (hf : Follows engine? rules?) {above : List String}
    {name : String} (h : ∀ n ∈ above ++ [name], IsName n) {includeDotNames isDir : Bool}
    {excluded : Option Engine → Exclusion → Walk α} {kept : Option Engine → Walk α}
    (hexcluded : ∀ exclusion next?, Follows next? rules? →
      Exclusion.byRules? includeDotNames rules? above name isDir = some exclusion →
        motive (excluded next? exclusion))
    (hkept : ∀ next?, Follows next? rules? →
      Exclusion.byRules? includeDotNames rules? above name isDir = none → motive (kept next?)) :
    motive (decideEntry includeDotNames engine? ("/".intercalate (above ++ [name])) name isDir
      excluded kept) := by
  obtain ⟨next?, hnext, hanswer⟩ := Exclusion.of_follows hf h includeDotNames isDir
  rw [decideEntry, hanswer]
  cases hrules : Exclusion.byRules? includeDotNames rules? above name isDir with
  | some exclusion => exact hexcluded exclusion next? hnext hrules
  | none => exact hkept next? hnext hrules

/-- A traversal of a root that can be listed ends as its walk does. -/
theorem run_result_of_list {α β : Type} {fs : FileSystem} {path : String} {entries : List Entry}
    (hlist : fs.list path = .ok entries) (engine? : Option Engine) (walk : List Entry → Walk α)
    (finish : List α → β × List Log.Record) :
    (run fs engine? path walk finish).result =
      match (walk entries).stop? with
      | some failure => .error failure
      | none => .ok (finish (walk entries).found).1 := by
  rw [run, hlist]
  cases hstop : (walk entries).stop? with
  | some failure => simp only [hstop]
  | none => simp only [hstop]

/-- A traversal has a result if its root can be listed and nothing stops the walk; the result is
made of what was found. -/
theorem run_result_eq_ok_iff {α β : Type} {fs : FileSystem} {engine? : Option Engine}
    {path : String} {walk : List Entry → Walk α} {finish : List α → β × List Log.Record}
    {value : β} :
    (run fs engine? path walk finish).result = .ok value ↔
      ∃ entries, fs.list path = .ok entries ∧ (walk entries).stop? = none ∧
        (finish (walk entries).found).1 = value := by
  rw [run]
  cases fs.list path with
  | error fault => cases fault <;> simp
  | ok entries =>
    cases hstop : (walk entries).stop? with
    | some failure => simp [hstop]
    | none => simp [hstop]

end Traversal

end SourceSnapshot
