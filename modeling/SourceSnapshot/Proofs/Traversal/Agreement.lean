import SourceSnapshot.Proofs.FileSystem.Alike
import SourceSnapshot.Proofs.Traversal

/-!
# Traversals that agree

Two traversals whose engines differ at most in what they remember, and whose entries look alike,
find the same, report the same and end alike. The engines that they leave behind differ, again, at
most in what they remember. So neither earlier questions nor hidden material show in a traversal.
-/

namespace SourceSnapshot

open FileSystem (Entry)
open Ignore (Engine Exclusion)

namespace Ignore

/-- The engine with its rules alone. -/
def Engine.forget (e : Engine) : Engine := .ofRules e.ignoreCase e.rules

/-- The engine that is taken along is the fresh one but for what it remembers, and it remembers
nothing wrong. -/
structure Recalls (engine? fresh? : Option Engine) : Prop where
  forgotten : engine?.map Engine.forget = fresh?
  consistent : ∀ e ∈ engine?, e.Consistent

theorem Engine.Consistent.recalls {e : Engine} (h : e.Consistent) :
    Recalls (some e) (some e.forget) :=
  ⟨rfl, fun _ he => Option.mem_some.mp he ▸ h⟩

/-- An engine that was reached by calls remembers nothing wrong. -/
theorem recalls_of_reachable {engine? : Option Engine} (h : ∀ e ∈ engine?, e.Reachable) :
    Recalls engine? (engine?.map Engine.forget) :=
  ⟨rfl, fun e he => (h e he).consistent⟩

/-- An engine answers about an entry as the fresh one does, and goes on recalling it. -/
theorem Exclusion.of_recalls {engine? fresh? : Option Engine} (h : Recalls engine? fresh?)
    (includeDotNames : Bool) (path name : String) (isDir : Bool) :
    ∃ next?, Recalls next? fresh? ∧ Exclusion.of includeDotNames engine? path name isDir =
      ((Exclusion.of includeDotNames fresh? path name isDir).1, next?) := by
  unfold Exclusion.of
  cases ofName? includeDotNames name with
  | some exclusion => exact ⟨engine?, h, rfl⟩
  | none =>
    cases engine? with
    | none =>
      obtain rfl : none = fresh? := h.forgotten
      exact ⟨none, h, rfl⟩
    | some e =>
      obtain rfl : some e.forget = fresh? := h.forgotten
      have he := h.consistent e rfl
      have hfresh := Engine.consistent_ofRules e.ignoreCase e.rules
      obtain ⟨memo, hmemo⟩ := Engine.ignores_frame (e := e) path isDir
      have hnext : Recalls (some (e.ignores path isDir).2) (some e.forget) := by
        refine ⟨by rw [Option.map_some, hmemo]; rfl, fun e' he' => ?_⟩
        rw [← Option.mem_some.mp he']
        exact (he.ignores path isDir).2
      have hsame : (e.ignores path isDir).1 = (e.forget.ignores path isDir).1 :=
        ((he.ignores path isDir).1).trans ((hfresh.ignores path isDir).1).symm
      exact ⟨_, hnext, by simp only [hsame]⟩

/-- The engine leaves out whatever is hidden. -/
def Exclusion.LeavesOut (includeDotNames : Bool) (engine? : Option Engine)
    (hides : Entry.Hiding) : Prop :=
  ∀ path name isDir, hides path name isDir →
    (Exclusion.of includeDotNames engine? path name isDir).1 ≠ .ok none

/-- Nothing is hidden from a traversal that looks at one and the same root twice. -/
theorem Exclusion.leavesOut_nothing (includeDotNames : Bool) (engine? : Option Engine) :
    LeavesOut includeDotNames engine? fun _ _ _ => False :=
  fun _ _ _ h => h.elim

end Ignore

namespace Traversal

open Ignore (Recalls)

variable {α β : Type} {fresh? : Option Engine}

/-- Two walks find the same, report the same and are stopped alike, and both leave the fresh engine
behind but for what is remembered. -/
structure Walk.Agree (fresh? : Option Engine) (a b : Walk α) : Prop where
  found : a.found = b.found
  log : a.log = b.log
  stop : a.stop? = b.stop?
  left : Recalls a.engine? fresh?
  right : Recalls b.engine? fresh?

/-- Walks that agree and go on with walks that agree, agree. -/
theorem Walk.Agree.andThen {a b : Walk α} (h : a.Agree fresh? b)
    {next next' : Option Engine → Walk α}
    (hnext : ∀ e? e?', Recalls e? fresh? → Recalls e?' fresh? →
      (next e?).Agree fresh? (next' e?')) :
    (a.andThen next).Agree fresh? (b.andThen next') := by
  cases hstop : a.stop? with
  | some failure =>
    rw [Walk.andThen_of_some hstop, Walk.andThen_of_some (h.stop.symm.trans hstop)]
    exact h
  | none =>
    rw [Walk.andThen_of_none hstop, Walk.andThen_of_none (h.stop.symm.trans hstop)]
    have hlast := hnext _ _ h.left h.right
    refine ⟨?_, ?_, hlast.stop, hlast.left, hlast.right⟩
    · exact congrArg₂ (· ++ ·) h.found hlast.found
    · exact congrArg₂ (· ++ ·) h.log hlast.log

theorem Walk.agree_single {engine? engine?' : Option Engine} (h : Recalls engine? fresh?)
    (h' : Recalls engine?' fresh?) (a : α) (log : List Log.Record) :
    (Walk.single engine? a log).Agree fresh? (.single engine?' a log) :=
  ⟨rfl, rfl, rfl, h, h'⟩

theorem Walk.agree_idle {engine? engine?' : Option Engine} (h : Recalls engine? fresh?)
    (h' : Recalls engine?' fresh?) (log : List Log.Record) :
    (Walk.idle engine? log : Walk α).Agree fresh? (.idle engine?' log) :=
  ⟨rfl, rfl, rfl, h, h'⟩

/-- What is done about one entry agrees if leaving it out agrees wherever the fresh engine leaves it
out, and keeping it agrees wherever that engine keeps it. -/
theorem decideEntry_agree {engine? engine?' : Option Engine} (h : Recalls engine? fresh?)
    (h' : Recalls engine?' fresh?) {includeDotNames : Bool} {path name : String} {isDir : Bool}
    {excluded excluded' : Option Engine → Exclusion → Walk α}
    {kept kept' : Option Engine → Walk α}
    (hexcluded : ∀ exclusion e? e?', Recalls e? fresh? → Recalls e?' fresh? →
      (excluded e? exclusion).Agree fresh? (excluded' e?' exclusion))
    (hkept : (Exclusion.of includeDotNames fresh? path name isDir).1 = .ok none →
      ∀ e? e?', Recalls e? fresh? → Recalls e?' fresh? → (kept e?).Agree fresh? (kept' e?')) :
    (decideEntry includeDotNames engine? path name isDir excluded kept).Agree fresh?
      (decideEntry includeDotNames engine?' path name isDir excluded' kept') := by
  obtain ⟨next?, hnext, hanswer⟩ := Exclusion.of_recalls h includeDotNames path name isDir
  obtain ⟨next?', hnext', hanswer'⟩ := Exclusion.of_recalls h' includeDotNames path name isDir
  rw [decideEntry, decideEntry, hanswer, hanswer']
  cases hfresh : (Exclusion.of includeDotNames fresh? path name isDir).1 with
  | error fault => exact ⟨rfl, rfl, rfl, hnext, hnext'⟩
  | ok answer =>
    cases answer with
    | some exclusion => exact hexcluded exclusion next? next?' hnext hnext'
    | none => exact hkept hfresh next? next?' hnext hnext'

/-- Two traversals have the same result and report the same, and both leave the fresh engine behind
but for what is remembered. -/
structure Run.Agree (fresh? : Option Engine) (a b : Run α) : Prop where
  result : a.result = b.result
  log : a.log = b.log
  left : Recalls a.engine? fresh?
  right : Recalls b.engine? fresh?

/-- Traversals of roots that are listed alike agree if their walks agree on what looks alike. -/
theorem run_agree {fs fs' : FileSystem} {path : String} {hides : Entry.Hiding} {limit : Nat}
    (hlist : Entry.SameListing hides limit (fs.list path) (fs'.list path))
    {engine? engine?' : Option Engine} (h : Recalls engine? fresh?)
    (h' : Recalls engine?' fresh?) {walk walk' : List Entry → Walk α}
    (hwalk : ∀ entries entries', Entry.AllAlike hides limit "" entries entries' →
      (walk entries).Agree fresh? (walk' entries'))
    (finish : List α → β × List Log.Record) :
    (run fs engine? path walk finish).Agree fresh? (run fs' engine?' path walk' finish) := by
  unfold run
  generalize fs.list path = listing at hlist
  generalize fs'.list path = listing' at hlist
  cases hlist with
  | failed fault =>
    cases fault with
    | nulInPath => exact ⟨rfl, rfl, h, h'⟩
    | call fault => exact ⟨rfl, rfl, h, h'⟩
  | listed entries entries' halike =>
    have hagree := hwalk entries entries' halike
    simp only [hagree.stop, hagree.found, hagree.log]
    cases (walk' entries').stop? with
    | some failure => exact ⟨rfl, rfl, hagree.left, hagree.right⟩
    | none => exact ⟨rfl, rfl, hagree.left, hagree.right⟩

end Traversal

end SourceSnapshot
