import SourceSnapshot.Proofs.Ignore.History
import SourceSnapshot.Proofs.Ignore.SingleRule

/-!
# What one more rule changes

The last rule that matches a key decides about it, so a rule at the end of the list moves the answer
for a key in one direction only: a rule that takes paths back in never makes a key left out, and any
other rule never takes one back in. A path is left out if some key of its lineage is. The rule may
decide about several keys of a lineage, but it moves all of them in the same direction, and so it
moves the answer for the path.
-/

namespace SourceSnapshot.Ignore

/-- If every key that some rules leave out is left out by others, so is every path. -/
theorem isIgnored_mono {fewer more : List Rule}
    (h : ∀ k, leavesOut fewer k = true → leavesOut more k = true) {k : Key}
    (hk : isIgnored fewer k = true) : isIgnored more k = true := by
  rw [isIgnored_eq_any, List.any_eq_true] at hk ⊢
  obtain ⟨above, habove, hout⟩ := hk
  exact ⟨above, habove, h above hout⟩

/-- A rule that takes nothing back in leaves out what the rules in front of it leave out. -/
theorem leavesOut_append_of_not_negative {rules : List Rule} {r : Rule} (hr : r.negative = false)
    {k : Key} (h : leavesOut rules k = true) : leavesOut (rules ++ [r]) k = true := by
  rw [leavesOut_append_singleton, hr, h]
  exact ite_self _

/-- Behind a rule that takes paths back in, nothing is left out that is not left out by the rules in
front of it. -/
theorem leavesOut_of_append_negative {rules : List Rule} {r : Rule} (hr : r.negative = true)
    {k : Key} (h : leavesOut (rules ++ [r]) k = true) : leavesOut rules k = true := by
  rw [leavesOut_append_singleton, hr] at h
  by_cases hmatch : r.matchesText k.chars = true
  · rw [if_pos hmatch] at h
    cases h
  · rwa [if_neg hmatch] at h

/-- Rules that take nothing back in leave out what the rules in front of them leave out. -/
theorem isIgnored_append_of_not_negative {rules more : List Rule}
    (hmore : ∀ r ∈ more, r.negative = false) {k : Key} (h : isIgnored rules k = true) :
    isIgnored (rules ++ more) k = true := by
  induction more generalizing rules with
  | nil => rwa [List.append_nil]
  | cons r more ih =>
    have hnext : isIgnored (rules ++ [r]) k = true :=
      isIgnored_mono (fun _ => leavesOut_append_of_not_negative (hmore r List.mem_cons_self)) h
    have hrest := ih (fun s hs => hmore s (List.mem_cons_of_mem r hs)) hnext
    rwa [List.append_assoc, List.singleton_append] at hrest

/-- Whether a line starts with an exclamation mark, byte order marks in front of it not counted. -/
def IsNegated (line : String) : Prop :=
  (line.toList.dropWhile (· == Rule.byteOrderMark)).head? = some '!'
  deriving Decidable

/-- The rule of a line takes paths back in if the line is negated. -/
theorem Rule.negative_iff_isNegated {ignoreCase : Bool} {line : String} {r : Rule}
    (h : Rule.ofLine ignoreCase line = .ok r) : r.negative = true ↔ IsNegated line := by
  obtain ⟨-, expression, -, -, rfl⟩ := Rule.ofLine_eq_ok_iff.mp h
  exact splitNegation_fst_iff

namespace Engine

theorem accepted_singleton {ignoreCase : Bool} {line : String} {r : Rule}
    (h : Rule.ofLine ignoreCase line = .ok r) : accepted ignoreCase [some line] = [r] := by
  simp [accepted, Rule.ofItem, h, Except.toOption]

/-- A consistent engine answers that a path is left out if the path has a key that its rules leave
out. -/
theorem Consistent.ignores_eq_ok_iff {e : Engine} (h : e.Consistent) {path : String} {isDir : Bool}
    {answer : Bool} : (e.ignores path isDir).1 = .ok answer ↔
      ∃ k, Key.ofPath path isDir = .ok k ∧ isIgnored e.rules k = answer := by
  rw [(h.ignores path isDir).1]
  cases hkey : Key.ofPath path isDir with
  | error fault => exact ⟨nofun, nofun⟩
  | ok k =>
    constructor
    · intro hanswer
      exact ⟨k, rfl, Except.ok.inj hanswer⟩
    · rintro ⟨k', hk', hanswer⟩
      obtain rfl := Except.ok.inj hk'
      exact congrArg Except.ok hanswer

/-- An answer that a path is left out carries over from one consistent engine to another if every
key that is left out by the rules of the one is left out by those of the other. -/
theorem Consistent.ignores_mono {e e' : Engine} (he : e.Consistent) (he' : e'.Consistent)
    (h : ∀ k, isIgnored e.rules k = true → isIgnored e'.rules k = true) {path : String}
    {isDir : Bool} (hpath : (e.ignores path isDir).1 = .ok true) :
    (e'.ignores path isDir).1 = .ok true := by
  obtain ⟨k, hkey, hout⟩ := he.ignores_eq_ok_iff.mp hpath
  exact he'.ignores_eq_ok_iff.mpr ⟨k, hkey, h k hout⟩

/-- What an engine leaves out stays left out as long as no rule is handed over that takes paths back
in, whatever else is asked of the engine. -/
theorem ignores_ofHistory_append {ignoreCase : Bool} {history later : List Call}
    (hlater : ∀ r ∈ rulesOf ignoreCase later, r.negative = false) {path : String} {isDir : Bool}
    (h : ((ofHistory ignoreCase history).ignores path isDir).1 = .ok true) :
    ((ofHistory ignoreCase (history ++ later)).ignores path isDir).1 = .ok true := by
  obtain ⟨hrules, -, hbefore⟩ := ofHistory_spec ignoreCase history
  obtain ⟨hrules', -, hafter⟩ := ofHistory_spec ignoreCase (history ++ later)
  have hsplit : rulesOf ignoreCase (history ++ later) =
      rulesOf ignoreCase history ++ rulesOf ignoreCase later := List.flatMap_append
  refine hbefore.ignores_mono hafter (fun k hk => ?_) h
  rw [hrules', hsplit]
  rw [hrules] at hk
  exact isIgnored_append_of_not_negative hlater hk

/-- A reachable engine that is given one more line gets the rule of that line. If the line is not
negated, every path that was left out is still left out; if it is negated, every path that is left
out now was left out before. -/
theorem ignores_add_monotone {e : Engine} (he : e.Reachable) {line : String} {r : Rule}
    (hline : Rule.ofLine e.ignoreCase line = .ok r) :
    (e.add (.list [some line])).rules = e.rules ++ [r] ∧
      (¬IsNegated line → ∀ path isDir, (e.ignores path isDir).1 = .ok true →
        ((e.add (.list [some line])).ignores path isDir).1 = .ok true) ∧
      (IsNegated line → ∀ path isDir,
        ((e.add (.list [some line])).ignores path isDir).1 = .ok true →
        (e.ignores path isDir).1 = .ok true) := by
  have hbefore := he.consistent
  obtain ⟨hrules, -, hafter⟩ := hbefore.addItems [some line]
  rw [accepted_singleton hline] at hrules
  refine ⟨hrules, fun hplain path isDir => ?_, fun hnegated path isDir => ?_⟩
  · have hr : r.negative = false := by
      rw [← Bool.not_eq_true, Rule.negative_iff_isNegated hline]
      exact hplain
    refine hbefore.ignores_mono hafter fun k hk => ?_
    rw [hrules]
    exact isIgnored_mono (fun _ => leavesOut_append_of_not_negative hr) hk
  · have hr : r.negative = true := (Rule.negative_iff_isNegated hline).mpr hnegated
    refine hafter.ignores_mono hbefore fun k hk => ?_
    rw [hrules] at hk
    exact isIgnored_mono (fun _ => leavesOut_of_append_negative hr) hk

/-- The line `src/` leaves out the directory `src`, and the line `!src[!s]` takes the directory back
in, though not what is below it. The file `src/a.log`, which the rule `*.log` leaves out, stays left
out behind the first line; and as it is left out behind the second line, it was before. -/
theorem ignores_add_src :
    let e := ofHistory true [.add (.list [some "*.log"])]
    let e' := e.add (.list [some "src/"])
    let e'' := e'.add (.list [some "!src[!s]"])
    ((e.ignores "src" true).1 = .ok false ∧ (e'.ignores "src" true).1 = .ok true ∧
        (e''.ignores "src" true).1 = .ok false) ∧
      (∃ r, Rule.ofLine e.ignoreCase "src/" = .ok r ∧ ¬IsNegated "src/" ∧
        (e'.ignores "src/a.log" false).1 = .ok true) ∧
      ∃ r, Rule.ofLine e'.ignoreCase "!src[!s]" = .ok r ∧ IsNegated "!src[!s]" ∧
        (e''.ignores "src/a.log" false).1 = .ok true ∧
        (e'.ignores "src/a.log" false).1 = .ok true := by
  intro e e' e''
  have he : e.Reachable := ⟨_, _, rfl⟩
  have he' : e'.Reachable :=
    ⟨true, [.add (.list [some "*.log"]), .add (.list [some "src/"])], rfl⟩
  have hplain : Rule.ofLine e.ignoreCase "src/" = .ok {
      source := "src/"
      negative := false
      directoryOnly := true
      anchored := false
      contentsOnly := false
      ignoreCase := true
      expression := .fromStart [.leadingDirectories, .literal 's', .literal 'r', .literal 'c',
        .directoryMark] } := by
    decide +kernel
  have hnegated : Rule.ofLine e'.ignoreCase "!src[!s]" = .ok {
      source := "!src[!s]"
      negative := true
      directoryOnly := false
      anchored := false
      contentsOnly := false
      ignoreCase := true
      expression := .fromStart [.leadingDirectories, .literal 's', .literal 'r', .literal 'c',
        .bracket ⟨true, ['s']⟩, .ending] } := by
    decide +kernel
  have hbefore : (e.ignores "src/a.log" false).1 = .ok true := by decide +kernel
  have hlast : (e''.ignores "src/a.log" false).1 = .ok true := by decide +kernel
  obtain ⟨-, hstays, -⟩ := ignores_add_monotone he hplain
  obtain ⟨-, -, hwas⟩ := ignores_add_monotone he' hnegated
  refine ⟨by decide +kernel, ⟨_, hplain, by decide +kernel, ?_⟩,
    ⟨_, hnegated, by decide +kernel, hlast, ?_⟩⟩
  · exact hstays (by decide +kernel) _ _ hbefore
  · exact hwas (by decide +kernel) _ _ hlast

end Engine

end SourceSnapshot.Ignore
