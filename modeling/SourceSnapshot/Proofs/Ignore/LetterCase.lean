import SourceSnapshot.Proofs.Ignore.History
import SourceSnapshot.Proofs.Ignore.Matching
import SourceSnapshot.Proofs.Pattern.LetterCase

/-!
# Engines that do not tell letters by their case

Two paths that differ in the case of ASCII letters only have keys that are one key in lower case,
and so have the directories above them. Rules that ignore case say the same about a key and about
the key in lower case. So an engine that ignores case gives the same answers for both paths,
whatever it was given before and whatever it remembers under either spelling.
-/

namespace SourceSnapshot.Ignore

open Text (lowered)

namespace Key

/-- A key with every ASCII letter in lower case. -/
def lowered (k : Key) : Key := ⟨Text.lowered k.chars⟩

/-- The `./` in front may be dropped before or after the change to lower case. -/
theorem dropHere_lowered (cs : List Char) :
    dropHere (Text.lowered cs) = Text.lowered (dropHere cs) := by
  induction cs using dropHere.induct with
  | case1 rest ih => exact ih
  | case2 cs hcs =>
    have hlower : ∀ rest, Text.lowered cs ≠ '.' :: '/' :: rest := by
      intro rest h
      have hprefix : ['.', '/'].isPrefixOf cs = true := by
        rw [← Text.isPrefixOf_lowered (by simp), h]
        rfl
      obtain ⟨behind, rfl⟩ := List.isPrefixOf_iff_prefix.mp hprefix
      exact hcs behind rfl
    rw [dropHere.eq_2 cs hcs, dropHere.eq_2 _ hlower]

/-- The key of a path in lower case is the key of the path, in lower case. -/
theorem toOption_ofPath_lowered (path : String) (isDir : Bool) :
    (ofPath (String.ofList (Text.lowered path.toList)) isDir).toOption =
      (ofPath path isDir).toOption.map lowered := by
  have htrim : ∀ cs, Text.trim (· == '/') (Text.lowered cs) =
      Text.lowered (Text.trim (· == '/') cs) :=
    Text.trim_lowered fun c => Text.beq_toLower (by decide)
  have hempty : ∀ cs, Text.lowered cs = [] ↔ cs = [] := fun cs =>
    Text.lowered_eq_iff (List.forall_mem_nil _)
  have hdot : ∀ cs, Text.lowered cs = ['.'] ↔ cs = ['.'] := fun cs =>
    Text.lowered_eq_iff (by simp)
  have hdots : ∀ cs, Text.lowered cs = ['.', '.'] ↔ cs = ['.', '.'] := fun cs =>
    Text.lowered_eq_iff (by simp)
  have hup : ∀ cs, ['.', '.', '/'].isPrefixOf (Text.lowered cs) = ['.', '.', '/'].isPrefixOf cs :=
    Text.isPrefixOf_lowered (by simp)
  have hends : ∀ cs, Text.endsWith (Text.lowered cs) ['/'] = Text.endsWith cs ['/'] :=
    Text.endsWith_lowered (by decide)
  have hhead : (Text.lowered path.toList).head? = some '/' ↔ path.toList.head? = some '/' := by
    cases path.toList with
    | nil => exact Iff.rfl
    | cons c cs =>
      rw [Text.lowered, List.map_cons, List.head?_cons, List.head?_cons, Option.some.injEq,
        Option.some.injEq, Text.toLower_eq_iff (by decide)]
  simp only [ofPath, String.toList_ofList, hhead, dropHere_lowered, htrim, hempty, hdot, hdots,
    hup, hends]
  split_ifs
  · rfl
  · rfl
  · rfl
  · simp [Except.toOption, lowered, Text.lowered]
  · rfl

/-- Paths that differ in the case of ASCII letters only have keys that are the same in lower case.
-/
theorem ofPath_of_sameLetters {path path' : String} {isDir : Bool} {k : Key}
    (hletters : List.Forall₂ Text.SameLetter path.toList path'.toList)
    (hkey : ofPath path isDir = .ok k) :
    ∃ k', ofPath path' isDir = .ok k' ∧ k'.lowered = k.lowered := by
  have hsame := toOption_ofPath_lowered path isDir
  rw [Text.lowered_eq_of_sameLetters hletters, toOption_ofPath_lowered, hkey] at hsame
  obtain ⟨k', hk', hlowered⟩ := Option.map_eq_some_iff.mp hsame
  cases hkey' : ofPath path' isDir with
  | error fault =>
    rw [hkey'] at hk'
    cases hk'
  | ok k'' =>
    rw [hkey'] at hk'
    obtain rfl : k'' = k' := Option.some.inj hk'
    exact ⟨k'', rfl, hlowered⟩

/-- The directory above a key in lower case is the directory above the key, in lower case. -/
theorem parent?_lowered (k : Key) : k.lowered.parent? = k.parent?.map lowered := by
  have hbare := Text.dropTrailing_lowered (p := (· == '/'))
    (fun c => Text.beq_toLower (by decide)) k.chars
  have habove := Text.dropTrailing_lowered (p := (· != '/'))
    (fun c => by rw [bne, bne, Text.beq_toLower (by decide)])
    (Text.dropTrailing (· == '/') k.chars)
  have hempty : ∀ cs, Text.lowered cs = [] ↔ cs = [] := fun cs =>
    Text.lowered_eq_iff (List.forall_mem_nil _)
  simp only [parent?, lowered, hbare, habove, hempty]
  split
  · rfl
  · rfl

/-- The lineage of a key in lower case is the lineage of the key, in lower case. -/
theorem lineage_lowered (k : Key) : k.lowered.lineage = k.lineage.map lowered := by
  induction k using lineage_induction with
  | root k hp =>
    have hlower : k.lowered.parent? = none := by rw [parent?_lowered, hp, Option.map_none]
    rw [lineage_of_parent?_none hp, lineage_of_parent?_none hlower, List.map_singleton]
  | below k above hp ih =>
    have hlower : k.lowered.parent? = some above.lowered := by
      rw [parent?_lowered, hp, Option.map_some]
    rw [lineage_of_parent?_some hp, lineage_of_parent?_some hlower, ih, List.map_cons]

end Key

/-- What is passed on along a lineage is the same in lower case, if each step is. -/
theorem passedOn_lowered {α : Type} {start : α} {extend : α → Key → α}
    (h : ∀ above k, extend above k.lowered = extend above k) (k : Key) :
    passedOn start extend k.lowered = passedOn start extend k := by
  rw [passedOn, passedOn, Key.lineage_lowered, List.foldr_map]
  simp only [h]

/-- A rule that ignores case matches a key in lower case if it matches the key. -/
theorem Rule.matchesText_lowered {r : Rule} (hr : r.ignoreCase = true) (cs : List Char) :
    r.matchesText (Text.lowered cs) = r.matchesText cs := by
  rw [matchesText, matchesText, hr, Pattern.Expression.search?_lowered]
  cases r.expression.search? true cs with
  | none => rfl
  | some rest =>
    have hempty : (Text.lowered rest).isEmpty = rest.isEmpty := List.isEmpty_map
    simp only [Option.map_some, hempty, Text.endsWith_lowered (show '/'.isAlpha = false by decide)]

section

variable {rules : List Rule} (hrules : ∀ r ∈ rules, r.ignoreCase = true) (k : Key)

include hrules

theorem lastMatch?_lowered : lastMatch? rules k.lowered = lastMatch? rules k := by
  rw [lastMatch?, lastMatch?]
  refine List.find?_congr fun r hr => ?_
  exact Rule.matchesText_lowered (hrules r (List.mem_reverse.mp hr)) k.chars

theorem leavesOut_lowered : leavesOut rules k.lowered = leavesOut rules k := by
  rw [leavesOut, leavesOut, lastMatch?_lowered hrules]

theorem judge_lowered : judge rules k.lowered = judge rules k := by
  rw [judge, judge, lastMatch?_lowered hrules]

theorem isIgnored_lowered : isIgnored rules k.lowered = isIgnored rules k :=
  passedOn_lowered (fun _ k => by rw [leavesOut_lowered hrules]) k

theorem verdict_lowered : verdict rules k.lowered = verdict rules k :=
  passedOn_lowered (fun _ k => by rw [judge_lowered hrules]) k

end

/-- All rules that are handed over to an engine that ignores case ignore case. -/
theorem ignoreCase_of_mem_rulesOf {ignoreCase : Bool} {history : List Call} {r : Rule}
    (hr : r ∈ rulesOf ignoreCase history) : r.ignoreCase = ignoreCase := by
  obtain ⟨c, -, hc⟩ := List.mem_flatMap.mp hr
  obtain ⟨item, -, hitem⟩ := List.mem_filterMap.mp hc
  cases item with
  | none => cases hitem
  | some line =>
    cases hline : Rule.ofLine ignoreCase line with
    | error rejection =>
      rw [Rule.ofItem, hline] at hitem
      cases hitem
    | ok r' =>
      rw [Rule.ofItem, hline] at hitem
      obtain rfl : r' = r := Option.some.inj hitem
      exact (Rule.ofLine_eq_ok hline).2.1

namespace Engine

/-- The rules of a reachable engine that ignores case ignore case. -/
theorem Reachable.ignoreCase_of_mem_rules {e : Engine} (he : e.Reachable) {r : Rule}
    (hr : r ∈ e.rules) : r.ignoreCase = e.ignoreCase := by
  obtain ⟨ignoreCase, history, rfl⟩ := he
  obtain ⟨hrules, hcase, -⟩ := ofHistory_spec ignoreCase history
  rw [hrules] at hr
  rw [hcase]
  exact ignoreCase_of_mem_rulesOf hr

/-- A reachable engine that ignores case answers alike for two paths that differ in the case of
ASCII letters only: both are left out or neither is, and the same rule is named for both. -/
theorem answers_of_sameLetters {e : Engine} (he : e.Reachable) (hcase : e.ignoreCase = true)
    {path path' : String} {isDir : Bool} {k : Key}
    (hletters : List.Forall₂ Text.SameLetter path.toList path'.toList)
    (hkey : Key.ofPath path isDir = .ok k) :
    ∃ answer v, ((e.ignores path isDir).1 = .ok answer ∧ (e.ignores path' isDir).1 = .ok answer) ∧
      (e.explain path isDir).1 = .ok v ∧ (e.explain path' isDir).1 = .ok v := by
  have hconsistent := he.consistent
  have hrules : ∀ r ∈ e.rules, r.ignoreCase = true := fun r hr =>
    (he.ignoreCase_of_mem_rules hr).trans hcase
  obtain ⟨k', hkey', hlowered⟩ := Key.ofPath_of_sameLetters hletters hkey
  have hignored : isIgnored e.rules k' = isIgnored e.rules k := by
    rw [← isIgnored_lowered hrules k', hlowered, isIgnored_lowered hrules]
  have hverdict : verdict e.rules k' = verdict e.rules k := by
    rw [← verdict_lowered hrules k', hlowered, verdict_lowered hrules]
  refine ⟨isIgnored e.rules k, verdict e.rules k, ⟨?_, ?_⟩, ?_, ?_⟩
  · rw [(hconsistent.ignores path isDir).1, hkey, Except.map]
  · rw [(hconsistent.ignores path' isDir).1, hkey', Except.map, hignored]
  · rw [(hconsistent.explain path isDir).1, hkey, Except.map]
  · rw [(hconsistent.explain path' isDir).1, hkey', Except.map, hverdict]

/-- The rule `Src/**/[!A-J]b` leaves out `src/LIB/Kb` and `SRC/lib/kB`, and it is named for both, by
an engine that has been asked about a third spelling before. -/
theorem answers_src_lib :
    let e := ofHistory true [.add (.list [some "Src/**/[!A-J]b", some "!src/**/[x-z]b"]),
      .ignores "SRC/Lib/KB" false]
    List.Forall₂ Text.SameLetter "src/LIB/Kb".toList "SRC/lib/kB".toList ∧
      Key.ofPath "src/LIB/Kb" false = .ok ⟨"src/LIB/Kb".toList⟩ ∧
      ((e.ignores "src/LIB/Kb" false).1 = .ok true ∧
        (e.ignores "SRC/lib/kB" false).1 = .ok true) ∧
      ∃ v, v.rule.map Rule.source = some "Src/**/[!A-J]b" ∧
        (e.explain "src/LIB/Kb" false).1 = .ok v ∧ (e.explain "SRC/lib/kB" false).1 = .ok v := by
  intro e
  have he : e.Reachable := ⟨_, _, rfl⟩
  have hletters : List.Forall₂ Text.SameLetter "src/LIB/Kb".toList "SRC/lib/kB".toList := by
    decide +kernel
  have hkey : Key.ofPath "src/LIB/Kb" false = .ok ⟨"src/LIB/Kb".toList⟩ := by decide +kernel
  have hignored : (e.ignores "src/LIB/Kb" false).1 = .ok true := by decide +kernel
  have hrule : ((e.explain "src/LIB/Kb" false).1.toOption.bind Verdict.rule).map Rule.source =
      some "Src/**/[!A-J]b" := by
    decide +kernel
  obtain ⟨answer, v, ⟨hfirst, hsecond⟩, hexplained, hexplained'⟩ :=
    answers_of_sameLetters he (by decide +kernel) hletters hkey
  obtain rfl := Except.ok.inj (hignored.symm.trans hfirst)
  rw [hexplained] at hrule
  exact ⟨hletters, hkey, ⟨hfirst, hsecond⟩, v, hrule, hexplained, hexplained'⟩

end Engine

end SourceSnapshot.Ignore
