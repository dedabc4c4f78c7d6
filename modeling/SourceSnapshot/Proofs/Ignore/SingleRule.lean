import SourceSnapshot.Proofs.Ignore.Ancestors
import SourceSnapshot.Proofs.Ignore.Matching
import SourceSnapshot.Proofs.Pattern.Extension

/-!
# Engines with a single rule

An engine with one rule that takes nothing back in leaves out the paths in which the expression of
the rule is found. The directories above a path are asked about as well, but what is found of a
directory is found of all that is below it. The exception are expressions that take the slash at the
end of a directory's path as a character: they leave out what is below the directory although they
are not found there.
-/

namespace SourceSnapshot.Ignore

open FileSystem (IsName)
open Pattern (Expression)

/-- A line without a byte order mark loses nothing at its start. -/
theorem dropWhile_byteOrderMark {line : String}
    (h : line.toList.head? ≠ some Rule.byteOrderMark) :
    line.toList.dropWhile (· == Rule.byteOrderMark) = line.toList := by
  cases hline : line.toList with
  | nil => rfl
  | cons c rest =>
    have hc : (c == Rule.byteOrderMark) = false := by
      rw [beq_eq_false_iff_ne]
      rintro rfl
      exact h (by rw [hline, List.head?_cons])
    rw [List.dropWhile_cons, hc, if_neg Bool.false_ne_true]

/-- A line is negated if it starts with an exclamation mark. -/
theorem splitNegation_fst_iff {cs : List Char} :
    (Pattern.splitNegation cs).1 = true ↔ cs.head? = some '!' := by
  constructor
  · intro h
    by_contra hne
    rw [Pattern.splitNegation_of_head?_ne hne] at h
    cases h
  · intro h
    obtain ⟨rest, rfl⟩ := List.head?_eq_some_iff.mp h
    rfl

/-- The expression of a rule ends as the last segment of its pattern asks, and that is two stars if
the rule is about the contents of a directory. -/
theorem Rule.exists_endsAs_expression {ignoreCase : Bool} {line : String} {r : Rule}
    (h : Rule.ofLine ignoreCase line = .ok r) :
    ∃ last, r.expression.EndsAs last ∧ (r.contentsOnly = true → last = Pattern.twoStars) := by
  obtain ⟨hslashes, -, hcontents, segments, hread, hexpression⟩ := Rule.ofLine_eq_ok h
  have hlast := List.getLast?_eq_some_getLast (Pattern.segmentTexts_ne_nil hslashes)
  generalize (Pattern.segmentTexts (bodyOf line)).getLast _ = last at hlast
  have hne : last ≠ [] := by
    rintro rfl
    exact Pattern.getLast?_segmentTexts_ne _ hlast
  refine ⟨last, ?_, fun hkeeps => ?_⟩
  · rw [hexpression]
    exact Pattern.endsAs_ofSegments hread
      (fun _ => Pattern.slash_notMem_of_mem_segmentTexts hslashes) hlast hne _
  · rw [hcontents] at hkeeps
    rw [Pattern.getLast?_segmentTexts_of_contents hslashes hkeeps] at hlast
    exact (Option.some.inj hlast).symm

/-- The expression of a rule that matches is found. -/
theorem Rule.isFound_of_matchesText {r : Rule} {cs : List Char} (h : r.matchesText cs = true) :
    r.expression.isFound r.ignoreCase cs = true := by
  rw [matchesText] at h
  rw [Expression.isFound]
  cases hsearch : r.expression.search? r.ignoreCase cs with
  | none =>
    rw [hsearch] at h
    cases h
  | some rest => rfl

/-- A rule whose expression is found matches, unless it is about the contents of a directory and the
path is that of one. -/
theorem Rule.matchesText_of_isFound {r : Rule} {cs : List Char}
    (hcontents : r.contentsOnly = true → Text.endsWith cs ['/'] = false)
    (h : r.expression.isFound r.ignoreCase cs = true) : r.matchesText cs = true := by
  rw [matchesText]
  cases hsearch : r.expression.search? r.ignoreCase cs with
  | none =>
    rw [Expression.isFound, hsearch] at h
    cases h
  | some rest =>
    cases hkeeps : r.contentsOnly with
    | false => rfl
    | true => simp [hcontents hkeeps]

/-- The last of several rules decides about a key that it matches. -/
theorem leavesOut_append_singleton (rules : List Rule) (r : Rule) (k : Key) :
    leavesOut (rules ++ [r]) k =
      if r.matchesText k.chars = true then !r.negative else leavesOut rules k := by
  have hlast : lastMatch? (rules ++ [r]) k =
      if r.matchesText k.chars = true then some r else lastMatch? rules k := by
    rw [lastMatch?, List.reverse_append, List.reverse_singleton, List.singleton_append,
      List.find?_cons]
    cases r.matchesText k.chars <;> rfl
  rw [leavesOut, hlast]
  by_cases hmatch : r.matchesText k.chars = true
  · rw [if_pos hmatch, if_pos hmatch]
  · rw [if_neg hmatch, if_neg hmatch]
    rfl

/-- A single rule leaves out a key that it matches if it is not negative. -/
theorem leavesOut_singleton_iff {r : Rule} {k : Key} :
    leavesOut [r] k = true ↔ r.matchesText k.chars = true ∧ r.negative = false := by
  have hlast := leavesOut_append_singleton [] r k
  rw [List.nil_append] at hlast
  rw [hlast]
  by_cases hmatch : r.matchesText k.chars = true
  · rw [if_pos hmatch, Bool.not_eq_true', and_iff_right hmatch]
  · rw [if_neg hmatch]
    exact iff_of_false nofun fun h => hmatch h.1

theorem Key.ofNames_append {above below : List String} (habove : above ≠ []) (hbelow : below ≠ [])
    (isDir : Bool) :
    (ofNames (above ++ below) isDir).chars =
      (ofNames above true).chars ++ (ofNames below isDir).chars := by
  simp [ofNames, String.intercalate_append_of_ne_nil habove hbelow]

theorem Key.ofBeginning_of_lt {names : List String} {i : Nat} (hi : i < names.length)
    (isDir : Bool) : ofBeginning names isDir i = ofNames (names.take i) true := by
  simp [ofBeginning, hi]

/-- The key of a path starts with the key of each of its beginnings. -/
theorem Key.ofNames_take_append_drop {names : List String} {i : Nat} (hpos : 1 ≤ i)
    (hi : i < names.length) (isDir : Bool) :
    (ofNames names isDir).chars =
      (ofNames (names.take i) true).chars ++ (ofNames (names.drop i) isDir).chars := by
  have htake : names.take i ≠ [] := by
    rw [Ne, List.take_eq_nil_iff]
    rintro (rfl | rfl)
    · omega
    · exact absurd hi (Nat.not_lt_zero i)
  have hdrop : names.drop i ≠ [] := by
    rw [Ne, List.drop_eq_nil_iff]
    omega
  rw [← ofNames_append htake hdrop, List.take_append_drop]

section

variable {ignoreCase : Bool} {line : String} {r : Rule} {names : List String}

/-- A single rule that takes nothing back in leaves out the path of a file if its expression is
found there, or takes the slash at the end of the path of a directory above. -/
theorem isIgnored_singleton_iff (hr : Rule.ofLine ignoreCase line = .ok r)
    (hnames : ∀ n ∈ names, IsName n) (hne : names ≠ []) :
    isIgnored [r] (Key.ofNames names false) = true ↔ r.negative = false ∧
      (r.expression.isFound ignoreCase ("/".intercalate names).toList = true ∨
        ∃ i, 1 ≤ i ∧ i < names.length ∧
          r.expression.TakesLastSlash ignoreCase (Key.ofBeginning names false i).chars) := by
  obtain ⟨-, hcase, -⟩ := Rule.ofLine_eq_ok hr
  obtain ⟨last, hends, hstars⟩ := Rule.exists_endsAs_expression hr
  have hpath : (Key.ofNames names false).chars = ("/".intercalate names).toList :=
    List.append_nil _
  simp only [isIgnored_ofNames hnames hne, leavesOut_singleton_iff, ← hpath]
  constructor
  · rintro ⟨i, hpos, hi, hmatch, hnegative⟩
    refine ⟨hnegative, ?_⟩
    have hfound := Rule.isFound_of_matchesText hmatch
    rw [hcase] at hfound
    rcases Nat.lt_or_eq_of_le hi with hlt | rfl
    · -- What is found of a directory above is found here as well.
      rw [Key.ofBeginning_of_lt hlt] at hfound
      rcases Pattern.isFound_below hends hfound (Key.ofNames (names.drop i) false).chars with
        hbelow | htakes
      · rw [Key.ofNames_take_append_drop hpos hlt, Key.ofNames, if_pos rfl, List.append_assoc]
        exact Or.inl hbelow
      · exact Or.inr ⟨i, hpos, hlt, Key.ofBeginning_of_lt hlt false ▸ htakes⟩
    · rw [Key.ofBeginning_length] at hfound
      exact Or.inl hfound
  · rintro ⟨hnegative, hfound | ⟨i, hpos, hi, htakes⟩⟩
    · refine ⟨names.length, List.length_pos_iff.mpr hne, Nat.le_refl _, ?_, hnegative⟩
      rw [Key.ofBeginning_length]
      refine Rule.matchesText_of_isFound (fun _ => Bool.eq_false_iff.mpr fun hslash => ?_)
        (hcase ▸ hfound)
      rw [hpath] at hslash
      exact FileSystem.getLast?_intercalate hnames hne (Text.endsWith_singleton.mp hslash) rfl
    · refine ⟨i, hpos, Nat.le_of_lt hi, ?_, hnegative⟩
      have hkeeps : r.contentsOnly ≠ true := fun hcontents =>
        Pattern.not_takesLastSlash (hstars hcontents ▸ hends) htakes
      exact Rule.matchesText_of_isFound (fun hcontents => absurd hcontents hkeeps)
        (hcase ▸ Pattern.isFound_of_takesLastSlash htakes)

namespace Engine

/-- An engine that is given one line answers that a file is left out if the line is not negated and
its expression is found in the path of the file, or takes the slash at the end of the path of a
directory above as a character. Only an expression that ends in a bracket expression can do so. -/
theorem ignores_iff_isFound_or_takesLastSlash (hline : Rule.ofLine ignoreCase line = .ok r)
    (hmark : line.toList.head? ≠ some Rule.byteOrderMark) (hnames : ∀ n ∈ names, IsName n)
    (hne : names ≠ []) :
    ∃ e answer, Expression.ofLine? line = .ok (some e) ∧
      (((empty ignoreCase).add (.list [some line])).ignores ("/".intercalate names) false).1 =
        .ok answer ∧
      (answer = true ↔ line.toList.head? ≠ some '!' ∧
        (e.isFound ignoreCase ("/".intercalate names).toList = true ∨
          ∃ i, 1 ≤ i ∧ i < names.length ∧
            e.TakesLastSlash ignoreCase (Key.ofBeginning names false i).chars)) := by
  obtain ⟨-, expression, hexpression, -, hr⟩ := Rule.ofLine_eq_ok_iff.mp hline
  rw [dropWhile_byteOrderMark hmark] at hexpression hr
  rw [String.ofList_toList] at hexpression
  have haccepted : accepted ignoreCase [some line] = [r] := by
    simp [accepted, Rule.ofItem, hline, Except.toOption]
  obtain ⟨hrules, -, hconsistent⟩ :=
    (consistent_ofRules ignoreCase []).addItems [some line]
  have hanswer := hconsistent.ignores_intercalate hnames hne false
  rw [hrules] at hanswer
  refine ⟨expression, isIgnored [r] (Key.ofNames names false), hexpression, ?_, ?_⟩
  · exact hanswer.trans (by rw [ofRules, haccepted, List.nil_append])
  · rw [isIgnored_singleton_iff hline hnames hne, hr, ← Bool.not_eq_true, splitNegation_fst_iff]

/-- With the rule `doc[!s]` the file `a/doc/x` is left out, for what is not an `s` in the path of
the directory above is the slash at its end. -/
theorem ignores_below_doc :
    ∃ r, Rule.ofLine false "doc[!s]" = .ok r ∧ (∀ n ∈ ["a", "doc", "x"], IsName n) ∧
      ∃ e answer, Expression.ofLine? "doc[!s]" = .ok (some e) ∧
        (((empty false).add (.list [some "doc[!s]"])).ignores
          ("/".intercalate ["a", "doc", "x"]) false).1 = .ok answer ∧
        e.isFound false ("/".intercalate ["a", "doc", "x"]).toList = false ∧ answer = true := by
  have hline : Rule.ofLine false "doc[!s]" = .ok {
      source := "doc[!s]"
      negative := false
      directoryOnly := false
      anchored := false
      contentsOnly := false
      ignoreCase := false
      expression := .fromStart ([.leadingDirectories, .literal 'd', .literal 'o', .literal 'c'] ++
        [.bracket ⟨true, ['s']⟩, .ending]) } := by
    decide +kernel
  have hnames : ∀ n ∈ ["a", "doc", "x"], IsName n := by decide
  obtain ⟨e, answer, he, hanswer, hiff⟩ :=
    ignores_iff_isFound_or_takesLastSlash hline (by decide) hnames (by decide)
  have hexpression : Expression.ofLine? "doc[!s]" = .ok (some (.fromStart
      ([.leadingDirectories, .literal 'd', .literal 'o', .literal 'c'] ++
        [.bracket ⟨true, ['s']⟩, .ending]))) := by
    decide +kernel
  obtain rfl := Option.some.inj (Except.ok.inj (hexpression.symm.trans he))
  refine ⟨_, hline, hnames, _, answer, he, hanswer, by decide +kernel, hiff.mpr ?_⟩
  exact ⟨by decide, Or.inr ⟨2, by decide, by decide, _, _, rfl, by decide +kernel,
    by decide +kernel⟩⟩

/-- The rule `a[!b]` leaves out the file `a/x`, in whose path its expression is not found. -/
theorem ignores_without_isFound :
    ∃ r, Rule.ofLine false "a[!b]" = .ok r ∧
      Expression.ofLine? "a[!b]" = .ok (some r.expression) ∧
      (((empty false).add (.list [some "a[!b]"])).ignores "a/x" false).1 = .ok true ∧
      r.expression.isFound false "a/x".toList = false := by
  have hline : Rule.ofLine false "a[!b]" = .ok {
      source := "a[!b]"
      negative := false
      directoryOnly := false
      anchored := false
      contentsOnly := false
      ignoreCase := false
      expression := .fromStart
        [.leadingDirectories, .literal 'a', .bracket ⟨true, ['b']⟩, .ending] } := by
    decide +kernel
  exact ⟨_, hline, by decide +kernel, by decide +kernel, by decide +kernel⟩

end Engine

end

end SourceSnapshot.Ignore
