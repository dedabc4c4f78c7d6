import SourceSnapshot.Proofs.Ignore.SingleRule
import SourceSnapshot.Proofs.Pattern.Directories

/-!
# Rules about directories only

Whether a rule is about directories only is read off its line, and what it matches is up to its
expression. The two agree: a pattern that ends with a slash leaves an expression that is closed by
one. So such a rule decides about a file only through a directory above it.
-/

namespace SourceSnapshot.Ignore

open Pattern (Expression)

section

variable {ignoreCase : Bool} {line : String} {r : Rule} {names : List String}

/-- The expression of a rule about directories only is closed by a slash, and the rule is not about
the contents of a directory. -/
theorem Rule.closedBySlash_of_directoryOnly (hr : Rule.ofLine ignoreCase line = .ok r)
    (hdirectory : r.directoryOnly = true) :
    r.expression.ClosedBySlash ∧ r.contentsOnly = false := by
  obtain ⟨hslashes, expression, hexpression, -, rfl⟩ := Rule.ofLine_eq_ok_iff.mp hr
  obtain ⟨segments, hread, rfl⟩ := Expression.ofLine?_eq_some hexpression
  have hends : Text.endsWith (bodyOf line) ['/'] = true := hdirectory
  have hlast := Pattern.getLast?_segmentTexts_of_endsWith hslashes hends
  have hclosed := (Pattern.endWithStars_of_readSegments hread hlast).closedBySlash
  rw [← hends] at hclosed
  exact ⟨hclosed, Pattern.endsWith_contents_eq_false hends⟩

theorem Rule.isMatch_ofNames (r : Rule) (names : List String) (isDir : Bool) :
    r.isMatch (Key.ofNames names isDir).text false =
      r.matchesText (Key.ofNames names isDir).chars := by
  rw [Rule.isMatch, Key.text, String.toList_ofList]
  rfl

/-- The key of a directory ends with a slash already. -/
theorem Rule.isMatch_ofNames_true (r : Rule) (names : List String) :
    r.isMatch (Key.ofNames names true).text true =
      r.matchesText (Key.ofNames names true).chars := by
  have hslash : Text.endsWith (Key.ofNames names true).chars ['/'] = true := by
    rw [Text.endsWith_singleton, Key.ofNames, if_pos rfl, List.getLast?_concat]
  rw [Rule.isMatch, Key.text, String.toList_ofList, Rule.asDirectory, hslash]
  rfl

/-- A rule that is not about the contents of a directory matches where its expression is found. -/
theorem Rule.matchesText_iff_isFound {cs : List Char} (hcontents : r.contentsOnly = false) :
    r.matchesText cs = true ↔ r.expression.isFound r.ignoreCase cs = true := by
  refine ⟨Rule.isFound_of_matchesText, Rule.matchesText_of_isFound fun hkeeps => ?_⟩
  rw [hcontents] at hkeeps
  cases hkeeps

/-- A slash in a key stands behind the names of a directory that the path starts with, and behind it
the other names follow. -/
theorem Key.exists_take_of_chars_eq (hnames : ∀ n ∈ names, '/' ∉ n.toList) (hne : names ≠ [])
    {isDir : Bool} {before rest : List Char}
    (h : (ofNames names isDir).chars = before ++ '/' :: rest) :
    ∃ i, 1 ≤ i ∧ i ≤ names.length ∧ (ofNames (names.take i) true).chars = before ++ ['/'] ∧
      (i < names.length ∨ isDir = true) ∧
      rest = Pattern.textFrom ((names.drop i).map String.toList) isDir := by
  have hcomponents : ∀ c ∈ names.map String.toList, '/' ∉ c := by
    simpa using hnames
  rw [ofNames_chars hne] at h
  obtain ⟨above, below, heq, habove, rfl, hbelow⟩ :=
    Pattern.exists_append_of_textFrom_eq hcomponents h
  obtain ⟨hmore, rfl⟩ := Pattern.behind_eq_cons_iff.mp hbelow.symm
  obtain ⟨first, others, rfl, rfl, rfl⟩ := List.map_eq_append_iff.mp heq
  have hfirst : first ≠ [] := by simpa using habove
  refine ⟨first.length, List.length_pos_iff.mpr hfirst, by simp, ?_, ?_, ?_⟩
  · rw [List.take_left, ofNames_chars hfirst, Pattern.textFrom_true habove]
  · refine hmore.imp_left fun hothers => ?_
    have := List.length_pos_iff.mpr hothers
    rw [List.length_map] at this
    rw [List.length_append]
    omega
  · rw [List.drop_left]

/-- Behind the names of a directory on it the key of a path has a slash. -/
theorem Key.ofNames_eq_append_slash {i : Nat} (hpos : 1 ≤ i) (hi : i < names.length)
    (isDir : Bool) :
    (ofNames names isDir).chars =
      ("/".intercalate (names.take i)).toList ++ '/' :: (ofNames (names.drop i) isDir).chars := by
  rw [ofNames_take_append_drop hpos hi, ofNames, if_pos rfl, List.append_assoc,
    List.singleton_append]

/-- An expression that is closed by a slash, and found in the key of a directory, is found in the
keys of all that is below the directory. -/
theorem isFound_ofNames_of_take {e : Expression} (h : e.ClosedBySlash) {i : Nat} (hpos : 1 ≤ i)
    (hi : i < names.length)
    (hfound : e.isFound ignoreCase (Key.ofNames (names.take i) true).chars = true)
    (isDir : Bool) : e.isFound ignoreCase (Key.ofNames names isDir).chars = true := by
  rw [Pattern.isFound_iff_exists_slash h]
  exact ⟨_, _, Key.ofNames_eq_append_slash hpos hi isDir, hfound⟩

/-- The rule matches a directory above the path. -/
def Rule.MatchesAbove (r : Rule) (names : List String) : Prop :=
  ∃ i, 1 ≤ i ∧ i < names.length ∧ r.isMatch (Key.ofNames (names.take i) true).text true = true

/-- A rule about directories only matches a file exactly if it matches a directory above the file. A
file at the top it never matches. -/
theorem isMatch_file_iff_matchesAbove (hr : Rule.ofLine ignoreCase line = .ok r)
    (hdirectory : r.directoryOnly = true) :
    (∀ names : List String, names ≠ [] → (∀ n ∈ names, '/' ∉ n.toList) →
      (r.isMatch (Key.ofNames names false).text false = true ↔ r.MatchesAbove names)) ∧
      ∀ name : String, '/' ∉ name.toList →
        r.isMatch (Key.ofNames [name] false).text false = false := by
  obtain ⟨hclosed, hcontents⟩ := Rule.closedBySlash_of_directoryOnly hr hdirectory
  have hfile : ∀ names : List String, names ≠ [] → (∀ n ∈ names, '/' ∉ n.toList) →
      (r.isMatch (Key.ofNames names false).text false = true ↔ r.MatchesAbove names) := by
    intro names hne hnames
    simp only [Rule.MatchesAbove, Rule.isMatch_ofNames, Rule.isMatch_ofNames_true,
      Rule.matchesText_iff_isFound hcontents]
    constructor
    · intro hfound
      obtain ⟨before, rest, hchars, hbefore⟩ :=
        (Pattern.isFound_iff_exists_slash hclosed).mp hfound
      obtain ⟨i, hpos, -, hkey, hi, -⟩ := Key.exists_take_of_chars_eq hnames hne hchars
      exact ⟨i, hpos, hi.resolve_right Bool.false_ne_true, hkey ▸ hbefore⟩
    · rintro ⟨i, hpos, hi, hfound⟩
      exact isFound_ofNames_of_take hclosed hpos hi hfound false
  refine ⟨hfile, fun name hname => ?_⟩
  rw [Bool.eq_false_iff]
  intro hmatch
  have hnames : ∀ n ∈ [name], '/' ∉ n.toList := by simpa using hname
  obtain ⟨i, hpos, hi, -⟩ := (hfile [name] (List.cons_ne_nil name []) hnames).mp hmatch
  have hone : i < 1 := hi
  omega

/-- The rule `src/[!a]*/` matches a file in the directory `src/bin`, which it matches, and no file
named `src`. -/
theorem isMatch_file_in_bin :
    ∃ r, Rule.ofLine true "src/[!a]*/" = .ok r ∧ r.directoryOnly = true ∧
      r.isMatch (Key.ofNames ["src", "bin"] true).text true = true ∧
      r.isMatch (Key.ofNames ["src", "bin", "main.c"] false).text false = true ∧
      r.isMatch (Key.ofNames ["src"] false).text false = false := by
  have hr : Rule.ofLine true "src/[!a]*/" = .ok {
      source := "src/[!a]*/"
      negative := false
      directoryOnly := true
      anchored := true
      contentsOnly := false
      ignoreCase := true
      expression := .ofSegments true
        [.glob [.literal 's', .literal 'r', .literal 'c'], .glob [.bracket ⟨true, ['a']⟩, .run],
          .directories] } := by
    decide +kernel
  refine ⟨_, hr, rfl, by decide +kernel, ?_, ?_⟩
  · have hfile := (isMatch_file_iff_matchesAbove hr rfl).1 ["src", "bin", "main.c"]
    exact (hfile (by decide) (by decide)).mpr ⟨2, by decide, by decide, by decide +kernel⟩
  · exact (isMatch_file_iff_matchesAbove hr rfl).2 "src" (by decide)

end

end SourceSnapshot.Ignore
