import SourceSnapshot.Proofs.Ignore.DirectoryRules
import SourceSnapshot.Proofs.Pattern.Contents
import SourceSnapshot.Proofs.Pattern.Preference

/-!
# Rules about the contents of directories

The rule of a pattern that ends with two stars behind a slash speaks about what is in the
directories at a path. What these are is said by the rule of the line that is tied to the root and
ends with that slash. Whatever the first rule matches lies below a directory that the second one
matches. What lies below such a directory is matched as well, but for a directory whose whole path
the expression can take. A path of two stars alone stands for the root too, so its contents are
everything.
-/

namespace SourceSnapshot.Ignore

open Pattern (EndWithStars Expression IsStars Segment readSegments segmentTexts)

/-- The line of the directories at a path from the root on. -/
def directoryLine (path : List Char) : String := String.ofList (Pattern.directoryPattern path)

/-- Two rules that are made of the same segments. The first one is about the contents of
directories, and the second one about the directories themselves. -/
structure SharesSegments (r d : Rule) (segments : List Segment) : Prop where
  last : EndWithStars segments
  contents : r.contentsOnly = true
  expression : r.expression = .ofSegments false segments
  directories : d.contentsOnly = false
  directoryExpression : d.expression = .ofSegments true segments
  sameCase : d.ignoreCase = r.ignoreCase

section

variable {ignoreCase : Bool} {line : String} {r : Rule} {path : List Char}

/-- The line of directories starts with no byte order mark. -/
theorem dropWhile_directoryLine (path : List Char) :
    (directoryLine path).toList.dropWhile (· == Rule.byteOrderMark) =
      Pattern.directoryPattern path := by
  obtain ⟨inner, hinner⟩ := Pattern.exists_directoryPattern_eq path
  have hline : (directoryLine path).toList = '/' :: (inner ++ ['/']) := by
    rw [directoryLine, String.toList_ofList, hinner]
  rw [dropWhile_byteOrderMark, hline, hinner]
  rw [hline, List.head?_cons]
  decide

/-- The line of directories is its own pattern. -/
theorem bodyOf_directoryLine (path : List Char) :
    bodyOf (directoryLine path) = Pattern.directoryPattern path := by
  obtain ⟨inner, hinner⟩ := Pattern.exists_directoryPattern_eq path
  rw [bodyOf, dropWhile_directoryLine, Rule.body, hinner, Pattern.splitNegation,
    ← List.cons_append, Pattern.withoutTrailingBlanks_append_slash]
  exact fun _ h => absurd (List.cons.inj h).1 (by decide)

/-- The line of the directories at a path is a rule about them, if the segments of their contents
can be read and have no reversed range. -/
theorem exists_ofLine_directoryLine (hpath : path.all (· == '/') = false) {segments : List Segment}
    (hread : readSegments (segmentTexts (path ++ ['/', '*', '*'])) = .ok segments)
    (hranges : (Expression.ofSegments true segments).reversedRange? = none) :
    ∃ d, Rule.ofLine ignoreCase (directoryLine path) = .ok d ∧ d.contentsOnly = false ∧
      d.expression = .ofSegments true segments ∧ d.ignoreCase = ignoreCase := by
  have hne : path ≠ [] := by
    rintro rfl
    cases hpath
  have hbody := bodyOf_directoryLine path
  have hslashes : (bodyOf (directoryLine path)).all (· == '/') = false := by
    rw [hbody, Pattern.all_slash_directoryPattern, hpath]
  have hends : Text.endsWith (bodyOf (directoryLine path)) ['/'] = true := by
    rw [hbody, Text.endsWith_singleton, Pattern.directoryPattern, List.getLast?_concat]
  have hread' : readSegments (segmentTexts (bodyOf (directoryLine path))) = .ok segments := by
    rw [hbody, Pattern.segmentTexts_directoryPattern hne, ← Pattern.segmentTexts_contents, hread]
  have hhash : ((directoryLine path).toList.dropWhile (· == Rule.byteOrderMark)).head? ≠
      some '#' := by
    obtain ⟨inner, hinner⟩ := Pattern.exists_directoryPattern_eq path
    rw [dropWhile_directoryLine, hinner, List.head?_cons]
    decide
  have hexpression := Expression.ofLine?_of_readSegments hhash hslashes hread'
  rw [← bodyOf, hends] at hexpression
  exact ⟨_, Rule.ofLine_eq_ok_iff.mpr ⟨hslashes, _, hexpression, hranges, rfl⟩,
    Pattern.endsWith_contents_eq_false hends, rfl, rfl⟩

/-- Where there is a rule about the contents of the directories at a path, there is one about these
directories, and it is made of the same segments. -/
theorem exists_sharesSegments (hr : Rule.ofLine ignoreCase line = .ok r)
    (hbody : bodyOf line = path ++ ['/', '*', '*']) (hpath : path.all (· == '/') = false) :
    ∃ d segments, Rule.ofLine ignoreCase (directoryLine path) = .ok d ∧
      SharesSegments r d segments ∧ (segments = [.directories] ↔ IsStars path) := by
  obtain ⟨hslashes, expression, hexpression, hranges, rfl⟩ := Rule.ofLine_eq_ok_iff.mp hr
  obtain ⟨segments, hread, rfl⟩ := Expression.ofLine?_eq_some hexpression
  rw [← bodyOf] at hread hranges ⊢
  have hcontents : Text.endsWith (bodyOf line) ['/', '*', '*'] = true := by
    rw [hbody, Text.endsWith, List.isSuffixOf_iff_suffix]
    exact List.suffix_append path _
  have hlast := Pattern.endWithStars_of_readSegments hread
    (Pattern.getLast?_segmentTexts_of_contents hslashes hcontents)
  have hasks : Text.endsWith (bodyOf line) ['/'] = false := by
    rw [Bool.eq_false_iff]
    intro hends
    rw [Pattern.endsWith_contents_eq_false hends] at hcontents
    cases hcontents
  rw [hbody] at hread
  rw [hasks, hlast.reversedRange?_congr false true] at hranges
  obtain ⟨d, hd, hdirectories, hdirectory, hcase⟩ := exists_ofLine_directoryLine hpath hread hranges
  refine ⟨d, segments, hd, ?_, ?_⟩
  · exact ⟨hlast, hcontents, by rw [hasks], hdirectories, hdirectory, hcase⟩
  · rw [Pattern.readSegments_eq_directories_iff hread,
      Pattern.segmentTexts_contents_eq_twoStars_iff]

end

theorem exists_toList_eq_cons {n : String} (h : n ≠ "") : ∃ c cs, n.toList = c :: cs := by
  apply List.exists_cons_of_ne_nil
  intro hempty
  exact h (String.toList_eq_nil_iff.mp hempty)

/-- The key of a path of names that are not empty is not empty. -/
theorem Key.ofNames_chars_ne_nil {names : List String} (hne : names ≠ [])
    (h : ∀ n ∈ names, n ≠ "") (isDir : Bool) : (ofNames names isDir).chars ≠ [] := by
  obtain ⟨first, rest, rfl⟩ := List.exists_cons_of_ne_nil hne
  obtain ⟨c, cs, hfirst⟩ := exists_toList_eq_cons (h first List.mem_cons_self)
  rw [ofNames_chars hne, List.map_cons, Pattern.textFrom, hfirst]
  simp

section

variable {r d : Rule} {segments : List Segment} {cs : List Char}

/-- A rule about contents matches where the search finds its expression, unless the match takes in
the whole of a directory. -/
theorem Rule.matchesText_iff_search? (hcontents : r.contentsOnly = true) :
    r.matchesText cs = true ↔ ∃ rest, r.expression.search? r.ignoreCase cs = some rest ∧
      ¬(rest = [] ∧ Text.endsWith cs ['/'] = true) := by
  rw [Rule.matchesText, hcontents]
  cases r.expression.search? r.ignoreCase cs with
  | none => simp
  | some rest => simp [← Bool.not_eq_true, imp_iff_not_or]

/-- Both expressions are searched for alike. -/
theorem SharesSegments.search?_eq (h : SharesSegments r d segments)
    (hne : segments ≠ [.directories]) :
    r.expression.search? r.ignoreCase cs = d.expression.search? d.ignoreCase cs := by
  rw [h.expression, h.directoryExpression, h.sameCase]
  exact h.last.search?_congr hne false true

/-- The expression of the rule about directories is closed by a slash. -/
theorem SharesSegments.closedBySlash (h : SharesSegments r d segments) :
    d.expression.ClosedBySlash := by
  rw [h.directoryExpression]
  exact h.last.closedBySlash

variable {names : List String} {isDir : Bool}

/-- What the rule about contents matches lies below a directory that the other rule matches. -/
theorem SharesSegments.matchesAbove (h : SharesSegments r d segments)
    (hne : segments ≠ [.directories]) (hnames : ∀ n ∈ names, '/' ∉ n.toList) (hnil : names ≠ [])
    (hmatch : r.isMatch (Key.ofNames names isDir).text false = true) : d.MatchesAbove names := by
  rw [Rule.isMatch_ofNames, Rule.matchesText_iff_search? h.contents] at hmatch
  obtain ⟨rest, hsearch, hwhole⟩ := hmatch
  rw [h.search?_eq hne] at hsearch
  obtain ⟨before, hchars, hfound⟩ := Pattern.exists_of_search?_eq_some h.closedBySlash hsearch
  obtain ⟨i, hpos, hi, hkey, -, hrest⟩ := Key.exists_take_of_chars_eq hnames hnil hchars
  refine ⟨i, hpos, Nat.lt_of_le_of_ne hi fun hlength => hwhole ?_, ?_⟩
  · -- Behind the whole path there is nothing left but the end of a directory.
    rw [hlength, List.drop_length] at hrest
    obtain rfl : rest = [] := hrest
    rw [hchars, Text.endsWith_singleton, List.getLast?_concat]
    exact ⟨rfl, rfl⟩
  · rw [Rule.isMatch_ofNames_true, Rule.matchesText_iff_isFound h.directories, hkey]
    exact hfound

/-- What lies below a directory that the other rule matches is matched by the rule about contents,
unless the expression can take its whole path. -/
theorem SharesSegments.isMatch_or_takesWhole (h : SharesSegments r d segments)
    (hne : segments ≠ [.directories]) (hnames : ∀ n ∈ names, n ≠ "")
    (habove : d.MatchesAbove names) :
    r.isMatch (Key.ofNames names isDir).text false = true ∨
      d.expression.TakesWhole d.ignoreCase (Key.ofNames names isDir).chars := by
  obtain ⟨i, hpos, hi, hmatch⟩ := habove
  rw [Rule.isMatch_ofNames_true, Rule.matchesText_iff_isFound h.directories] at hmatch
  obtain ⟨rest, hsearch⟩ := Option.isSome_iff_exists.mp
    (isFound_ofNames_of_take h.closedBySlash hpos hi hmatch isDir)
  rw [Rule.isMatch_ofNames, Rule.matchesText_iff_search? h.contents, h.search?_eq hne]
  by_cases hrest : rest = []
  · right
    subst hrest
    have hdrop : names.drop i ≠ [] := by
      rw [Ne, List.drop_eq_nil_iff]
      omega
    have hbelow := Key.ofNames_chars_ne_nil hdrop
      (fun n hn => hnames n (List.mem_of_mem_drop hn)) isDir
    rw [h.directoryExpression] at hsearch ⊢
    exact h.last.takesWhole_of_search?_eq_nil hne hsearch
      (Key.ofNames_eq_append_slash hpos hi isDir) hbelow true
  · exact Or.inl ⟨rest, hsearch, fun hwhole => hrest hwhole.1⟩

/-- No two slashes stand in a row in the key of a path of names. -/
theorem Key.not_slashes_infix (hslash : ∀ n ∈ names, '/' ∉ n.toList) (hnames : ∀ n ∈ names, n ≠ "")
    (hnil : names ≠ []) : ¬['/', '/'] <:+: (ofNames names isDir).chars := by
  rintro ⟨before, after, hchars⟩
  rw [List.append_assoc] at hchars
  obtain ⟨i, -, -, -, -, hrest⟩ := exists_take_of_chars_eq hslash hnil hchars.symm
  cases hdrop : names.drop i with
  | nil =>
    rw [hdrop] at hrest
    cases hrest
  | cons n others =>
    have hn : n ∈ names := List.mem_of_mem_drop (hdrop ▸ List.mem_cons_self)
    obtain ⟨c, cs, hcs⟩ := exists_toList_eq_cons (hnames n hn)
    rw [hdrop, List.map_cons, Pattern.textFrom, hcs, List.cons_append] at hrest
    have hfirst : '/' ∈ n.toList := by
      rw [hcs, (List.cons.inj hrest).1]
      exact List.mem_cons_self
    exact hslash n hn hfirst

/-- The rule about contents matches exactly what lies below a directory that the other rule matches,
but for the directories whose whole path the expression can take. These it never matches, not even
below another such directory, for the preferred match takes the whole path. -/
theorem SharesSegments.isMatch_iff (h : SharesSegments r d segments)
    (hne : segments ≠ [.directories]) (hslash : ∀ n ∈ names, '/' ∉ n.toList)
    (hnames : ∀ n ∈ names, n ≠ "") (hnil : names ≠ []) :
    r.isMatch (Key.ofNames names isDir).text false = true ↔ d.MatchesAbove names ∧
      ¬d.expression.TakesWhole d.ignoreCase (Key.ofNames names isDir).chars := by
  constructor
  · intro hmatch
    refine ⟨h.matchesAbove hne hslash hnil hmatch, fun hwhole => ?_⟩
    rw [h.directoryExpression] at hwhole
    have hsearch := h.last.search?_eq_nil_of_takesWhole hne
      (Key.not_slashes_infix hslash hnames hnil) hwhole
    rw [← h.directoryExpression] at hsearch
    obtain ⟨before, hchars, -⟩ := Pattern.exists_of_search?_eq_some h.closedBySlash hsearch
    rw [Rule.isMatch_ofNames, Rule.matchesText_iff_search? h.contents, h.search?_eq hne] at hmatch
    obtain ⟨rest, hrest, hpart⟩ := hmatch
    obtain rfl := Option.some.inj (hsearch.symm.trans hrest)
    refine hpart ⟨rfl, ?_⟩
    rw [hchars, Text.endsWith_singleton, List.getLast?_concat]
  · rintro ⟨habove, hpart⟩
    exact (h.isMatch_or_takesWhole hne hnames habove).resolve_right hpart

/-- Below a directory `b` the rule `**/b/**` matches a file named `b` and no directory of that
name. -/
example : ((Rule.ofLine true "**/b/**").toOption.map fun r =>
    [false, true].map fun isDir => r.isMatch (Key.ofNames ["b", "x", "b"] isDir).text false) =
      some [true, false] := by
  decide +kernel

/-- The contents of two stars alone are everything. -/
theorem SharesSegments.isMatch_of_stars (h : SharesSegments r d segments)
    (hstars : segments = [.directories]) (hnames : ∀ n ∈ names, IsPlainName n)
    (hnil : names ≠ []) : r.isMatch (Key.ofNames names isDir).text false = true := by
  obtain ⟨first, rest, rfl⟩ := List.exists_cons_of_ne_nil hnil
  obtain ⟨hempty, hslash, hline⟩ := hnames first List.mem_cons_self
  obtain ⟨c, cs, hfirst⟩ := exists_toList_eq_cons hempty
  rw [hfirst, List.mem_cons, not_or] at hslash hline
  rw [Rule.isMatch_ofNames, Rule.matchesText_iff_search? h.contents, h.expression, hstars,
    Key.ofNames_chars hnil, List.map_cons, Pattern.textFrom, hfirst, List.cons_append]
  refine ⟨_, Pattern.search?_anything (Ne.symm hline.1), ?_⟩
  rintro ⟨hend, hends⟩
  rw [hend, Text.endsWith_singleton] at hends
  exact hslash.1 (Option.some.inj hends).symm

end

section

variable {ignoreCase : Bool} {line : String} {r : Rule} {path : List Char}

/-- A rule about the contents of the directories at a path, together with the rule about these
directories. Two stars alone have everything as their contents. At any other path what is matched
lies below a directory there, and what lies below one is matched, unless it is such a directory
itself. -/
theorem isMatch_contents (hr : Rule.ofLine ignoreCase line = .ok r)
    (hbody : bodyOf line = path ++ ['/', '*', '*']) (hpath : path.all (· == '/') = false) :
    ∃ d, Rule.ofLine ignoreCase (directoryLine path) = .ok d ∧
      ∀ (names : List String) (isDir : Bool), names ≠ [] → (∀ n ∈ names, IsPlainName n) →
        (IsStars path → r.isMatch (Key.ofNames names isDir).text false = true) ∧
        (¬IsStars path →
          (r.isMatch (Key.ofNames names isDir).text false = true → d.MatchesAbove names) ∧
          (d.MatchesAbove names → r.isMatch (Key.ofNames names isDir).text false = true ∨
            d.expression.TakesWhole d.ignoreCase (Key.ofNames names isDir).chars)) := by
  obtain ⟨d, segments, hd, hshares, hstars⟩ := exists_sharesSegments hr hbody hpath
  refine ⟨d, hd, fun names isDir hnil hnames => ⟨fun hpath => ?_, fun hpath => ?_⟩⟩
  · exact hshares.isMatch_of_stars (hstars.mpr hpath) hnames hnil
  · have hexact : r.isMatch (Key.ofNames names isDir).text false = true ↔ d.MatchesAbove names ∧
        ¬d.expression.TakesWhole d.ignoreCase (Key.ofNames names isDir).chars :=
      hshares.isMatch_iff (mt hstars.mp hpath) (fun n hn => (hnames n hn).2.1)
        (fun n hn => (hnames n hn).1) hnil
    exact ⟨fun hmatch => (hexact.mp hmatch).1, fun habove =>
      or_iff_not_imp_right.mpr fun hpart => hexact.mpr ⟨habove, hpart⟩⟩

/-- The rule `**/b/**` matches the file `a/b/c`, for the rule `/**/b/` matches the directory `a/b`.
That directory itself it does not match. -/
theorem isMatch_contents_of_b :
    ∃ r, Rule.ofLine true "**/b/**" = .ok r ∧
      r.isMatch (Key.ofNames ["a", "b", "c"] false).text false = true ∧
      r.isMatch (Key.ofNames ["a", "b"] true).text false = false := by
  have hr : Rule.ofLine true "**/b/**" = .ok {
      source := "**/b/**"
      negative := false
      directoryOnly := false
      anchored := true
      contentsOnly := true
      ignoreCase := true
      expression := .ofSegments false [.directories, .glob [.literal 'b'], .directories] } := by
    decide +kernel
  have hd' : Rule.ofLine true (directoryLine "**/b".toList) = .ok {
      source := "/**/b/"
      negative := false
      directoryOnly := true
      anchored := true
      contentsOnly := false
      ignoreCase := true
      expression := .ofSegments true [.directories, .glob [.literal 'b'], .directories] } := by
    decide +kernel
  have hbody : bodyOf "**/b/**" = "**/b".toList ++ ['/', '*', '*'] := by decide +kernel
  obtain ⟨d, hd, hmatch⟩ := isMatch_contents hr hbody (by decide)
  obtain rfl := Except.ok.inj (hd'.symm.trans hd)
  have hstars : ¬IsStars "**/b".toList := by decide +kernel
  refine ⟨_, hr, ?_, ?_⟩
  · have hinside := (hmatch ["a", "b", "c"] false (by decide) (by decide)).2 hstars
    refine (hinside.2 ⟨2, by decide, by decide, by decide +kernel⟩).resolve_right ?_
    decide +kernel
  · have htop := (hmatch ["a", "b"] true (by decide) (by decide)).2 hstars
    rw [Bool.eq_false_iff]
    intro hb
    obtain ⟨i, hpos, hi, habove⟩ := htop.1 hb
    obtain rfl : i = 1 := Nat.le_antisymm (Nat.le_of_lt_succ hi) hpos
    exact absurd habove (by decide +kernel)

/-- The rule `**/**` matches the file `a`, and above it there is no directory at all. -/
theorem isMatch_stars_at_top :
    ∃ r d, Rule.ofLine true "**/**" = .ok r ∧ r.negative = false ∧
      bodyOf "**/**" = "**".toList ++ ['/', '*', '*'] ∧ ("**".toList).all (· == '/') = false ∧
      Rule.ofLine true (directoryLine "**".toList) = .ok d ∧
      r.isMatch (Key.ofNames ["a"] false).text false = true ∧ ¬d.MatchesAbove ["a"] := by
  have hr : Rule.ofLine true "**/**" = .ok {
      source := "**/**"
      negative := false
      directoryOnly := false
      anchored := true
      contentsOnly := true
      ignoreCase := true
      expression := .anywhere .anything } := by
    decide +kernel
  have hd : Rule.ofLine true (directoryLine "**".toList) = .ok {
      source := "/**/"
      negative := false
      directoryOnly := true
      anchored := true
      contentsOnly := false
      ignoreCase := true
      expression := .anywhere .directoryMark } := by
    decide +kernel
  refine ⟨_, _, hr, rfl, by decide +kernel, by decide, hd, by decide +kernel, ?_⟩
  rintro ⟨i, hpos, hi, -⟩
  have hone : i < 1 := hi
  omega

end

end SourceSnapshot.Ignore
