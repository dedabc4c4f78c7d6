import SourceSnapshot.Ignore.Rule
import SourceSnapshot.Proofs.Ignore.Lineage
import SourceSnapshot.Proofs.Pattern.Lines

/-!
# What a rule matches

The rule of a line is made from its body: the line without byte order marks, exclamation mark and
trailing blanks. It matches the path of a file or directory if the segments of the body match, in
full, the components of that path or of a directory above it.
-/

namespace SourceSnapshot

open Pattern

namespace Pattern

/-- An exclamation mark stays in front if trailing blanks are dropped. -/
theorem withoutTrailingBlanks_bang (cs : List Char) :
    withoutTrailingBlanks ('!' :: cs) = '!' :: withoutTrailingBlanks cs := by
  have hends : Text.endsWith ('!' :: cs) ['\\', ' '] = Text.endsWith cs ['\\', ' '] := by
    rw [Bool.eq_iff_iff, Text.endsWith, Text.endsWith, List.isSuffixOf_iff_suffix,
      List.isSuffixOf_iff_suffix, List.suffix_cons_iff]
    refine ⟨fun h => h.resolve_left fun heq => ?_, Or.inr⟩
    exact absurd (List.cons.inj heq).1 (by decide)
  rw [withoutTrailingBlanks, withoutTrailingBlanks, hends,
    Text.dropTrailing_cons_of_eq_false (by decide)]
  split
  · rfl
  · rfl

theorem withoutTrailingBlanks_prefix (cs : List Char) : withoutTrailingBlanks cs <+: cs := by
  rw [withoutTrailingBlanks]
  split
  · exact List.prefix_refl cs
  · exact Text.dropTrailing_prefix _ cs

/-- A text that does not start with an exclamation mark is not negated. -/
theorem splitNegation_of_head?_ne {cs : List Char} (h : cs.head? ≠ some '!') :
    splitNegation cs = (false, cs) := by
  rw [splitNegation.eq_def]
  split
  · exact absurd rfl h
  · rfl

/-- It does not matter whether the exclamation mark or the trailing blanks are dropped first. -/
theorem splitNegation_withoutTrailingBlanks (cs : List Char) :
    (splitNegation (withoutTrailingBlanks cs)).2 = Ignore.Rule.body cs := by
  rw [Ignore.Rule.body]
  by_cases hbang : cs.head? = some '!'
  · obtain ⟨rest, rfl⟩ := List.head?_eq_some_iff.mp hbang
    rw [withoutTrailingBlanks_bang, splitNegation, splitNegation]
  · have hhead : (withoutTrailingBlanks cs).head? ≠ some '!' := by
      intro h
      obtain ⟨rest, hrest⟩ := List.head?_eq_some_iff.mp h
      obtain ⟨behind, heq⟩ := withoutTrailingBlanks_prefix cs
      rw [hrest, List.cons_append] at heq
      exact hbang (heq ▸ rfl)
    rw [splitNegation_of_head?_ne hhead, splitNegation_of_head?_ne hbang]

/-- A line with an expression has segments that can be read. -/
theorem Expression.ofLine?_eq_some {text : List Char} {e : Expression}
    (h : Expression.ofLine? (String.ofList text) = .ok (some e)) :
    ∃ segments, readSegments (segmentTexts (Ignore.Rule.body text)) = .ok segments ∧
      e = .ofSegments (Text.endsWith (Ignore.Rule.body text) ['/']) segments := by
  rw [← splitNegation_withoutTrailingBlanks]
  simp only [Expression.ofLine?, String.toList_ofList] at h
  split at h
  · cases h
  · split at h
    · cases h
    · split at h
      · rename_i segments hread
        exact ⟨segments, hread, (Option.some.inj (Except.ok.inj h)).symm⟩
      · cases h
      · cases h

/-- A text that ends with a slash has no trailing blanks. -/
theorem withoutTrailingBlanks_append_slash (cs : List Char) :
    withoutTrailingBlanks (cs ++ ['/']) = cs ++ ['/'] := by
  rw [withoutTrailingBlanks]
  split
  · rfl
  · refine Text.dropTrailing_eq_self fun c hc => ?_
    rw [List.getLast?_concat] at hc
    obtain rfl := Option.some.inj hc
    decide

/-- A line that is no comment, and of whose pattern segments can be read, has their expression. -/
theorem Expression.ofLine?_of_readSegments {text : List Char} (hhash : text.head? ≠ some '#')
    (hslashes : (Ignore.Rule.body text).all (· == '/') = false) {segments : List Segment}
    (hread : readSegments (segmentTexts (Ignore.Rule.body text)) = .ok segments) :
    Expression.ofLine? (String.ofList text) =
      .ok (some (.ofSegments (Text.endsWith (Ignore.Rule.body text) ['/']) segments)) := by
  have hbody := splitNegation_withoutTrailingBlanks text
  have hsome : withoutTrailingBlanks text ≠ [] := by
    intro hnil
    rw [hnil] at hbody
    rw [← hbody] at hslashes
    cases hslashes
  have hmore : withoutTrailingBlanks text ≠ ['/'] := by
    intro hslash
    rw [hslash] at hbody
    rw [← hbody] at hslashes
    cases hslashes
  have hhead : (withoutTrailingBlanks text).head? ≠ some '#' := by
    intro hcomment
    obtain ⟨behind, heq⟩ := withoutTrailingBlanks_prefix text
    rw [← heq, List.head?_append, hcomment, Option.some_or] at hhash
    exact absurd rfl hhash
  have htexts := segmentTexts_ne_nil hslashes
  simp only [Expression.ofLine?, String.toList_ofList, hbody, hread]
  rw [if_neg (by simp [hsome, hmore, hhead])]

end Pattern

namespace Ignore

/-- What the line of a rule says behind byte order marks and its exclamation mark, and without
trailing blanks. -/
def bodyOf (line : String) : List Char :=
  Rule.body (line.toList.dropWhile (· == Rule.byteOrderMark))

/-- A line is a rule if its body is not made of slashes alone and it has an expression without a
reversed range. -/
theorem Rule.ofLine_eq_ok_iff {ignoreCase : Bool} {line : String} {r : Rule} :
    Rule.ofLine ignoreCase line = .ok r ↔ (bodyOf line).all (· == '/') = false ∧
      ∃ expression, Expression.ofLine?
          (String.ofList (line.toList.dropWhile (· == byteOrderMark))) = .ok (some expression) ∧
        expression.reversedRange? = none ∧
        r = {
          source := line
          negative := (splitNegation (line.toList.dropWhile (· == byteOrderMark))).1
          directoryOnly := Text.endsWith (bodyOf line) ['/']
          anchored := (bodyOf line).dropLast.contains '/'
          contentsOnly := Text.endsWith (bodyOf line) ['/', '*', '*']
          ignoreCase := ignoreCase
          expression := expression } := by
  constructor
  · intro h
    simp only [Rule.ofLine] at h
    split at h
    · cases h
    · rename_i hslashes
      split at h
      · cases h
      · cases h
      · rename_i expression hline
        split at h
        · cases h
        · rename_i hranges
          exact ⟨Bool.eq_false_iff.mpr hslashes, expression, hline, hranges,
            (Except.ok.inj h).symm⟩
  · rintro ⟨hslashes, expression, hline, hranges, rfl⟩
    rw [bodyOf] at hslashes
    simp only [Rule.ofLine, hline, hranges]
    exact if_neg (Bool.eq_false_iff.mp hslashes)

/-- The rule of a line comes from its body, which is not made of slashes alone and has segments that
can be read. -/
theorem Rule.ofLine_eq_ok {ignoreCase : Bool} {line : String} {r : Rule}
    (h : Rule.ofLine ignoreCase line = .ok r) :
    (bodyOf line).all (· == '/') = false ∧ r.ignoreCase = ignoreCase ∧
      r.contentsOnly = Text.endsWith (bodyOf line) ['/', '*', '*'] ∧
      ∃ segments, readSegments (segmentTexts (bodyOf line)) = .ok segments ∧
        r.expression = .ofSegments (Text.endsWith (bodyOf line) ['/']) segments := by
  obtain ⟨hslashes, expression, hline, -, rfl⟩ := Rule.ofLine_eq_ok_iff.mp h
  obtain ⟨segments, hread, rfl⟩ := Expression.ofLine?_eq_some hline
  exact ⟨hslashes, rfl, rfl, segments, hread, rfl⟩

/-- A name with neither a slash nor a line break in it. -/
def IsPlainName (name : String) : Prop := name ≠ "" ∧ '/' ∉ name.toList ∧ '\n' ∉ name.toList

instance : DecidablePred IsPlainName := fun name =>
  inferInstanceAs (Decidable (name ≠ "" ∧ '/' ∉ name.toList ∧ '\n' ∉ name.toList))

/-- The text of a key that is made of names has these names as its components. -/
theorem Key.ofNames_chars {names : List String} (hne : names ≠ []) (isDir : Bool) :
    (Key.ofNames names isDir).chars = textFrom (names.map String.toList) isDir := by
  obtain ⟨first, rest, rfl⟩ := List.exists_cons_of_ne_nil hne
  rw [Key.ofNames, List.map_cons, textFrom]
  induction rest generalizing first with
  | nil => simp [behind]
  | cons second rest ih =>
    rw [FileSystem.toList_intercalate_cons, if_neg (List.cons_ne_nil second rest), List.map_cons,
      behind_cons, textFrom, ← ih second (List.cons_ne_nil second rest)]
    simp

/-- A beginning of the components of a path is given by its length. -/
theorem matchesBeginning_iff_exists_take {ignoreCase asksDirectory isDir : Bool}
    {segments : List (List Char)} {names : List String} :
    MatchesBeginning ignoreCase asksDirectory segments (names.map String.toList) isDir ↔
      ∃ i, 1 ≤ i ∧ i ≤ names.length ∧
        (asksDirectory = true → i < names.length ∨ isDir = true) ∧
        componentsMatch ignoreCase segments ((names.take i).map String.toList) = true := by
  constructor
  · rintro ⟨before, after, hbefore, heq, hend, hmatch⟩
    have hlen : names.length = before.length + after.length := by
      rw [← List.length_map String.toList, heq, List.length_append]
    have hpos := List.length_pos_iff.mpr hbefore
    refine ⟨before.length, hpos, by omega, fun ha => (hend ha).imp_left fun hafter => ?_, ?_⟩
    · have := List.length_pos_iff.mpr hafter
      omega
    · rw [List.map_take, heq, List.take_left]
      exact hmatch
  · rintro ⟨i, hpos, hle, hend, hmatch⟩
    refine ⟨(names.take i).map String.toList, (names.drop i).map String.toList, ?_, ?_, ?_, hmatch⟩
    · intro hnil
      have hlen := congrArg List.length hnil
      rw [List.length_map, List.length_take, List.length_nil] at hlen
      omega
    · rw [← List.map_append, List.take_append_drop]
    · intro ha
      refine (hend ha).imp_left fun hlt hnil => ?_
      have hlen := congrArg List.length hnil
      rw [List.length_map, List.length_drop, List.length_nil] at hlen
      omega

/-- A rule matches the path of a file or directory exactly if the segments of its pattern match, in
full, the components of that path or of a directory above it, and only of a directory if the
pattern asks for one. -/
theorem isMatch_iff_componentsMatch {ignoreCase : Bool} {line : String} {r : Rule}
    (hr : Rule.ofLine ignoreCase line = .ok r) (hplain : IsPlain (bodyOf line))
    (hcontents : Text.endsWith (bodyOf line) ['/', '*', '*'] = false) {names : List String}
    (hnames : ∀ n ∈ names, IsPlainName n) (hne : names ≠ []) (isDir : Bool) :
    r.isMatch (Key.ofNames names isDir).text false = true ↔
      ∃ i, 1 ≤ i ∧ i ≤ names.length ∧
        (Text.endsWith (bodyOf line) ['/'] = true → i < names.length ∨ isDir = true) ∧
        componentsMatch ignoreCase (patternSegments (bodyOf line))
          ((names.take i).map String.toList) = true := by
  obtain ⟨hslashes, hcase, hkeeps, segments, hread, hexpression⟩ := Rule.ofLine_eq_ok hr
  have hcomponents : ∀ c ∈ names.map String.toList, IsComponent c := by
    intro c hc
    obtain ⟨n, hn, rfl⟩ := List.mem_map.mp hc
    obtain ⟨hempty, hslash, hline⟩ := hnames n hn
    exact ⟨fun h => hempty (String.toList_eq_nil_iff.mp h), hslash, hline⟩
  have hfound : r.isMatch (Key.ofNames names isDir).text false =
      r.expression.isFound ignoreCase (textFrom (names.map String.toList) isDir) := by
    have htext : Rule.asDirectory false (Key.ofNames names isDir).text.toList =
        textFrom (names.map String.toList) isDir := by
      rw [Key.text, String.toList_ofList, Key.ofNames_chars hne]
      rfl
    rw [Rule.isMatch, htext, Rule.matchesText, hcase, hkeeps, hcontents, Expression.isFound]
    cases r.expression.search? ignoreCase (textFrom (names.map String.toList) isDir) with
    | none => rfl
    | some rest => rfl
  rw [hfound, hexpression, isFound_ofSegments_iff hslashes hplain hcontents hread hcomponents
    (by simpa using hne), matchesBeginning_iff_exists_take]

/-- The pattern `src/**/*.c` matches a source file below `src`, but none below another directory. -/
theorem isMatch_sources :
    ∃ r, Rule.ofLine false "src/**/*.c" = .ok r ∧
      r.isMatch (Key.ofNames ["src", "a", "b", "main.c"] false).text false = true ∧
      r.isMatch (Key.ofNames ["a", "src", "main.c"] false).text false = false := by
  have hr : Rule.ofLine false "src/**/*.c" = .ok {
      source := "src/**/*.c"
      negative := false
      directoryOnly := false
      anchored := true
      contentsOnly := false
      ignoreCase := false
      expression := .ofSegments false
        [.glob [.literal 's', .literal 'r', .literal 'c'], .directories,
          .glob [.run, .literal '.', .literal 'c']] } := by
    decide +kernel
  have hplain : IsPlain (bodyOf "src/**/*.c") := by decide +kernel
  have hcontents : Text.endsWith (bodyOf "src/**/*.c") ['/', '*', '*'] = false := by decide +kernel
  have hinside : ∀ n ∈ ["src", "a", "b", "main.c"], IsPlainName n := by decide +kernel
  have houtside : ∀ n ∈ ["a", "src", "main.c"], IsPlainName n := by decide +kernel
  refine ⟨_, hr, ?_, ?_⟩
  · exact (isMatch_iff_componentsMatch hr hplain hcontents hinside (by decide) false).mpr
      ⟨4, by decide +kernel⟩
  · rw [Bool.eq_false_iff, Ne,
      isMatch_iff_componentsMatch hr hplain hcontents houtside (by decide) false]
    have hnone : ∀ i ≤ 3, componentsMatch false (patternSegments (bodyOf "src/**/*.c"))
        ((["a", "src", "main.c"].take i).map String.toList) = false := by
      decide +kernel
    rintro ⟨i, -, hi, -, hmatch⟩
    rw [hnone i hi] at hmatch
    cases hmatch

end Ignore

end SourceSnapshot
