import SourceSnapshot.Proofs.Ignore.Acceptance
import SourceSnapshot.Proofs.Ignore.DirectoryRules
import SourceSnapshot.Proofs.Pattern.LastSegment

/-!
# Spaces behind a rule

Spaces at the end of a line say nothing, as long as the line without them does not end in a
backslash. There it only counts whether the last two characters are a backslash and a space: a
single space stays, also behind a backslash that is escaped, and with more blanks behind it an
escaped space is lost. So a space that is put behind such a line changes which paths are matched, or
makes it no rule at all.
-/

namespace SourceSnapshot.Ignore

open Pattern

namespace Rule

/-- Rules that are alike in all but the lines they come from. -/
structure SaysSame (r s : Rule) : Prop where
  negative : r.negative = s.negative
  directoryOnly : r.directoryOnly = s.directoryOnly
  anchored : r.anchored = s.anchored
  contentsOnly : r.contentsOnly = s.contentsOnly
  isMatch : ∀ path isDir, r.isMatch path isDir = s.isMatch path isDir

/-- A rule that matches no path at all. -/
def MatchesNothing (r : Rule) : Prop := ∀ path isDir, r.isMatch path isDir = false

section

variable {ignoreCase : Bool} {line other : String} {r s : Rule}

theorem SaysSame.symm (h : r.SaysSame s) : s.SaysSame r :=
  ⟨h.negative.symm, h.directoryOnly.symm, h.anchored.symm, h.contentsOnly.symm,
    fun path isDir => (h.isMatch path isDir).symm⟩

/-- A property of all paths is one of all texts, for each text is that of a file's path. -/
theorem forall_asDirectory_iff {p : List Char → Prop} :
    (∀ (path : String) isDir, p (asDirectory isDir path.toList)) ↔ ∀ cs, p cs := by
  constructor
  · intro h cs
    simpa [asDirectory] using h (String.ofList cs) false
  · exact fun h path isDir => h _

/-- What a rule says is what its line says without trailing blanks. -/
theorem exists_eq_of_ofLine {cs : List Char} (h : Rule.ofLine ignoreCase line = .ok r)
    (hcs : withoutTrailingBlanks (textOf line) = cs) :
    ∃ segments, readSegments (segmentTexts (splitNegation cs).2) = .ok segments ∧
      r = {
        source := line
        negative := (splitNegation cs).1
        directoryOnly := Text.endsWith (splitNegation cs).2 ['/']
        anchored := (splitNegation cs).2.dropLast.contains '/'
        contentsOnly := Text.endsWith (splitNegation cs).2 ['/', '*', '*']
        ignoreCase := ignoreCase
        expression := .ofSegments (Text.endsWith (splitNegation cs).2 ['/']) segments } := by
  have hbody : bodyOf line = (splitNegation cs).2 := by
    rw [← hcs, splitNegation_withoutTrailingBlanks]
    rfl
  have hnegative : (splitNegation (textOf line)).1 = (splitNegation cs).1 := by
    rw [← hcs, splitNegation_fst_withoutTrailingBlanks]
  obtain ⟨-, expression, hline, -, rfl⟩ := Rule.ofLine_eq_ok_iff.mp h
  obtain ⟨segments, hread, rfl⟩ := Expression.ofLine?_eq_some hline
  rw [← hbody, ← hnegative]
  exact ⟨segments, hread, rfl⟩

/-- Lines that only differ in trailing blanks that are dropped say the same. -/
theorem saysSame_of_eq (hr : Rule.ofLine ignoreCase line = .ok r)
    (hs : Rule.ofLine ignoreCase other = .ok s)
    (h : withoutTrailingBlanks (textOf line) = withoutTrailingBlanks (textOf other)) :
    r.SaysSame s := by
  obtain ⟨segments, hread, rfl⟩ := exists_eq_of_ofLine hr h
  obtain ⟨segments', hread', rfl⟩ := exists_eq_of_ofLine hs rfl
  obtain rfl : segments = segments' := Except.ok.inj (hread.symm.trans hread')
  exact ⟨rfl, rfl, rfl, rfl, fun path isDir => rfl⟩

/-- The rules of two lines of which one has one more space, behind a backslash, are alike but for
the ends of their expressions. -/
theorem exists_front_of_space {before : List Char} (hr : Rule.ofLine ignoreCase line = .ok r)
    (hs : Rule.ofLine ignoreCase other = .ok s)
    (hline : withoutTrailingBlanks (textOf line) = before ++ ['\\'])
    (hother : withoutTrailingBlanks (textOf other) = before ++ ['\\', ' ']) :
    (s.SaysSame r ↔ ∀ cs, s.matchesText cs = r.matchesText cs) ∧
      ∃ front, .ending ∉ front ∧
        (∀ cs, r.matchesText cs = true ↔ Fits ignoreCase (front ++ [.ending]) cs) ∧
        ∀ cs, s.matchesText cs = true ↔ Fits ignoreCase (front ++ [.literal ' ', .ending]) cs := by
  obtain ⟨segments, hread, rfl⟩ := exists_eq_of_ofLine hr hline
  obtain ⟨spaced, hspaced, rfl⟩ := exists_eq_of_ofLine hs hother
  have hsplit := splitNegation_append_cons (show '\\' ≠ '!' by decide) before
  have hslash : Text.endsWith ((splitNegation before).2 ++ ['\\']) ['/'] = false :=
    Text.endsWith_eq_false (by simp) (by simp)
  have hslash' : Text.endsWith ((splitNegation before).2 ++ ['\\', ' ']) ['/'] = false :=
    Text.endsWith_eq_false (by simp) (by simp)
  have hstars : Text.endsWith ((splitNegation before).2 ++ ['\\']) ['/', '*', '*'] = false :=
    Text.endsWith_eq_false (by simp) (by simp)
  have hstars' :
      Text.endsWith ((splitNegation before).2 ++ ['\\', ' ']) ['/', '*', '*'] = false :=
    Text.endsWith_eq_false (by simp) (by simp)
  rw [hsplit] at hread hspaced
  obtain ⟨front, hfront, hexpression, hexpression'⟩ :=
    exists_ofSegments_append_space false hread hspaced
  simp only [hsplit, hslash, hslash', hstars, hstars', hexpression, hexpression']
  refine ⟨⟨fun h => forall_asDirectory_iff.mp h.isMatch, fun h => ?_⟩, front, hfront, ?_, ?_⟩
  · refine ⟨rfl, rfl, ?_, rfl, forall_asDirectory_iff.mpr h⟩
    simp
  · intro cs
    exact matchesText_iff_isFound rfl
  · intro cs
    exact matchesText_iff_isFound rfl

/-- Rules that differ in a space behind an escaped backslash say the same only if neither matches
anything. -/
theorem saysSame_space_iff {before : List Char} (hr : Rule.ofLine ignoreCase line = .ok r)
    (hs : Rule.ofLine ignoreCase other = .ok s)
    (hline : withoutTrailingBlanks (textOf line) = before ++ ['\\'])
    (hother : withoutTrailingBlanks (textOf other) = before ++ ['\\', ' ']) :
    (s.SaysSame r ↔ r.MatchesNothing) ∧ (s.SaysSame r ↔ s.MatchesNothing) := by
  obtain ⟨hsame, front, hfront, hfits, hfits'⟩ := exists_front_of_space hr hs hline hother
  have hnothing : ∀ {r : Rule} {more : List Piece},
      (∀ cs, r.matchesText cs = true ↔ Fits ignoreCase (front ++ more) cs) →
        ((∃ cs, Fits ignoreCase (front ++ more) cs) ↔
          ∃ taken, [] ∈ remaindersOf ignoreCase front taken) →
        (r.MatchesNothing ↔ ∀ taken, [] ∉ remaindersOf ignoreCase front taken) := by
    intro r more hfits htaken
    rw [← not_exists, ← htaken, not_exists]
    simp only [← hfits, Bool.not_eq_true]
    exact forall_asDirectory_iff (p := fun cs => r.matchesText cs = false)
  have hr' := hnothing hfits (exists_fits_ending_iff hfront)
  have hs' := hnothing hfits' (exists_fits_space_iff hfront)
  have hcongr : s.SaysSame r ↔ ∀ taken, [] ∉ remaindersOf ignoreCase front taken := by
    rw [hsame, ← fits_space_congr_iff hfront]
    simp only [Bool.eq_iff_iff, hfits, hfits']
  exact ⟨hcongr.trans hr'.symm, hcongr.trans hs'.symm⟩

/-- A line that only differs from that of a rule in trailing blanks that are dropped is a rule that
says the same. -/
theorem exists_saysSame_of_eq (hr : Rule.ofLine ignoreCase line = .ok r)
    (h : withoutTrailingBlanks (textOf line) = withoutTrailingBlanks (textOf other)) :
    ∃ s, Rule.ofLine ignoreCase other = .ok s ∧ s.SaysSame r := by
  have hrule := Rule.exists_ofLine_eq_ok_iff.mp ⟨r, hr⟩
  rw [h] at hrule
  obtain ⟨s, hs⟩ := Rule.exists_ofLine_eq_ok_iff.mpr hrule
  exact ⟨s, hs, (saysSame_of_eq hr hs h).symm⟩

section

variable {before : List Char}

/-- With a space more behind a backslash there still is a rule. -/
theorem exists_saysSame_with_space_iff (hr : Rule.ofLine ignoreCase line = .ok r)
    (hline : withoutTrailingBlanks (textOf line) = before ++ ['\\'])
    (hother : withoutTrailingBlanks (textOf other) = before ++ ['\\', ' ']) :
    (∃ s, Rule.ofLine ignoreCase other = .ok s ∧ s.SaysSame r) ↔ r.MatchesNothing := by
  have hrule := Rule.exists_ofLine_eq_ok_iff.mp ⟨r, hr⟩
  rw [hline] at hrule
  have hescape : Text.endsInOpenEscape before = true := by
    simpa using hrule.endsInOpenEscape_eq_false
  rw [← isRuleText_append_space_iff hescape, ← hother] at hrule
  obtain ⟨s, hs⟩ := Rule.exists_ofLine_eq_ok_iff.mpr hrule
  have hsame := (saysSame_space_iff hr hs hline hother).1
  simp [hs, hsame]

/-- With a space less behind a backslash there is a rule if the space is not escaped. -/
theorem exists_saysSame_without_space_iff (hr : Rule.ofLine ignoreCase line = .ok r)
    (hline : withoutTrailingBlanks (textOf line) = before ++ ['\\', ' '])
    (hother : withoutTrailingBlanks (textOf other) = before ++ ['\\']) :
    (∃ s, Rule.ofLine ignoreCase other = .ok s ∧ s.SaysSame r) ↔
      Text.endsInOpenEscape (before ++ ['\\']) = false ∧ r.MatchesNothing := by
  have hrule := Rule.exists_ofLine_eq_ok_iff.mp ⟨r, hr⟩
  rw [hline] at hrule
  cases hescape : Text.endsInOpenEscape before with
  | true =>
    rw [isRuleText_append_space_iff hescape, ← hother] at hrule
    obtain ⟨s, hs⟩ := Rule.exists_ofLine_eq_ok_iff.mpr hrule
    have hsame := (saysSame_space_iff hs hr hother hline).2
    have hsymm : s.SaysSame r ↔ r.SaysSame s := ⟨SaysSame.symm, SaysSame.symm⟩
    simp [hs, hescape, hsymm, hsame]
  | false =>
    refine iff_of_false ?_ (by simp [hescape])
    rintro ⟨s, hs, -⟩
    have hother' := Rule.exists_ofLine_eq_ok_iff.mp ⟨s, hs⟩
    rw [hother] at hother'
    simpa [hescape] using hother'.endsInOpenEscape_eq_false

end

end

end Rule

/-- Whether spaces behind a text matter, as far as the last two characters tell: a backslash and a
space, with more of them behind it, or a backslash with a single space behind it. -/
def SpacesMatter (cs : List Char) (count : Nat) : Prop :=
  Text.endsWith cs ['\\', ' '] = true ∨ (cs.getLast? = some '\\' ∧ count = 1)

instance (cs : List Char) (count : Nat) : Decidable (SpacesMatter cs count) :=
  inferInstanceAs (Decidable (_ ∨ _ ∧ _))

section

variable {cs : List Char} {count : Nat}

theorem isBlank_of_mem_replicate : ∀ c ∈ List.replicate count ' ', Text.isBlank c = true := by
  intro c hc
  rw [List.eq_of_mem_replicate hc]
  decide

/-- Spaces that do not matter are dropped with the other trailing blanks. -/
theorem withoutTrailingBlanks_append_spaces (h : ¬SpacesMatter cs count) (hpos : 0 < count) :
    withoutTrailingBlanks (cs ++ List.replicate count ' ') = withoutTrailingBlanks cs := by
  obtain ⟨bare, blanks, rfl, hblanks, hbare⟩ := Text.exists_append_blanks cs
  rw [SpacesMatter, not_or] at h
  obtain ⟨hspace, hbackslash⟩ := h
  rw [Text.endsWith_backslash_space_iff hblanks hbare] at hspace
  rw [withoutTrailingBlanks_of_not_space hblanks hbare hspace, List.append_assoc]
  refine withoutTrailingBlanks_of_not_space ?_ hbare ?_
  · exact List.forall_mem_append.mpr ⟨hblanks, isBlank_of_mem_replicate⟩
  · -- Of all the blanks one alone is left only if it is put there.
    rintro ⟨heq, hlast⟩
    have hlen := congrArg List.length heq
    simp only [List.length_append, List.length_replicate, List.length_singleton] at hlen
    obtain rfl := List.length_eq_zero_iff.mp (show blanks.length = 0 by omega)
    exact hbackslash ⟨by simpa using hlast, by omega⟩

/-- Spaces that matter bring a single space behind a backslash, or take it away. -/
theorem SpacesMatter.exists_eq_append (h : SpacesMatter cs count) (hpos : 0 < count) :
    ∃ before,
      (withoutTrailingBlanks cs = before ++ ['\\'] ∧
        withoutTrailingBlanks (cs ++ List.replicate count ' ') = before ++ ['\\', ' '] ∧
        Text.endsInEscapedBlank cs = false) ∨
      (withoutTrailingBlanks cs = before ++ ['\\', ' '] ∧
        withoutTrailingBlanks (cs ++ List.replicate count ' ') = before ++ ['\\'] ∧
        Text.endsInEscapedBlank cs = Text.endsInOpenEscape (before ++ ['\\'])) := by
  have hbare : ∀ before : List Char, ∀ c, (before ++ ['\\']).getLast? = some c →
      Text.isBlank c = false :=
    fun before => Text.isBlank_eq_false_of_backslash (by simp)
  have hspace : ∀ before : List Char,
      withoutTrailingBlanks (before ++ ['\\', ' ']) = before ++ ['\\', ' '] := by
    intro before
    rw [withoutTrailingBlanks, if_pos]
    exact List.isSuffixOf_iff_suffix.mpr (List.suffix_append before _)
  rcases h with hends | ⟨hlast, rfl⟩
  · obtain ⟨before, rfl⟩ := List.isSuffixOf_iff_suffix.mp hends
    refine ⟨before, Or.inr ⟨hspace before, ?_, ?_⟩⟩
    · rw [List.append_cons before '\\' [' '], List.append_assoc]
      refine withoutTrailingBlanks_of_not_space ?_ (hbare before) ?_
      · exact List.forall_mem_cons.mpr ⟨by decide, isBlank_of_mem_replicate⟩
      · rintro ⟨heq, -⟩
        have hlen := congrArg List.length heq
        simp at hlen
        omega
    · rw [List.append_cons before '\\' [' '], Text.endsInEscapedBlank_concat]
      rfl
  · obtain ⟨before, rfl⟩ := List.getLast?_eq_some_iff.mp hlast
    refine ⟨before, Or.inl ⟨?_, by simpa using hspace before, ?_⟩⟩
    · have hnil : ∀ c ∈ [], Text.isBlank c = true := by simp
      simpa using withoutTrailingBlanks_of_not_space hnil (hbare before)
    · rw [Text.endsInEscapedBlank_concat]
      rfl

end

section

variable {ignoreCase : Bool} {line : String} {r : Rule}

theorem textOf_ne_nil (hr : Rule.ofLine ignoreCase line = .ok r) : textOf line ≠ [] := by
  intro hnil
  have hslashes := (Rule.exists_ofLine_eq_ok_iff.mp ⟨r, hr⟩).notSlashes
  rw [hnil] at hslashes
  cases hslashes

/-- Spaces behind a line that is not empty belong to its text. -/
theorem textOf_append_spaces (hne : textOf line ≠ []) (count : Nat) :
    textOf (line ++ String.ofList (List.replicate count ' ')) =
      textOf line ++ List.replicate count ' ' := by
  have hempty : (textOf line).isEmpty = false := by simpa using hne
  rw [textOf] at hempty
  simp [textOf, List.dropWhile_append, hempty]

/-- Spaces behind the line of a rule say nothing, unless the line ends in a backslash with one space
put behind it, or in a backslash and a space. In these cases the rule with the spaces says the same
only if the space of the line is not escaped and the rule matches nothing at all. -/
theorem Rule.saysSame_append_spaces_iff (hr : Rule.ofLine ignoreCase line = .ok r) {count : Nat}
    (hpos : 0 < count) :
    (∃ s, Rule.ofLine ignoreCase (line ++ String.ofList (List.replicate count ' ')) = .ok s ∧
        s.SaysSame r) ↔
      (SpacesMatter (textOf line) count →
        Text.endsInEscapedBlank (textOf line) = false ∧ r.MatchesNothing) := by
  have htext := textOf_append_spaces (textOf_ne_nil hr) count
  by_cases hmatter : SpacesMatter (textOf line) count
  · rw [imp_iff_right hmatter]
    obtain ⟨before, ⟨hline, hother, hblank⟩ | ⟨hline, hother, hblank⟩⟩ :=
      hmatter.exists_eq_append hpos
    · rw [Rule.exists_saysSame_with_space_iff hr hline (htext ▸ hother)]
      simp [hblank]
    · rw [Rule.exists_saysSame_without_space_iff hr hline (htext ▸ hother), hblank]
  · refine iff_of_true (Rule.exists_saysSame_of_eq hr ?_) fun h => absurd h hmatter
    rw [htext, withoutTrailingBlanks_append_spaces hmatter hpos]

end

/-- The rule for files whose name is `foo` and a backslash. -/
def backslashRule : Rule where
  source := "foo\\\\"
  negative := false
  directoryOnly := false
  anchored := false
  contentsOnly := false
  ignoreCase := true
  expression := .fromStart
    [.leadingDirectories, .literal 'f', .literal 'o', .literal 'o', .literal '\\', .ending]

/-- Two spaces behind its line say nothing, but one of them does. -/
theorem Rule.saysSame_backslashRule :
    Rule.ofLine true "foo\\\\" = .ok backslashRule ∧
      (∃ s, Rule.ofLine true ("foo\\\\" ++ String.ofList (List.replicate 2 ' ')) = .ok s ∧
        s.SaysSame backslashRule) ∧
      ¬∃ s, Rule.ofLine true ("foo\\\\" ++ String.ofList (List.replicate 1 ' ')) = .ok s ∧
        s.SaysSame backslashRule := by
  have hr : Rule.ofLine true "foo\\\\" = .ok backslashRule := by decide +kernel
  refine ⟨hr, ?_, ?_⟩
  · refine (Rule.saysSame_append_spaces_iff hr (by decide)).mpr fun hmatter => absurd hmatter ?_
    decide +kernel
  · intro h
    have hmatter : SpacesMatter (textOf "foo\\\\") 1 := by decide +kernel
    obtain ⟨-, hnothing⟩ := (Rule.saysSame_append_spaces_iff hr (by decide)).mp h hmatter
    have hmatch : backslashRule.isMatch "foo\\" false = true := by decide +kernel
    rw [hnothing] at hmatch
    cases hmatch

/-- The rule for files whose name is `a` and a space. -/
def escapedSpaceRule : Rule where
  source := "a\\ "
  negative := false
  directoryOnly := false
  anchored := false
  contentsOnly := false
  ignoreCase := true
  expression := .fromStart [.leadingDirectories, .literal 'a', .literal ' ', .ending]

/-- A line that ends in an escaped space is a rule, and with one more space it is rejected. -/
theorem Rule.rejects_space_behind_escaped_space :
    Rule.ofLine true "a\\ " = .ok escapedSpaceRule ∧
      ∃ rejection, Rule.ofLine true ("a\\ " ++ " ") = .error rejection :=
  ⟨by decide +kernel, .refused (.invalid "a\\  "), by decide +kernel⟩

end SourceSnapshot.Ignore
