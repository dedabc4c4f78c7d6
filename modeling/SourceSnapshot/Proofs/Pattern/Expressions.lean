import SourceSnapshot.Proofs.Pattern.Segments

/-!
# Whole expressions

An expression is found in the text of a path if its segments match a beginning of the components,
and a pattern that asks for a directory finds one there. Patterns of stars alone are searched for as
a single piece; they say the same about a path as their segments.
-/

namespace SourceSnapshot.Pattern

/-- The segments match some components that a path starts with, at least one. If a directory is
asked for, the last of them is one. -/
def MatchesBeginning (ignoreCase asksDirectory : Bool) (texts components : List (List Char))
    (isDir : Bool) : Prop :=
  ∃ before after, before ≠ [] ∧ components = before ++ after ∧
    (asksDirectory = true → after ≠ [] ∨ isDir = true) ∧
    componentsMatch ignoreCase texts before = true

section

variable {ignoreCase asksDirectory : Bool} {components : List (List Char)} {isDir : Bool}

/-- Segments that match everything leave only the question of whether there is a directory. -/
theorem matchesBeginning_cons_of_forall {texts : List (List Char)}
    (h : ∀ before, before ≠ [] → componentsMatch ignoreCase texts before = true)
    (component : List Char) (below : List (List Char)) :
    MatchesBeginning ignoreCase asksDirectory texts (component :: below) isDir ↔
      (asksDirectory = true → below ≠ [] ∨ isDir = true) := by
  constructor
  · rintro ⟨before, after, hne, heq, hasks, -⟩ ha
    obtain ⟨first, others, rfl⟩ := List.exists_cons_of_ne_nil hne
    obtain ⟨-, rfl⟩ := List.cons.inj heq
    exact (hasks ha).imp_left fun hafter => List.append_ne_nil_of_right_ne_nil others hafter
  · intro hasks
    exact ⟨[component], below, List.cons_ne_nil _ _, rfl, hasks, h _ (List.cons_ne_nil _ _)⟩

theorem componentsMatch_stars (before : List (List Char)) :
    componentsMatch ignoreCase [twoStars] before = true :=
  componentsMatch_twoStars.mpr ⟨before, [], (List.append_nil before).symm, rfl⟩

/-- A star stands for any name, so behind two stars it matches everything. -/
theorem componentsMatch_stars_star {before : List (List Char)} (h : before ≠ []) :
    componentsMatch ignoreCase [twoStars, ['*']] before = true := by
  refine componentsMatch_twoStars.mpr
    ⟨before.dropLast, [before.getLast h], (List.dropLast_concat_getLast h).symm, ?_⟩
  exact (componentsMatch_glob (by decide)).mpr
    ⟨before.getLast h, [], rfl, globMatches_singleton_star _, rfl⟩

/-- Between two stars and two stars a star matches everything. -/
theorem componentsMatch_stars_star_stars {before : List (List Char)} (h : before ≠ []) :
    componentsMatch ignoreCase [twoStars, ['*'], twoStars] before = true := by
  obtain ⟨component, below, rfl⟩ := List.exists_cons_of_ne_nil h
  refine componentsMatch_twoStars.mpr ⟨[], component :: below, rfl, ?_⟩
  exact (componentsMatch_glob (by decide)).mpr
    ⟨component, below, rfl, globMatches_singleton_star _, componentsMatch_stars below⟩

/-- Any character is found in the text of any path. -/
theorem isFound_anything {component : List Char} (h : IsComponent component)
    (below : List (List Char)) :
    (Expression.anywhere .anything).isFound ignoreCase
      (textFrom (component :: below) isDir) = true := by
  obtain ⟨hne, -, hline⟩ := h
  obtain ⟨c, others, rfl⟩ := List.exists_cons_of_ne_nil hne
  refine isFound_anywhere.mpr ⟨_, List.suffix_refl _, fits_anything.mpr ⟨c, _, rfl, ?_⟩⟩
  rintro rfl
  exact hline (List.mem_cons_self ..)

/-- A slash is found in the text of a path if something stands below its first component, or that is
a directory. -/
theorem isFound_slash {component : List Char} (h : IsComponent component)
    (below : List (List Char)) :
    (Expression.anywhere .slash).isFound ignoreCase (textFrom (component :: below) isDir) = true ↔
      below ≠ [] ∨ isDir = true := by
  rw [isFound_anywhere, textFrom]
  constructor
  · rintro ⟨rest, ⟨before, heq⟩, hfits⟩
    obtain ⟨left, rfl, -⟩ := fits_slash.mp hfits
    have hslash : AtBoundary ('/' :: left) := fun c hc => (Option.some.inj hc).symm
    obtain ⟨tail, -, hbehind⟩ := append_eq_append_of_atBoundary heq hslash h.2.1
    cases tail with
    | nil => exact (behind_eq_cons_iff.mp hbehind).1
    | cons c tail =>
      have hboundary : AtBoundary (behind below isDir) := atBoundary_behind
      rw [hbehind] at hboundary
      obtain rfl := hboundary c rfl
      exact (behind_eq_cons_iff.mp hbehind).1
  · intro hmore
    exact ⟨_, List.suffix_append component _, fits_slash_behind.mpr ⟨hmore, fits_nil _⟩⟩

theorem isFound_directoryMark {cs : List Char} :
    (Expression.anywhere .directoryMark).isFound ignoreCase cs = true ↔
      (Expression.anywhere .slash).isFound ignoreCase cs = true := by
  rw [isFound_anywhere, isFound_anywhere]
  exact exists_congr fun rest => and_congr_right fun _ => fits_directoryMark

/-- A pattern of stars alone that asks for a directory says the same as its segments. -/
theorem isFound_directoryMark_iff_matchesBeginning {texts : List (List Char)}
    (htexts : ∀ before, before ≠ [] → componentsMatch ignoreCase texts before = true)
    {component : List Char} (h : IsComponent component) (below : List (List Char)) :
    (Expression.anywhere .directoryMark).isFound ignoreCase
        (textFrom (component :: below) isDir) = true ↔
      MatchesBeginning ignoreCase true texts (component :: below) isDir := by
  rw [isFound_directoryMark, isFound_slash h, matchesBeginning_cons_of_forall htexts]
  exact ⟨fun hmore _ => hmore, fun hmore => hmore rfl⟩

/-- A pattern of stars alone that does not ask for a directory says the same as its segments. -/
theorem isFound_anything_iff_matchesBeginning {texts : List (List Char)}
    (htexts : ∀ before, before ≠ [] → componentsMatch ignoreCase texts before = true)
    {component : List Char} (h : IsComponent component) (below : List (List Char)) :
    (Expression.anywhere .anything).isFound ignoreCase
        (textFrom (component :: below) isDir) = true ↔
      MatchesBeginning ignoreCase false texts (component :: below) isDir := by
  rw [matchesBeginning_cons_of_forall htexts]
  exact iff_of_true (isFound_anything h below) fun ha => absurd ha Bool.false_ne_true

/-- Only two stars match no components. -/
theorem eq_twoStars_of_componentsMatch_nil {texts : List (List Char)}
    (h : componentsMatch ignoreCase texts [] = true) : ∀ text ∈ texts, text = twoStars := by
  induction texts with
  | nil => simp
  | cons text texts ih =>
    by_cases hstars : text = twoStars
    · subst hstars
      obtain ⟨skipped, below, heq, hbelow⟩ := componentsMatch_twoStars.mp h
      obtain rfl := (List.append_eq_nil_iff.mp heq.symm).2
      exact List.forall_mem_cons.mpr ⟨rfl, ih hbelow⟩
    · obtain ⟨component, below, heq, -⟩ := (componentsMatch_glob hstars).mp h
      cases heq

/-- Segments one of which is not two stars accept what they match a beginning of. -/
theorem accepts_iff_matchesBeginning {texts : List (List Char)}
    (hglob : ∃ text ∈ texts, text ≠ twoStars)
    (hasks : asksDirectory = true ↔ texts.getLast? = some twoStars) :
    Accepts ignoreCase texts (LeavesEnd texts isDir) components ↔
      MatchesBeginning ignoreCase asksDirectory texts components isDir := by
  constructor
  · rintro ⟨before, after, heq, hmatch, hend⟩
    refine ⟨before, after, ?_, heq, fun ha => hend (hasks.mp ha), hmatch⟩
    rintro rfl
    obtain ⟨text, hmem, hne⟩ := hglob
    exact hne (eq_twoStars_of_componentsMatch_nil hmatch text hmem)
  · rintro ⟨before, after, -, heq, hend, hmatch⟩
    exact ⟨before, after, heq, hmatch, fun hlast => hend (hasks.mpr hlast)⟩

/-- Segments the first of which is not two stars are tied to the start. -/
theorem ofSegments_of_ne {segment : Segment} (h : segment ≠ .directories)
    (rest : List Segment) :
    Expression.ofSegments asksDirectory (segment :: rest) =
      .fromStart (innerPieces asksDirectory false (segment :: rest)) := by
  cases segment with
  | directories => exact absurd rfl h
  | name => rfl
  | glob atoms => rfl

/-- Two stars in front of more than a star skip directories. -/
theorem ofSegments_directories {rest : List Segment} (hne : rest ≠ []) (hname : rest ≠ [.name])
    (hdirectories : rest ≠ [.name, .directories]) :
    Expression.ofSegments asksDirectory (.directories :: rest) =
      .fromStart (.leadingDirectories :: innerPieces asksDirectory false rest) := by
  rw [Expression.ofSegments]
  · simpa using hne
  · simpa using hname
  · simpa using hdirectories

/-- Only a star is read as a name. -/
theorem eq_star_of_read_eq_name {text : List Char} (h : Segment.read text = .ok .name) :
    text = ['*'] := by
  by_cases hstars : text = twoStars
  · subst hstars
    cases h
  · rcases read_eq_ok_of_ne hstars h with ⟨hstar, -⟩ | ⟨-, atoms', -, hglob⟩
    · exact hstar
    · cases hglob

theorem eq_twoStars_of_read_eq_directories {text : List Char}
    (h : Segment.read text = .ok .directories) : text = twoStars := by
  by_contra hstars
  exact read_ne_directories hstars h rfl

theorem eq_nil_of_readSegments_eq_nil {texts : List (List Char)}
    (h : readSegments texts = .ok []) : texts = [] := by
  by_contra hne
  exact readSegments_ne_nil h hne rfl

/-- Only a star alone is read as a name alone. -/
theorem eq_of_readSegments_eq_name {texts : List (List Char)}
    (h : readSegments texts = .ok [.name]) : texts = [['*']] := by
  cases texts with
  | nil => cases h
  | cons text texts =>
    obtain ⟨segment, rest, hread, hrest, heq⟩ := readSegments_cons_eq_ok.mp h
    obtain ⟨rfl, rfl⟩ := List.cons.inj heq
    rw [eq_star_of_read_eq_name hread, eq_nil_of_readSegments_eq_nil hrest]

/-- Only a star and two stars are read as a name and directories. -/
theorem eq_of_readSegments_eq_name_directories {texts : List (List Char)}
    (h : readSegments texts = .ok [.name, .directories]) : texts = [['*'], twoStars] := by
  cases texts with
  | nil => cases h
  | cons text texts =>
    obtain ⟨segment, rest, hread, hrest, heq⟩ := readSegments_cons_eq_ok.mp h
    obtain ⟨rfl, rfl⟩ := List.cons.inj heq
    cases texts with
    | nil => cases hrest
    | cons next others =>
      obtain ⟨segment, rest, hnext, hothers, heq⟩ := readSegments_cons_eq_ok.mp hrest
      obtain ⟨rfl, rfl⟩ := List.cons.inj heq
      rw [eq_star_of_read_eq_name hread, eq_twoStars_of_read_eq_directories hnext,
        eq_nil_of_readSegments_eq_nil hothers]

/-- Behind two stars a star stands alone, or with two stars behind it, or there is more to match. -/
theorem isFound_ofSegments_twoStars {texts : List (List Char)}
    (htexts : AreSegmentTexts (twoStars :: texts)) {rest : List Segment}
    (hrest : readSegments texts = .ok rest)
    (hasks : asksDirectory = true → (twoStars :: texts).getLast? = some twoStars)
    (hlast : (twoStars :: texts).getLast? = some twoStars → asksDirectory = true ∨ texts = [])
    (h : ∀ c ∈ components, IsComponent c) (hne : components ≠ []) :
    (Expression.ofSegments asksDirectory (.directories :: rest)).isFound ignoreCase
        (textFrom components isDir) = true ↔
      MatchesBeginning ignoreCase asksDirectory (twoStars :: texts) components isDir := by
  obtain ⟨component, below, rfl⟩ := List.exists_cons_of_ne_nil hne
  have hcomponent := h component (List.mem_cons_self ..)
  by_cases hempty : rest = []
  · subst hempty
    obtain rfl := eq_nil_of_readSegments_eq_nil hrest
    cases asksDirectory with
    | false =>
      exact isFound_anything_iff_matchesBeginning (fun before _ => componentsMatch_stars before)
        hcomponent below
    | true =>
      exact isFound_directoryMark_iff_matchesBeginning
        (fun before _ => componentsMatch_stars before) hcomponent below
  by_cases hname : rest = [.name]
  · subst hname
    obtain rfl := eq_of_readSegments_eq_name hrest
    cases asksDirectory with
    | false =>
      exact isFound_anything_iff_matchesBeginning (fun before => componentsMatch_stars_star)
        hcomponent below
    | true => exact absurd (hasks rfl) (by decide)
  by_cases hdirectories : rest = [.name, .directories]
  · subst hdirectories
    obtain rfl := eq_of_readSegments_eq_name_directories hrest
    cases asksDirectory with
    | false => exact absurd (hlast (by decide)) (by decide)
    | true =>
      exact isFound_directoryMark_iff_matchesBeginning
        (fun before => componentsMatch_stars_star_stars) hcomponent below
  cases texts with
  | nil => exact absurd (Except.ok.inj hrest).symm hempty
  | cons next others =>
    rw [ofSegments_directories hempty hname hdirectories, isFound_fromStart]
    obtain ⟨segment, last, hsegment, hothers, rfl⟩ := readSegments_cons_eq_ok.mp hrest
    have hstars : next ≠ twoStars :=
      fun hnext => (List.isChain_cons_cons.mp htexts.merged).1 ⟨rfl, hnext⟩
    have hasks' : asksDirectory = true ↔ (twoStars :: next :: others).getLast? = some twoStars :=
      ⟨hasks, fun hl => (hlast hl).resolve_right (List.cons_ne_nil next others)⟩
    rw [fits_leadingDirectories_innerPieces htexts.tail hstars hsegment hothers h,
      ← leavesEnd_cons_cons twoStars]
    exact accepts_iff_matchesBeginning
      ⟨next, List.mem_cons_of_mem _ (List.mem_cons_self ..), hstars⟩ hasks'

/-- An expression is found in the text of a path if its segments match a beginning of it. -/
theorem isFound_ofSegments {texts : List (List Char)} (hnil : texts ≠ [])
    (htexts : AreSegmentTexts texts) {segments : List Segment}
    (hread : readSegments texts = .ok segments)
    (hasks : asksDirectory = true → texts.getLast? = some twoStars)
    (hlast : texts.getLast? = some twoStars → asksDirectory = true ∨ texts = [twoStars])
    (h : ∀ c ∈ components, IsComponent c) (hne : components ≠ []) :
    (Expression.ofSegments asksDirectory segments).isFound ignoreCase
        (textFrom components isDir) = true ↔
      MatchesBeginning ignoreCase asksDirectory texts components isDir := by
  obtain ⟨text, texts, rfl⟩ := List.exists_cons_of_ne_nil hnil
  obtain ⟨segment, rest, hsegment, hrest, rfl⟩ := readSegments_cons_eq_ok.mp hread
  by_cases hstars : text = twoStars
  · subst hstars
    obtain rfl : Segment.directories = segment := Except.ok.inj hsegment
    refine isFound_ofSegments_twoStars htexts hrest hasks (fun hl => ?_) h hne
    exact (hlast hl).imp_right fun heq => (List.cons.inj heq).2
  · have hasks' : asksDirectory = true ↔ (text :: texts).getLast? = some twoStars := by
      refine ⟨hasks, fun hl => (hlast hl).resolve_right fun heq => ?_⟩
      exact hstars (List.cons.inj heq).1
    rw [ofSegments_of_ne (read_ne_directories hstars hsegment), isFound_fromStart,
      fits_innerPieces_textFrom htexts hstars hsegment hrest h,
      accepts_iff_matchesBeginning ⟨text, List.mem_cons_self .., hstars⟩ hasks']

end

end SourceSnapshot.Pattern
