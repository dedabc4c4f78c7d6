import Mathlib.Data.List.Chain
import SourceSnapshot.Proofs.Pattern.Globs

/-!
# Expressions match component by component

The pieces between two segments stop at slashes, and those of two stars skip whole components. So
the pieces of a list of segments fit the text of a path exactly if the segments match a beginning of
its components, and what is left of them is what the end of the pattern asks for.
-/

namespace SourceSnapshot.Pattern

/-- The pieces of a segment that is not two stars. -/
def Segment.pieces : Segment → List Piece
  | .glob atoms => atoms.map Atom.piece
  | _ => [.name]

/-- A text that can be a segment: it has no slash, every opening bracket in it is escaped, and it is
not made of three or more stars. -/
structure IsSegmentText (text : List Char) : Prop where
  noSlash : '/' ∉ text
  bracketsEscaped : bracketsEscaped text = true
  notStars : ¬(3 ≤ text.length ∧ ∀ c ∈ text, c = '*')

/-- A text that is not two stars is read as a name or as a glob. -/
theorem read_eq_ok_of_ne {text : List Char} (h : text ≠ twoStars) {segment : Segment}
    (hread : Segment.read text = .ok segment) :
    text = ['*'] ∧ segment = .name ∨
      text ≠ ['*'] ∧ ∃ atoms', atoms text = .ok atoms' ∧ segment = .glob atoms' := by
  have hne : ¬text = ['*', '*'] := h
  rw [Segment.read, if_neg hne] at hread
  split at hread
  · rename_i hstar
    exact Or.inl ⟨hstar, (Except.ok.inj hread).symm⟩
  · rename_i hstar
    cases hatoms : atoms text with
    | error fault =>
      rw [hatoms] at hread
      cases hread
    | ok atoms' =>
      rw [hatoms] at hread
      exact Or.inr ⟨hstar, atoms', rfl, (Except.ok.inj hread).symm⟩

/-- Only two stars are read as directories. -/
theorem read_ne_directories {text : List Char} (h : text ≠ twoStars) {segment : Segment}
    (hread : Segment.read text = .ok segment) : segment ≠ .directories := by
  rintro rfl
  rcases read_eq_ok_of_ne h hread with ⟨-, hname⟩ | ⟨-, atoms', -, hglob⟩
  · cases hname
  · cases hglob

/-- Fewer than three stars are none, one or two. -/
theorem eq_of_forall_eq_star {text : List Char} (h : ∀ c ∈ text, c = '*')
    (hlen : ¬3 ≤ text.length) : text = [] ∨ text = ['*'] ∨ text = twoStars := by
  match text, hlen with
  | [], _ => exact Or.inl rfl
  | [c], _ =>
    obtain rfl := h c (by simp)
    exact Or.inr (Or.inl rfl)
  | [c, d], _ =>
    obtain rfl := h c (by simp)
    obtain rfl := h d (by simp)
    exact Or.inr (Or.inr rfl)
  | _ :: _ :: _ :: _, hlen => simp at hlen

section

variable {ignoreCase : Bool} {more : List Piece} {components : List (List Char)} {isDir : Bool}

/-- One or more characters of a name, with pieces behind them that only fit where a component ends,
take a whole component. -/
theorem fits_name_append (hmore : FitsAtBoundary ignoreCase more)
    (h : ∀ c ∈ components, IsComponent c) :
    Fits ignoreCase (.name :: more) (textFrom components isDir) ↔
      ∃ component below, components = component :: below ∧
        Fits ignoreCase more (behind below isDir) := by
  rw [fits_name]
  cases components with
  | nil =>
    constructor
    · rintro ⟨run, left, hne, heq, -⟩
      exact absurd (List.append_eq_nil_iff.mp heq.symm).1 hne
    · rintro ⟨component, below, heq, -⟩
      cases heq
  | cons component below =>
    obtain ⟨⟨hne, hslash, hline⟩, hbelow⟩ := List.forall_mem_cons.mp h
    constructor
    · rintro ⟨run, left, -, heq, hrun, hfits⟩
      obtain ⟨tail, rfl, rfl⟩ := append_eq_append_of_atBoundary heq atBoundary_behind hrun
      rw [List.mem_append, not_or] at hslash hline
      have hboundary := hmore (tail ++ behind below isDir)
        (fun hmem => (List.mem_append.mp hmem).elim hline.2 (newline_notMem_behind hbelow)) hfits
      cases tail with
      | nil => exact ⟨_, below, rfl, hfits⟩
      | cons c tail =>
        obtain rfl := hboundary c rfl
        exact absurd (List.mem_cons_self ..) hslash.2
    · rintro ⟨_, _, heq, hfits⟩
      obtain ⟨rfl, rfl⟩ := List.cons.inj heq
      exact ⟨component, behind below isDir, hne, rfl, hslash, hfits⟩

theorem globMatches_singleton_star (name : List Char) :
    globMatches ignoreCase ['*'] name = true :=
  globMatches_star.mpr ⟨name, [], (List.append_nil name).symm, rfl⟩

/-- The pieces of a segment, with others behind them that only fit where a component ends, take
exactly one component. -/
theorem fits_segment_append {text : List Char} (htext : IsSegmentText text)
    (hstars : text ≠ twoStars) {segment : Segment} (hread : Segment.read text = .ok segment)
    (hmore : FitsAtBoundary ignoreCase more) (hempty : text = [] → ¬Fits ignoreCase more [])
    (h : ∀ c ∈ components, IsComponent c) :
    Fits ignoreCase (segment.pieces ++ more) (textFrom components isDir) ↔
      ∃ component below, components = component :: below ∧
        globMatches ignoreCase text component = true ∧
        Fits ignoreCase more (behind below isDir) := by
  rcases read_eq_ok_of_ne hstars hread with ⟨rfl, rfl⟩ | ⟨hstar, atoms', hatoms, rfl⟩
  · change Fits ignoreCase (.name :: more) _ ↔ _
    rw [fits_name_append hmore h]
    simp only [globMatches_singleton_star, true_and]
  · rw [Segment.pieces]
    cases components with
    | nil =>
      have hglob : Fits ignoreCase (atoms'.map Atom.piece ++ more) ([] ++ []) ↔
          globMatches ignoreCase text [] = true ∧ Fits ignoreCase more [] :=
        fits_atoms_append hmore (fun c hc => by cases hc) List.not_mem_nil
          htext.bracketsEscaped htext.noSlash hatoms List.not_mem_nil List.not_mem_nil
      constructor
      · intro hfits
        obtain ⟨hmatch, hlast⟩ := hglob.mp hfits
        -- Only stars match no characters, and of these texts none is left but the empty one.
        have hall := eq_star_of_globMatches_nil hmatch
        rcases eq_of_forall_eq_star hall fun hlen => htext.notStars ⟨hlen, hall⟩ with h | h | h
        · exact absurd hlast (hempty h)
        · exact absurd h hstar
        · exact absurd h hstars
      · rintro ⟨component, below, heq, -⟩
        cases heq
    | cons component below =>
      obtain ⟨⟨-, hslash, hline⟩, hbelow⟩ := List.forall_mem_cons.mp h
      rw [textFrom, fits_atoms_append hmore atBoundary_behind (newline_notMem_behind hbelow)
        htext.bracketsEscaped htext.noSlash hatoms hslash hline]
      constructor
      · rintro ⟨hmatch, hfits⟩
        exact ⟨component, below, rfl, hmatch, hfits⟩
      · rintro ⟨_, _, heq, hmatch, hfits⟩
        obtain ⟨rfl, rfl⟩ := List.cons.inj heq
        exact ⟨hmatch, hfits⟩

end

/-- The pieces of a segment that is not two stars stand between a slash and what is behind it. -/
theorem innerPieces_cons (asksDirectory joined : Bool) {segment : Segment}
    (h : segment ≠ .directories) (rest : List Segment) :
    innerPieces asksDirectory joined (segment :: rest) =
      (if joined then [.slash] else []) ++
        (segment.pieces ++
          ((if rest.isEmpty then [.ending] else []) ++ innerPieces asksDirectory true rest)) := by
  cases segment with
  | directories => exact absurd rfl h
  | name => simp [innerPieces, Segment.pieces]
  | glob atoms => simp [innerPieces, Segment.pieces]

/-- Two stars with segments behind them skip directories. -/
theorem innerPieces_directories (asksDirectory joined : Bool) {rest : List Segment}
    (h : rest ≠ []) :
    innerPieces asksDirectory joined (.directories :: rest) =
      .innerDirectories :: innerPieces asksDirectory true rest := by
  cases rest with
  | nil => exact absurd rfl h
  | cons next others => rw [innerPieces]; simp

/-- Segments are read one by one. -/
theorem readSegments_cons_eq_ok {text : List Char} {texts : List (List Char)}
    {segments : List Segment} :
    readSegments (text :: texts) = .ok segments ↔
      ∃ segment rest, Segment.read text = .ok segment ∧ readSegments texts = .ok rest ∧
        segments = segment :: rest := by
  rw [readSegments]
  cases Segment.read text with
  | error fault => simp [bind, Except.bind]
  | ok segment =>
    cases readSegments texts with
    | error fault => simp [bind, Except.bind]
    | ok rest => simp [bind, Except.bind, pure, Except.pure, eq_comm]

theorem readSegments_ne_nil {texts : List (List Char)} {segments : List Segment}
    (h : readSegments texts = .ok segments) (hne : texts ≠ []) : segments ≠ [] := by
  obtain ⟨text, others, rfl⟩ := List.exists_cons_of_ne_nil hne
  obtain ⟨segment, rest, -, -, rfl⟩ := readSegments_cons_eq_ok.mp h
  exact List.cons_ne_nil segment rest

section

variable {ignoreCase asksDirectory : Bool} {cs : List Char}

/-- Two stars at the end only ask for a slash. -/
theorem fits_innerPieces_directories :
    Fits ignoreCase (innerPieces asksDirectory true [.directories]) cs ↔
      Fits ignoreCase [.slash] cs := by
  cases asksDirectory with
  | false => exact Iff.rfl
  | true => exact fits_directoryMark

/-- Pieces of segments that are joined to what comes before start with a slash. -/
theorem eq_slash_cons_of_fits_innerPieces {segments : List Segment} (hne : segments ≠ [])
    (h : Fits ignoreCase (innerPieces asksDirectory true segments) cs) :
    ∃ rest, cs = '/' :: rest := by
  induction segments generalizing cs with
  | nil => exact absurd rfl hne
  | cons segment others ih =>
    by_cases hsegment : segment = .directories
    · subst hsegment
      cases others with
      | nil =>
        obtain ⟨rest, hcs, -⟩ := fits_slash.mp (fits_innerPieces_directories.mp h)
        exact ⟨rest, hcs⟩
      | cons next last =>
        rw [innerPieces_directories _ _ (List.cons_ne_nil next last)] at h
        rcases fits_innerDirectories.mp h with h | ⟨below, rest, -, hcs, -⟩
        · exact ih (List.cons_ne_nil next last) h
        · exact ⟨below ++ rest, hcs⟩
    · rw [innerPieces_cons _ _ hsegment] at h
      obtain ⟨rest, hcs, -⟩ := fits_slash.mp h
      exact ⟨rest, hcs⟩

/-- The pieces behind a segment only fit where a component ends. -/
theorem fitsAtBoundary_ending_or_innerPieces (segments : List Segment) :
    FitsAtBoundary ignoreCase
      ((if segments.isEmpty then [.ending] else []) ++
        innerPieces asksDirectory true segments) := by
  intro cs hline h c hc
  cases segments with
  | nil =>
    rcases fits_ending.mp h with ⟨rest, rfl⟩ | hend
    · exact (Option.some.inj hc).symm
    · rw [isAtEnd, Bool.or_eq_true, beq_iff_eq, beq_iff_eq] at hend
      rcases hend with rfl | rfl
      · cases hc
      · exact absurd (List.mem_singleton_self _) hline
  | cons segment others =>
    obtain ⟨rest, rfl⟩ := eq_slash_cons_of_fits_innerPieces (List.cons_ne_nil segment others) h
    exact (Option.some.inj hc).symm

/-- What a list of segments asks of the components that are left: if two stars are at its end, that
the ones before it are those of a directory. -/
def LeavesEnd (texts : List (List Char)) (isDir : Bool) (left : List (List Char)) : Prop :=
  texts.getLast? = some twoStars → left ≠ [] ∨ isDir = true

theorem leavesEnd_cons_cons (text next : List Char) (others : List (List Char)) (isDir : Bool) :
    LeavesEnd (text :: next :: others) isDir = LeavesEnd (next :: others) isDir := by
  funext left
  rw [LeavesEnd, LeavesEnd, List.getLast?_cons_cons]

/-- Texts of segments as they stand in a pattern: no two of them in a row are two stars, and the
last one is not empty. -/
structure AreSegmentTexts (texts : List (List Char)) : Prop where
  all : ∀ text ∈ texts, IsSegmentText text
  merged : texts.IsChain fun text next => ¬(text = twoStars ∧ next = twoStars)
  closed : texts.getLast? ≠ some []

/-- The texts behind the first one. -/
theorem AreSegmentTexts.tail {text : List Char} {texts : List (List Char)}
    (h : AreSegmentTexts (text :: texts)) : AreSegmentTexts texts := by
  refine ⟨(List.forall_mem_cons.mp h.all).2, h.merged.tail, ?_⟩
  cases texts with
  | nil => simp
  | cons next others => simpa using h.closed

variable {components : List (List Char)} {isDir : Bool}

/-- A slash goes on to the next component, if there is one or the last one is a directory. -/
theorem fits_slash_behind {pieces : List Piece} :
    Fits ignoreCase (.slash :: pieces) (behind components isDir) ↔
      (components ≠ [] ∨ isDir = true) ∧ Fits ignoreCase pieces (textFrom components isDir) := by
  rw [fits_slash]
  constructor
  · rintro ⟨rest, heq, hfits⟩
    obtain ⟨hmore, rfl⟩ := behind_eq_cons_iff.mp heq
    exact ⟨hmore, hfits⟩
  · rintro ⟨hmore, hfits⟩
    exact ⟨_, behind_eq_cons_iff.mpr ⟨hmore, rfl⟩, hfits⟩

/-- Directories in the middle skip whole components. -/
theorem fits_innerDirectories_behind {pieces : List Piece}
    (hpieces : ∀ cs, Fits ignoreCase pieces cs → ∃ rest, cs = '/' :: rest)
    (h : ∀ c ∈ components, IsComponent c) :
    Fits ignoreCase (.innerDirectories :: pieces) (behind components isDir) ↔
      ∃ skipped below, components = skipped ++ below ∧
        Fits ignoreCase pieces (behind below isDir) := by
  rw [fits_innerDirectories]
  constructor
  · rintro (hfits | ⟨skipped, rest, -, heq, -, hfits⟩)
    · exact ⟨[], components, rfl, hfits⟩
    · obtain ⟨after, rfl⟩ := hpieces rest hfits
      have heq' : behind components isDir = ('/' :: skipped) ++ '/' :: after := heq
      obtain ⟨above, below, rfl, -, hbelow⟩ :=
        exists_append_of_behind_eq (fun c hc => (h c hc).2.1) heq'
      exact ⟨above, below, rfl, hbelow ▸ hfits⟩
  · rintro ⟨skipped, below, rfl, hfits⟩
    cases skipped with
    | nil => exact Or.inl hfits
    | cons component above =>
      have habove : ∀ c ∈ component :: above, IsComponent c :=
        fun c hc => h c (List.mem_append_left below hc)
      refine Or.inr ⟨textFrom (component :: above) false, behind below isDir,
        textFrom_ne_nil (List.forall_mem_cons.mp habove).1, ?_, newline_notMem_textFrom habove,
        hfits⟩
      rw [behind_append, behind_cons, List.cons_append]

/-- Directories in front skip whole components. -/
theorem fits_leadingDirectories_textFrom {pieces : List Piece}
    (hpieces : ¬Fits ignoreCase pieces []) (h : ∀ c ∈ components, IsComponent c) :
    Fits ignoreCase (.leadingDirectories :: pieces) (textFrom components isDir) ↔
      ∃ skipped below, components = skipped ++ below ∧
        Fits ignoreCase pieces (textFrom below isDir) := by
  rw [fits_leadingDirectories]
  constructor
  · rintro (hfits | ⟨above, rest, -, heq, -, hfits⟩)
    · exact ⟨[], components, rfl, hfits⟩
    · obtain ⟨skipped, below, rfl, -, -, hbelow⟩ :=
        exists_append_of_textFrom_eq (fun c hc => (h c hc).2.1) heq
      obtain ⟨-, rfl⟩ := behind_eq_cons_iff.mp hbelow.symm
      exact ⟨skipped, below, rfl, hfits⟩
  · rintro ⟨skipped, below, rfl, hfits⟩
    cases skipped with
    | nil => exact Or.inl hfits
    | cons component above =>
      have habove : ∀ c ∈ component :: above, IsComponent c :=
        fun c hc => h c (List.mem_append_left below hc)
      cases below with
      | nil => exact absurd hfits hpieces
      | cons next others =>
        refine Or.inr ⟨textFrom (component :: above) false, textFrom (next :: others) isDir,
          textFrom_ne_nil (List.forall_mem_cons.mp habove).1, ?_, newline_notMem_textFrom habove,
          hfits⟩
        rw [textFrom_append (List.cons_ne_nil component above), behind_cons]

/-- A component may always be the last one that is matched. -/
theorem fits_ending_behind : Fits ignoreCase [.ending] (behind components isDir) := by
  have hboundary : AtBoundary (behind components isDir) := atBoundary_behind
  rw [fits_ending]
  cases hcs : behind components isDir with
  | nil => exact Or.inr rfl
  | cons c rest =>
    rw [hcs] at hboundary
    obtain rfl := hboundary c rfl
    exact Or.inl ⟨rest, rfl⟩

/-- Two stars at the end ask for a component, or for a directory. -/
theorem accepts_twoStars_leavesEnd :
    Accepts ignoreCase [twoStars] (LeavesEnd [twoStars] isDir) components ↔
      components ≠ [] ∨ isDir = true := by
  rw [accepts_twoStars]
  constructor
  · rintro ⟨skipped, below, rfl, haccepts⟩
    have hend := accepts_nil.mp haccepts rfl
    exact hend.imp_left fun hne => List.append_ne_nil_of_right_ne_nil skipped hne
  · intro hend
    exact ⟨[], components, rfl, accepts_nil.mpr fun _ => hend⟩

/-- A segment that is not two stars takes one component, and the pieces behind it do the rest. -/
theorem fits_innerPieces_step {text : List Char} {texts : List (List Char)}
    (htexts : AreSegmentTexts (text :: texts)) (hstars : text ≠ twoStars) {segment : Segment}
    (hread : Segment.read text = .ok segment) {rest : List Segment}
    (hrest : readSegments texts = .ok rest)
    (hbehind : texts ≠ [] → ∀ components, (∀ c ∈ components, IsComponent c) →
      (Fits ignoreCase (innerPieces asksDirectory true rest) (behind components isDir) ↔
        Accepts ignoreCase texts (LeavesEnd texts isDir) components))
    (h : ∀ c ∈ components, IsComponent c) :
    Fits ignoreCase (innerPieces asksDirectory false (segment :: rest))
        (textFrom components isDir) ↔
      Accepts ignoreCase (text :: texts) (LeavesEnd (text :: texts) isDir) components := by
  have hsegment := read_ne_directories hstars hread
  have hempty : text = [] → ¬Fits ignoreCase
      ((if rest.isEmpty then [.ending] else []) ++ innerPieces asksDirectory true rest) [] := by
    rintro rfl hfits
    have hne : texts ≠ [] := by
      rintro rfl
      exact htexts.closed rfl
    have hne' := readSegments_ne_nil hrest hne
    rw [if_neg (by simpa using hne'), List.nil_append] at hfits
    obtain ⟨left, hleft⟩ := eq_slash_cons_of_fits_innerPieces hne' hfits
    cases hleft
  rw [innerPieces_cons _ _ hsegment, if_neg Bool.false_ne_true, List.nil_append,
    fits_segment_append (htexts.all text (List.mem_cons_self ..)) hstars hread
      (fitsAtBoundary_ending_or_innerPieces rest) hempty h, accepts_glob hstars]
  refine exists_congr fun component => exists_congr fun below =>
    and_congr_right fun hcomponents => and_congr_right fun _ => ?_
  cases texts with
  | nil =>
    obtain rfl : [] = rest := Except.ok.inj hrest
    rw [accepts_nil]
    exact ⟨fun _ hlast => absurd (Option.some.inj hlast) hstars, fun _ => fits_ending_behind⟩
  | cons next others =>
    have hne := readSegments_ne_nil hrest (List.cons_ne_nil next others)
    rw [if_neg (by simpa using hne), List.nil_append, leavesEnd_cons_cons]
    refine hbehind (List.cons_ne_nil next others) below fun c hc => h c ?_
    rw [hcomponents]
    exact List.mem_cons_of_mem component hc

/-- The pieces of segments fit what stands behind a component if the segments match a beginning of
the components below it. -/
theorem fits_innerPieces_behind {texts : List (List Char)} (hne : texts ≠ [])
    (htexts : AreSegmentTexts texts) {segments : List Segment}
    (hread : readSegments texts = .ok segments) (h : ∀ c ∈ components, IsComponent c) :
    Fits ignoreCase (innerPieces asksDirectory true segments) (behind components isDir) ↔
      Accepts ignoreCase texts (LeavesEnd texts isDir) components := by
  induction texts generalizing segments components with
  | nil => exact absurd rfl hne
  | cons text texts ih =>
    obtain ⟨segment, rest, hsegment, hrest, rfl⟩ := readSegments_cons_eq_ok.mp hread
    have hbehind : texts ≠ [] → ∀ components, (∀ c ∈ components, IsComponent c) →
        (Fits ignoreCase (innerPieces asksDirectory true rest) (behind components isDir) ↔
          Accepts ignoreCase texts (LeavesEnd texts isDir) components) :=
      fun hne _ h => ih hne htexts.tail hrest h
    by_cases hstars : text = twoStars
    · subst hstars
      obtain rfl : Segment.directories = segment := Except.ok.inj hsegment
      cases texts with
      | nil =>
        obtain rfl : [] = rest := Except.ok.inj hrest
        rw [fits_innerPieces_directories, fits_slash_behind, accepts_twoStars_leavesEnd]
        exact and_iff_left (fits_nil _)
      | cons next others =>
        have hne' := readSegments_ne_nil hrest (List.cons_ne_nil next others)
        rw [innerPieces_directories _ _ hne', accepts_twoStars, fits_innerDirectories_behind
          (fun cs hfits => eq_slash_cons_of_fits_innerPieces hne' hfits) h]
        refine exists_congr fun skipped => exists_congr fun below =>
          and_congr_right fun hcomponents => ?_
        refine hbehind (List.cons_ne_nil next others) below fun c hc => h c ?_
        rw [hcomponents]
        exact List.mem_append_right skipped hc
    · have hne' := read_ne_directories hstars hsegment
      have hjoined : innerPieces asksDirectory true (segment :: rest) =
          .slash :: innerPieces asksDirectory false (segment :: rest) := by
        rw [innerPieces_cons _ _ hne', innerPieces_cons _ _ hne']
        rfl
      rw [hjoined, fits_slash_behind,
        fits_innerPieces_step htexts hstars hsegment hrest hbehind h]
      refine and_iff_right_of_imp fun haccepts => Or.inl ?_
      obtain ⟨component, below, rfl, -, -⟩ := (accepts_glob hstars).mp haccepts
      exact List.cons_ne_nil component below

variable {text : List Char} {texts : List (List Char)} {segment : Segment} {rest : List Segment}

/-- The pieces of segments of which the first is not two stars fit the text of a path if the
segments match a beginning of its components. -/
theorem fits_innerPieces_textFrom (htexts : AreSegmentTexts (text :: texts))
    (hstars : text ≠ twoStars) (hread : Segment.read text = .ok segment)
    (hrest : readSegments texts = .ok rest) (h : ∀ c ∈ components, IsComponent c) :
    Fits ignoreCase (innerPieces asksDirectory false (segment :: rest))
        (textFrom components isDir) ↔
      Accepts ignoreCase (text :: texts) (LeavesEnd (text :: texts) isDir) components :=
  fits_innerPieces_step htexts hstars hread hrest
    (fun hne _ h' => fits_innerPieces_behind hne htexts.tail hrest h') h

/-- Behind two stars they fit if the segments match components somewhere below. -/
theorem fits_leadingDirectories_innerPieces (htexts : AreSegmentTexts (text :: texts))
    (hstars : text ≠ twoStars) (hread : Segment.read text = .ok segment)
    (hrest : readSegments texts = .ok rest) (h : ∀ c ∈ components, IsComponent c) :
    Fits ignoreCase (.leadingDirectories :: innerPieces asksDirectory false (segment :: rest))
        (textFrom components isDir) ↔
      Accepts ignoreCase (twoStars :: text :: texts) (LeavesEnd (text :: texts) isDir)
        components := by
  have hnone : ¬Fits ignoreCase (innerPieces asksDirectory false (segment :: rest)) [] := by
    intro hnil
    have hempty : Fits ignoreCase (innerPieces asksDirectory false (segment :: rest))
        (textFrom [] false) := hnil
    have haccepts := (fits_innerPieces_textFrom htexts hstars hread hrest (by simp)).mp hempty
    obtain ⟨component, below, heq, -⟩ := (accepts_glob hstars).mp haccepts
    cases heq
  rw [fits_leadingDirectories_textFrom hnone h, accepts_twoStars]
  refine exists_congr fun skipped => exists_congr fun below => and_congr_right fun heq => ?_
  exact fits_innerPieces_textFrom htexts hstars hread hrest
    fun c hc => h c (heq ▸ List.mem_append_right skipped hc)

end

end SourceSnapshot.Pattern
