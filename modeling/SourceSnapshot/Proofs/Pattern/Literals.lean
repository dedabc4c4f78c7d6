import SourceSnapshot.Proofs.Pattern.Extension
import SourceSnapshot.Proofs.Pattern.Ranges

/-!
# Patterns without wildcards

A pattern in which no character has a meaning of its own is the path of a directory as it is
written. Its segments are the components of the path, and they match these components. So it is
found in the path of the directory, and in every path below.
-/

namespace SourceSnapshot.Pattern

/-- A character that stands for itself wherever it stands in a pattern, and is no line break. -/
def IsOrdinary (c : Char) : Prop := c ∉ ['*', '?', '[', '\\', '\n']

instance : DecidablePred IsOrdinary := fun c =>
  inferInstanceAs (Decidable (c ∉ ['*', '?', '[', '\\', '\n']))

/-- A component of ordinary characters. -/
structure IsLiteral (component : List Char) : Prop where
  nonempty : component ≠ []
  noSlash : '/' ∉ component
  ordinary : ∀ c ∈ component, IsOrdinary c

section

variable {ignoreCase : Bool} {component : List Char}

theorem sameChar_self (c : Char) : sameChar ignoreCase c c = true := by
  cases ignoreCase with
  | false => exact beq_self_eq_true c
  | true => simp [sameChar, Text.Case.agrees]

theorem IsLiteral.isComponent (h : IsLiteral component) : IsComponent component :=
  ⟨h.nonempty, h.noSlash, fun hline => h.ordinary '\n' hline (by decide)⟩

theorem IsLiteral.star_notMem (h : IsLiteral component) : '*' ∉ component :=
  fun hstar => h.ordinary '*' hstar (by decide)

theorem IsLiteral.ne_twoStars (h : IsLiteral component) : component ≠ twoStars := by
  rintro rfl
  exact h.star_notMem (by decide)

/-- Ordinary characters are read as themselves. -/
theorem atoms_of_ordinary {cs : List Char} (h : ∀ c ∈ cs, IsOrdinary c) :
    atoms cs = .ok (cs.map .literal) := by
  induction cs with
  | nil => rfl
  | cons c rest ih =>
    obtain ⟨hc, hrest⟩ := List.forall_mem_cons.mp h
    have hne : ∀ d ∈ ['*', '?', '[', '\\', '\n'], c ≠ d := fun d hd heq => hc (heq ▸ hd)
    rw [atoms_literal (hne '\\' (by decide)) (hne '*' (by decide)) (hne '?' (by decide))
      (hne '[' (by decide)), ih hrest]
    rfl

/-- A literal component is read as its characters. -/
theorem read_of_isLiteral (h : IsLiteral component) :
    Segment.read component = .ok (.glob (component.map .literal)) := by
  have hone : component ≠ ['*'] := by
    rintro rfl
    exact h.star_notMem (by decide)
  have htwo : component ≠ ['*', '*'] := h.ne_twoStars
  rw [Segment.read, if_neg htwo, if_neg hone, atoms_of_ordinary h.ordinary]
  rfl

/-- Ordinary characters match themselves. -/
theorem globMatches_self {cs : List Char} (h : ∀ c ∈ cs, IsOrdinary c) :
    globMatches ignoreCase cs cs = true := by
  induction cs with
  | nil => rfl
  | cons c rest ih =>
    obtain ⟨hc, hrest⟩ := List.forall_mem_cons.mp h
    have hne : ∀ d ∈ ['*', '?', '[', '\\', '\n'], c ≠ d := fun d hd heq => hc (heq ▸ hd)
    rw [globMatches_literal (hne '*' (by decide)) (hne '?' (by decide)) (hne '\\' (by decide))]
    exact ⟨c, rest, rfl, sameChar_self c, ih hrest⟩

variable {components : List (List Char)}

/-- Literal components match themselves. -/
theorem componentsMatch_self (h : ∀ c ∈ components, IsLiteral c) :
    componentsMatch ignoreCase components components = true := by
  induction components with
  | nil => rfl
  | cons component below ih =>
    obtain ⟨hcomponent, hbelow⟩ := List.forall_mem_cons.mp h
    rw [componentsMatch_glob hcomponent.ne_twoStars]
    exact ⟨component, below, rfl, globMatches_self hcomponent.ordinary, ih hbelow⟩

/-- The segments of a pattern that is the path of a directory. -/
def directorySegments (components : List (List Char)) : List Segment :=
  components.map (fun component => .glob (component.map .literal)) ++ [.directories]

/-- Literal components and two stars are read as they are. -/
theorem readSegments_of_isLiteral (h : ∀ c ∈ components, IsLiteral c) :
    readSegments (components ++ [twoStars]) = .ok (directorySegments components) := by
  induction components with
  | nil => rfl
  | cons component below ih =>
    obtain ⟨hcomponent, hbelow⟩ := List.forall_mem_cons.mp h
    rw [List.cons_append, readSegments_cons_eq_ok]
    exact ⟨_, _, read_of_isLiteral hcomponent, ih hbelow, rfl⟩

/-- Two stars behind literal components are not merged with anything. -/
theorem mergeStars_of_isLiteral (h : ∀ c ∈ components, IsLiteral c) :
    mergeStars (components ++ [twoStars]) = components ++ [twoStars] := by
  induction components with
  | nil => rfl
  | cons component below ih =>
    obtain ⟨hcomponent, hbelow⟩ := List.forall_mem_cons.mp h
    obtain ⟨next, others, hnext⟩ :=
      List.exists_cons_of_ne_nil (List.concat_ne_nil twoStars below)
    have ih := ih hbelow
    rw [hnext] at ih
    rw [List.cons_append, mergeStars, hnext, ih]
    dsimp only
    rw [if_neg fun hstars => hcomponent.ne_twoStars hstars.1]

/-- A character in the text of a path is a slash or stands in a component. -/
theorem of_mem_textFrom {isDir : Bool} {c : Char} (h : c ∈ textFrom components isDir) :
    c = '/' ∨ ∃ component ∈ components, c ∈ component := by
  have hbehind : ∀ below : List (List Char), c ∈ behind below isDir →
      c = '/' ∨ ∃ component ∈ below, c ∈ component := by
    intro below hc
    rw [behind, List.mem_append, List.mem_flatMap] at hc
    rcases hc with ⟨component, hcomponent, hc⟩ | hc
    · exact (List.mem_cons.mp hc).imp_right fun hc => ⟨component, hcomponent, hc⟩
    · cases isDir with
      | true => exact Or.inl (List.mem_singleton.mp hc)
      | false => cases hc
  cases components with
  | nil => cases h
  | cons component below =>
    rcases List.mem_append.mp h with hc | hc
    · exact Or.inr ⟨component, List.mem_cons_self, hc⟩
    · rcases hbehind below hc with hslash | ⟨other, hother, hc⟩
      · exact Or.inl hslash
      · exact Or.inr ⟨other, List.mem_cons_of_mem component hother, hc⟩

/-- The pieces of the text of a directory's path are its components and an empty one. -/
theorem splitOn_textFrom (h : ∀ c ∈ components, IsLiteral c) (hne : components ≠ []) :
    Text.splitOn '/' (textFrom components true) = components ++ [[]] := by
  induction components with
  | nil => exact absurd rfl hne
  | cons component below ih =>
    obtain ⟨hcomponent, hbelow⟩ := List.forall_mem_cons.mp h
    by_cases hnil : below = []
    · subst hnil
      exact Text.splitOn_append_cons hcomponent.noSlash []
    · obtain ⟨next, others, rfl⟩ := List.exists_cons_of_ne_nil hnil
      rw [textFrom, behind_cons, Text.splitOn_append_cons hcomponent.noSlash, ih hbelow hnil]
      rfl

/-- Behind a slash the path of a directory has its components as segments. -/
theorem patternSegments_textFrom (h : ∀ c ∈ components, IsLiteral c) (hne : components ≠ []) :
    patternSegments ('/' :: textFrom components true) = components := by
  have hslash : '/' ∈ ('/' :: textFrom components true).dropLast := by
    rw [textFrom_true hne, ← List.cons_append, List.dropLast_concat]
    exact List.mem_cons_self
  rw [patternSegments, if_pos hslash, Text.splitOn_cons_self, splitOn_textFrom h hne,
    dropEmptyHead, dropEmptyLast, List.getLast?_concat, if_pos rfl, List.dropLast_concat]

/-- The path of a directory is not made of slashes alone. -/
theorem all_slash_textFrom (h : ∀ c ∈ components, IsLiteral c) (hne : components ≠ []) :
    ('/' :: textFrom components true).all (· == '/') = false := by
  obtain ⟨component, below, rfl⟩ := List.exists_cons_of_ne_nil hne
  have hcomponent := h component List.mem_cons_self
  obtain ⟨c, cs, rfl⟩ := List.exists_cons_of_ne_nil hcomponent.nonempty
  have hc : c ≠ '/' := fun heq => hcomponent.noSlash (heq ▸ List.mem_cons_self)
  simp [textFrom, hc]

/-- The path of a directory ends with a slash, and so it does not ask for its contents. -/
theorem endsWith_textFrom (hne : components ≠ []) :
    Text.endsWith ('/' :: textFrom components true) ['/'] = true ∧
      Text.endsWith ('/' :: textFrom components true) ['/', '*', '*'] = false := by
  have hslash : Text.endsWith ('/' :: textFrom components true) ['/'] = true := by
    rw [textFrom_true hne, ← List.cons_append, Text.endsWith_singleton, List.getLast?_concat]
  exact ⟨hslash, endsWith_contents_eq_false hslash⟩

/-- Brackets are escaped where there are none. -/
theorem bracketsEscaped_of_notMem {cs : List Char} (h : '[' ∉ cs) : bracketsEscaped cs = true := by
  fun_induction bracketsEscaped cs with
  | case1 d rest ih =>
    exact ih fun hmem => h (List.mem_cons_of_mem _ (List.mem_cons_of_mem _ hmem))
  | case2 rest => exact absurd List.mem_cons_self h
  | case3 c rest _ _ ih => exact ih fun hmem => h (List.mem_cons_of_mem c hmem)
  | case4 => rfl

/-- The path of a directory is a plain pattern. -/
theorem isPlain_textFrom (h : ∀ c ∈ components, IsLiteral c) (hne : components ≠ []) :
    IsPlain ('/' :: textFrom components true) := by
  constructor
  · refine bracketsEscaped_of_notMem fun hmem => ?_
    rcases List.mem_cons.mp hmem with hslash | hmem
    · exact absurd hslash (by decide)
    · rcases of_mem_textFrom hmem with hslash | ⟨component, hcomponent, hc⟩
      · exact absurd hslash (by decide)
      · exact (h component hcomponent).ordinary '[' hc (by decide)
  · rw [Text.splitOn_cons_self, splitOn_textFrom h hne]
    rintro piece hpiece ⟨hlen, hstars⟩
    rcases List.mem_cons.mp hpiece with rfl | hpiece
    · simp at hlen
    rcases List.mem_append.mp hpiece with hpiece | hpiece
    · obtain ⟨c, cs, rfl⟩ := List.exists_cons_of_ne_nil (h piece hpiece).nonempty
      obtain rfl := hstars c List.mem_cons_self
      exact (h _ hpiece).star_notMem List.mem_cons_self
    · obtain rfl := List.mem_singleton.mp hpiece
      simp at hlen

theorem readSegments_textFrom (h : ∀ c ∈ components, IsLiteral c) (hne : components ≠ []) :
    readSegments (segmentTexts ('/' :: textFrom components true)) =
      .ok (directorySegments components) := by
  rw [segmentTexts_eq (all_slash_textFrom h hne), patternSegments_textFrom h hne,
    if_pos (endsWith_textFrom hne).1, mergeStars_of_isLiteral h, readSegments_of_isLiteral h]

/-- The path of a directory as a pattern is found in the path of the directory. -/
theorem isFound_textFrom (h : ∀ c ∈ components, IsLiteral c) (hne : components ≠ []) :
    (Expression.ofSegments true (directorySegments components)).isFound ignoreCase
      (textFrom components true) = true := by
  obtain ⟨hdirectory, hcontents⟩ := endsWith_textFrom hne
  have hmatches : MatchesBeginning ignoreCase true components components true :=
    ⟨components, [], hne, (List.append_nil components).symm, fun _ => Or.inr rfl,
      componentsMatch_self h⟩
  have hfound : (Expression.ofSegments (Text.endsWith ('/' :: textFrom components true) ['/'])
      (directorySegments components)).isFound ignoreCase (textFrom components true) = true ↔ _ :=
    isFound_ofSegments_iff (all_slash_textFrom h hne) (isPlain_textFrom h hne) hcontents
      (readSegments_textFrom h hne) (fun c hc => (h c hc).isComponent) hne
  rw [patternSegments_textFrom h hne, hdirectory] at hfound
  exact hfound.mpr hmatches

/-- The path of a directory as a pattern is found in the path of the directory and in all that
starts with it. -/
theorem isFound_textFrom_append (h : ∀ c ∈ components, IsLiteral c) (hne : components ≠ [])
    (more : List Char) :
    (Expression.ofSegments true (directorySegments components)).isFound ignoreCase
      (textFrom components true ++ more) = true := by
  have hslashes := all_slash_textFrom h hne
  have hends : (Expression.ofSegments true (directorySegments components)).EndsAs twoStars :=
    endsAs_ofSegments (readSegments_textFrom h hne)
      (fun _ => slash_notMem_of_mem_segmentTexts hslashes)
      (getLast?_segmentTexts_of_endsWith hslashes (endsWith_textFrom hne).1) (by decide) true
  have hfound : (Expression.ofSegments true (directorySegments components)).isFound ignoreCase
      (textFrom components false ++ ['/']) = true := by
    rw [← textFrom_true hne]
    exact isFound_textFrom h hne
  rw [textFrom_true hne, List.append_assoc, List.singleton_append]
  exact (isFound_below hends hfound more).resolve_right (not_takesLastSlash hends)

/-- The path of a directory as a pattern has no range, and so none that is reversed. -/
theorem reversedRange?_directorySegments (asksDirectory : Bool) :
    (Expression.ofSegments asksDirectory (directorySegments components)).reversedRange? = none := by
  rw [reversedRange?_ofSegments_eq_none_iff]
  intro segment hsegment b hb
  rcases List.mem_append.mp hsegment with hsegment | hsegment
  · obtain ⟨component, -, rfl⟩ := List.mem_map.mp hsegment
    simp [Segment.pieces, Atom.piece] at hb
  · obtain rfl := List.mem_singleton.mp hsegment
    simp [Segment.pieces] at hb

end

end SourceSnapshot.Pattern
