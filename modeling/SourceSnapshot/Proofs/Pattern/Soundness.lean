import SourceSnapshot.Proofs.Pattern.Brackets
import SourceSnapshot.Proofs.Pattern.Lines
import SourceSnapshot.Proofs.Pattern.Ranges

/-!
# Sound patterns

The pieces of a pattern between its slashes are read one by one, and two stars may be put in front
of them or behind them, or be merged. So a pattern has an expression without a reversed range
exactly if each of its pieces is sound.
-/

namespace SourceSnapshot.Pattern

section

variable {text : List Char} {texts : List (List Char)}

theorem isSound_stars : IsSound [] ∧ IsSound ['*'] ∧ IsSound twoStars :=
  ⟨⟨_, .nil, by simp⟩, ⟨_, .run .nil, by simp⟩, ⟨_, .run (.run .nil), by simp⟩⟩

/-- A text can be read as a segment with ordered ranges if it is sound. -/
theorem exists_read_iff_isSound :
    (∃ segment, Segment.read text = .ok segment ∧ segment.IsOrdered) ↔ IsSound text := by
  obtain ⟨-, hstar, hstars⟩ := isSound_stars
  by_cases htwo : text = twoStars
  · subst htwo
    exact iff_of_true ⟨.directories, rfl, by simp [Segment.IsOrdered, Segment.pieces]⟩ hstars
  by_cases hone : text = ['*']
  · subst hone
    exact iff_of_true ⟨.name, rfl, by simp [Segment.IsOrdered, Segment.pieces]⟩ hstar
  have hread : Segment.read text = .glob <$> atoms text := by
    rw [Segment.read, if_neg hone]
    exact if_neg htwo
  have hpieces : ∀ parts : List Atom, (Segment.glob parts).IsOrdered ↔
      ∀ b, .bracket b ∈ parts → b.isOrdered = true := by
    intro parts
    refine forall_congr' fun b => imp_congr_left ?_
    simp only [Segment.pieces, List.mem_map]
    constructor
    · rintro ⟨part, hpart, heq⟩
      cases part <;> simp_all [Atom.piece]
    · exact fun hb => ⟨_, hb, rfl⟩
  rw [hread]
  constructor
  · rintro ⟨segment, hsegment, hordered⟩
    cases hatoms : atoms text with
    | error fault =>
      rw [hatoms] at hsegment
      cases hsegment
    | ok parts =>
      rw [hatoms] at hsegment
      obtain rfl := Except.ok.inj hsegment
      exact ⟨parts, atoms_eq_ok_iff.mp hatoms, (hpieces parts).mp hordered⟩
  · rintro ⟨parts, hglob, hordered⟩
    exact ⟨.glob parts, by rw [hglob.atoms_eq]; rfl, (hpieces parts).mpr hordered⟩

/-- Texts can be read as segments with ordered ranges if all of them are sound. -/
theorem exists_readSegments_iff_isSound :
    (∃ segments, readSegments texts = .ok segments ∧ ∀ segment ∈ segments, segment.IsOrdered) ↔
      ∀ text ∈ texts, IsSound text := by
  induction texts with
  | nil => simp [readSegments]
  | cons text texts ih =>
    rw [List.forall_mem_cons, ← ih, ← exists_read_iff_isSound]
    constructor
    · rintro ⟨segments, hread, hordered⟩
      obtain ⟨segment, rest, hsegment, hrest, rfl⟩ := readSegments_cons_eq_ok.mp hread
      obtain ⟨hfirst, hothers⟩ := List.forall_mem_cons.mp hordered
      exact ⟨⟨segment, hsegment, hfirst⟩, ⟨rest, hrest, hothers⟩⟩
    · rintro ⟨⟨segment, hsegment, hfirst⟩, ⟨rest, hrest, hothers⟩⟩
      exact ⟨segment :: rest, readSegments_cons_eq_ok.mpr ⟨segment, rest, hsegment, hrest, rfl⟩,
        List.forall_mem_cons.mpr ⟨hfirst, hothers⟩⟩

end

section

variable {pattern : List Char} {segments : List (List Char)} {segment : List Char}

/-- Merging only drops two stars. -/
theorem eq_twoStars_or_mem_mergeStars (h : segment ∈ segments) :
    segment = twoStars ∨ segment ∈ mergeStars segments := by
  induction segments with
  | nil => cases h
  | cons first rest ih =>
    rw [mergeStars]
    cases hrest : mergeStars rest with
    | nil =>
      have hnil : rest = [] := by
        by_contra hne
        exact mergeStars_ne_nil hne hrest
      subst hnil
      exact Or.inr h
    | cons next others =>
      rw [hrest] at ih
      dsimp only
      rcases List.mem_cons.mp h with rfl | h
      · split
        · rename_i hstars
          exact Or.inl hstars.1
        · exact Or.inr List.mem_cons_self
      · refine (ih h).imp_right fun hmem => ?_
        split
        · exact hmem
        · exact List.mem_cons_of_mem first hmem

/-- Only empty pieces are dropped at the ends. -/
theorem eq_nil_or_mem_dropEmpty (h : segment ∈ segments) :
    segment = [] ∨ segment ∈ dropEmptyLast (dropEmptyHead segments) := by
  have hhead : segment = [] ∨ segment ∈ dropEmptyHead segments := by
    rw [dropEmptyHead.eq_def]
    split
    · exact List.mem_cons.mp h
    · exact Or.inr h
  refine hhead.elim Or.inl fun hmem => ?_
  rw [dropEmptyLast]
  split
  · rename_i hlast
    rw [← List.dropLast_append_getLast? [] hlast, List.mem_append, List.mem_singleton] at hmem
    exact hmem.symm
  · exact Or.inr hmem

/-- The segments of an expression are sound if the pieces of its pattern are. -/
theorem isSound_segmentTexts_iff (h : pattern.all (· == '/') = false) :
    (∀ text ∈ segmentTexts pattern, IsSound text) ↔
      ∀ piece ∈ Text.splitOn '/' pattern, IsSound piece := by
  obtain ⟨hnil, -, hstars⟩ := isSound_stars
  constructor
  · intro hall piece hpiece
    have hsegment : piece = [] ∨ piece ∈ patternSegments pattern := by
      rw [patternSegments]
      split
      · exact eq_nil_or_mem_dropEmpty hpiece
      · exact (eq_nil_or_mem_dropEmpty hpiece).imp_right (List.mem_cons_of_mem twoStars)
    rcases hsegment with rfl | hsegment
    · exact hnil
    rw [segmentTexts_eq h] at hall
    rcases eq_twoStars_or_mem_mergeStars (List.mem_append_left _ hsegment) with rfl | hmem
    · exact hstars
    · exact hall piece hmem
  · intro hall text htext
    rcases mem_splitOn_of_mem_segmentTexts h htext with rfl | hpiece
    · exact hstars
    · exact hall text hpiece

end

end SourceSnapshot.Pattern
