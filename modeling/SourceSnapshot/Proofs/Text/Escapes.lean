import SourceSnapshot.Proofs.Text.Pieces

/-!
# Escapes and blanks at the end of a text

A backslash escapes the next character, also another backslash. So a text ends in an open escape if
the run of backslashes at its end is odd. A blank behind an open escape is escaped and belongs to
the text; all other blanks at the end are dropped.
-/

namespace SourceSnapshot.Text

/-- Whether the last character is a backslash that is not itself escaped. -/
def endsInOpenEscape (cs : List Char) : Bool :=
  cs.foldl (fun isOpen c => c == '\\' && !isOpen) false

/-- Whether a text ends in a blank behind an open escape. -/
def endsInEscapedBlank (cs : List Char) : Bool :=
  cs.getLast?.any isBlank && endsInOpenEscape cs.dropLast

section

variable {c : Char} {cs : List Char}

@[simp] theorem endsInOpenEscape_nil : endsInOpenEscape [] = false := rfl

@[simp] theorem endsInOpenEscape_concat (cs : List Char) (c : Char) :
    endsInOpenEscape (cs ++ [c]) = (c == '\\' && !endsInOpenEscape cs) := by
  simp [endsInOpenEscape]

theorem endsInOpenEscape_append_cons (h : c ≠ '\\') (before cs : List Char) :
    endsInOpenEscape (before ++ c :: cs) = endsInOpenEscape cs := by
  have hc : (c == '\\') = false := by simpa using h
  simp only [endsInOpenEscape, List.foldl_append, List.foldl_cons, hc, Bool.false_and]

theorem endsInOpenEscape_cons (h : c ≠ '\\') (cs : List Char) :
    endsInOpenEscape (c :: cs) = endsInOpenEscape cs :=
  endsInOpenEscape_append_cons h [] cs

theorem endsInOpenEscape_escaped (c : Char) (cs : List Char) :
    endsInOpenEscape ('\\' :: c :: cs) = endsInOpenEscape cs := by
  simp [endsInOpenEscape]

/-- An open escape is a backslash at the end. -/
theorem getLast?_of_endsInOpenEscape (h : endsInOpenEscape cs = true) :
    cs.getLast? = some '\\' := by
  rcases List.eq_nil_or_concat cs with rfl | ⟨before, c, rfl⟩
  · simp at h
  · rw [List.concat_eq_append] at h ⊢
    simp only [endsInOpenEscape_concat, Bool.and_eq_true, beq_iff_eq] at h
    rw [h.1, List.getLast?_concat]

@[simp] theorem endsInEscapedBlank_concat (cs : List Char) (c : Char) :
    endsInEscapedBlank (cs ++ [c]) = (isBlank c && endsInOpenEscape cs) := by
  simp [endsInEscapedBlank]

/-- Each open escape at the end of a piece is at the end of the text or in front of the character at
which it is cut. -/
theorem exists_piece_endsInOpenEscape_iff {at_ : Char} (hat : at_ ≠ '\\') :
    (∃ piece ∈ splitOn at_ cs, endsInOpenEscape piece = true) ↔
      endsInOpenEscape cs = true ∨
        ∃ before after, cs = before ++ at_ :: after ∧ endsInOpenEscape before = true := by
  induction hn : cs.length using Nat.strongRecOn generalizing cs with
  | ind n ih =>
    by_cases hmem : at_ ∈ cs
    · obtain ⟨first, rest, rfl, hfirst⟩ := List.eq_append_cons_of_mem hmem
      have hlt : rest.length < n := by
        rw [← hn, List.length_append, List.length_cons]
        omega
      simp only [splitOn_append_cons hfirst, List.mem_cons, exists_eq_or_imp, ih _ hlt rfl,
        endsInOpenEscape_append_cons hat]
      constructor
      · rintro (h | h | ⟨before, after, rfl, h⟩)
        · exact Or.inr ⟨first, rest, rfl, h⟩
        · exact Or.inl h
        · refine Or.inr ⟨first ++ at_ :: before, after, by simp, ?_⟩
          rwa [endsInOpenEscape_append_cons hat]
      · rintro (h | ⟨before, after, heq, h⟩)
        · exact Or.inr (Or.inl h)
        · rcases List.append_eq_append_iff.mp heq with
            ⟨between, rfl, hrest⟩ | ⟨between, hfirst', hafter⟩
          · cases between with
            | nil => exact Or.inl (by simpa using h)
            | cons c between =>
              obtain ⟨rfl, rfl⟩ := List.cons.inj hrest
              rw [endsInOpenEscape_append_cons hat] at h
              exact Or.inr (Or.inr ⟨between, after, rfl, h⟩)
          · cases between with
            | nil =>
              rw [List.append_nil] at hfirst'
              exact Or.inl (hfirst' ▸ h)
            | cons c between =>
              obtain ⟨rfl, -⟩ := List.cons.inj hafter
              simp [hfirst'] at hfirst
    · simp only [splitOn_of_notMem hmem, List.mem_singleton, exists_eq_left]
      refine ⟨Or.inl, Or.rec id ?_⟩
      rintro ⟨before, after, rfl, -⟩
      simp at hmem

/-- What is put behind a text belongs to its last piece, which has an open escape at its end if the
text has one. -/
theorem exists_splitOn_append_endsInOpenEscape {at_ : Char} (hat : at_ ≠ '\\') (cs : List Char) :
    ∃ pieces last, endsInOpenEscape last = endsInOpenEscape cs ∧
      ∀ ending, at_ ∉ ending → splitOn at_ (cs ++ ending) = pieces ++ [last ++ ending] := by
  obtain ⟨pieces, before, last, rfl, hbefore, hpieces⟩ := exists_splitOn_append at_ cs
  refine ⟨pieces, last, ?_, hpieces⟩
  rcases hbefore with rfl | hbefore
  · rfl
  · obtain ⟨front, rfl⟩ := List.getLast?_eq_some_iff.mp hbefore
    rw [List.append_assoc, List.singleton_append, endsInOpenEscape_append_cons hat]

end

/-- Whether a text ends in blanks of which the first is escaped, unless this is a space and the only
one. -/
def LosesEscapedBlank (cs : List Char) : Prop :=
  ∃ before blanks, cs = before ++ blanks ∧ endsInOpenEscape before = true ∧
    (∀ c ∈ blanks, isBlank c = true) ∧ blanks ≠ [] ∧ blanks ≠ [' ']

/-- The text without the blanks at its end. A blank behind an open escape stays. -/
def withoutOpenBlanks (cs : List Char) : List Char :=
  let bare := dropTrailing isBlank cs
  if endsInOpenEscape bare then cs.take (bare.length + 1) else bare

theorem isBlank_eq_false_of_backslash {cs : List Char} (h : cs.getLast? = some '\\') :
    ∀ c, cs.getLast? = some c → isBlank c = false := by
  rw [h]
  rintro c ⟨rfl⟩
  simp [isBlank]

theorem exists_append_blanks (cs : List Char) :
    ∃ bare blanks, cs = bare ++ blanks ∧ (∀ c ∈ blanks, isBlank c = true) ∧
      ∀ c, bare.getLast? = some c → isBlank c = false := by
  obtain ⟨blanks, hcs, hblanks⟩ := exists_dropTrailing_append isBlank cs
  exact ⟨_, blanks, hcs, hblanks, fun c hc => getLast?_dropTrailing hc⟩

section

variable {bare blanks : List Char} (hblanks : ∀ c ∈ blanks, isBlank c = true)
  (hbare : ∀ c, bare.getLast? = some c → isBlank c = false)

include hblanks hbare

theorem dropTrailing_append_blanks : dropTrailing isBlank (bare ++ blanks) = bare := by
  rw [dropTrailing_append bare hblanks, dropTrailing_eq_self hbare]

/-- The first of the blanks stays if it is escaped. -/
theorem withoutOpenBlanks_append :
    withoutOpenBlanks (bare ++ blanks) =
      bare ++ if endsInOpenEscape bare then blanks.take 1 else [] := by
  rw [withoutOpenBlanks, dropTrailing_append_blanks hblanks hbare]
  split
  · rw [List.take_append, List.take_of_length_le (Nat.le_succ _), Nat.add_sub_cancel_left]
  · rw [List.append_nil]

/-- The text ends with a backslash and a space if there is just this one space behind it. -/
theorem endsWith_backslash_space_iff :
    endsWith (bare ++ blanks) ['\\', ' '] = true ↔
      blanks = [' '] ∧ bare.getLast? = some '\\' := by
  rw [endsWith, List.isSuffixOf_iff_suffix]
  constructor
  · rintro ⟨before, heq⟩
    rcases List.eq_nil_or_concat blanks with rfl | ⟨others, c, rfl⟩
    · have hlast := congrArg List.getLast? heq
      rw [List.append_nil] at hlast
      have hspace := hbare ' ' (by rw [← hlast]; simp)
      simp [isBlank] at hspace
    · rw [List.concat_eq_append] at hblanks heq ⊢
      have hassoc : (before ++ ['\\']) ++ [' '] = (bare ++ others) ++ [c] := by simpa using heq
      obtain ⟨hfront, hc⟩ := List.append_inj' hassoc rfl
      obtain rfl : ' ' = c := by simpa using hc
      rcases List.eq_nil_or_concat others with rfl | ⟨more, d, rfl⟩
      · rw [List.append_nil] at hfront
        simp [← hfront]
      · rw [List.concat_eq_append, ← List.append_assoc] at hfront
        obtain ⟨-, hd⟩ := List.append_inj' hfront rfl
        obtain rfl : '\\' = d := by simpa using hd
        have hblank := hblanks '\\' (by simp)
        simp [isBlank] at hblank
  · rintro ⟨rfl, hlast⟩
    obtain ⟨before, rfl⟩ := List.getLast?_eq_some_iff.mp hlast
    exact ⟨before, by simp⟩

/-- The blanks that are lost are those that a text ends in. -/
theorem losesEscapedBlank_append_iff :
    LosesEscapedBlank (bare ++ blanks) ↔
      endsInOpenEscape bare = true ∧ blanks ≠ [] ∧ blanks ≠ [' '] := by
  constructor
  · rintro ⟨before, others, heq, hescape, hothers, hne⟩
    have hbefore := isBlank_eq_false_of_backslash (getLast?_of_endsInOpenEscape hescape)
    have hdrop := congrArg (dropTrailing isBlank) heq
    rw [dropTrailing_append_blanks hblanks hbare,
      dropTrailing_append_blanks hothers hbefore] at hdrop
    subst hdrop
    obtain rfl := List.append_cancel_left heq
    exact ⟨hescape, hne⟩
  · rintro ⟨hescape, hne⟩
    exact ⟨bare, blanks, rfl, hescape, hblanks, hne⟩

end

end SourceSnapshot.Text
