import Mathlib.Data.List.TakeWhile
import SourceSnapshot.Text.Blank
import SourceSnapshot.Text.Split

/-!
# Pieces and endings of texts

A text that is cut at a character is taken apart piece by piece, and the last piece is its ending
behind the last place of the character. What an ending is dropped from is a beginning of the text.
-/

namespace SourceSnapshot.Text

theorem dropTrailing_prefix (p : Char → Bool) (cs : List Char) : dropTrailing p cs <+: cs := by
  rw [← List.reverse_suffix, dropTrailing, List.reverse_reverse]
  exact List.dropWhile_suffix p

/-- The last character that is left is one to keep. -/
theorem getLast?_dropTrailing {p : Char → Bool} {cs : List Char} {c : Char}
    (h : (dropTrailing p cs).getLast? = some c) : p c = false := by
  rw [dropTrailing, List.getLast?_reverse] at h
  have hd := List.head?_dropWhile_not p cs.reverse
  rw [h] at hd
  exact hd

/-- A text whose last character is one to keep is left as it is. -/
theorem dropTrailing_eq_self {p : Char → Bool} {cs : List Char}
    (h : ∀ c, cs.getLast? = some c → p c = false) : dropTrailing p cs = cs := by
  rcases List.eq_nil_or_concat cs with rfl | ⟨before, c, rfl⟩
  · rfl
  · rw [List.concat_eq_append] at h ⊢
    rw [dropTrailing_append_singleton, h c List.getLast?_concat]
    rfl

/-- A first character that is one to keep stays. -/
theorem dropTrailing_cons_of_eq_false {p : Char → Bool} {c : Char} (h : p c = false)
    (cs : List Char) : dropTrailing p (c :: cs) = c :: dropTrailing p cs := by
  rw [dropTrailing, dropTrailing, List.reverse_cons, List.dropWhile_append]
  split
  · rename_i hempty
    rw [List.isEmpty_iff.mp hempty]
    simp [h]
  · simp

theorem dropTrailing_append {p : Char → Bool} (cs : List Char) {ending : List Char}
    (h : ∀ c ∈ ending, p c = true) : dropTrailing p (cs ++ ending) = dropTrailing p cs := by
  rw [dropTrailing, List.reverse_append, List.dropWhile_append_of_pos (by simpa using h)]
  rfl

/-- What is dropped is an ending of characters in `p`. -/
theorem exists_dropTrailing_append (p : Char → Bool) (cs : List Char) :
    ∃ ending, cs = dropTrailing p cs ++ ending ∧ ∀ c ∈ ending, p c = true := by
  refine ⟨(cs.reverse.takeWhile p).reverse, ?_, fun c hc => ?_⟩
  · rw [dropTrailing, ← List.reverse_append, List.takeWhile_append_dropWhile,
      List.reverse_reverse]
  · exact List.mem_takeWhile_imp (List.mem_reverse.mp hc)

/-- Nothing is left of a text that is made of the trimmed characters. -/
theorem trim_eq_nil_iff {p : Char → Bool} {cs : List Char} :
    trim p cs = [] ↔ cs.all p = true := by
  rw [List.all_eq_true, ← List.dropWhile_eq_nil_iff, trim]
  constructor
  · intro h
    cases hrest : cs.dropWhile p with
    | nil => rfl
    | cons c rest =>
      -- The first character that is left is none to trim, so it stays.
      have hc : p c = false := by
        have hfirst := List.head?_dropWhile_not p cs
        rwa [hrest] at hfirst
      rw [hrest, dropTrailing_cons_of_eq_false hc] at h
      cases h
  · intro h
    rw [h, dropTrailing_nil]

theorem endsWith_singleton {cs : List Char} {c : Char} :
    endsWith cs [c] = true ↔ cs.getLast? = some c := by
  rw [endsWith, List.isSuffixOf_iff_suffix, List.getLast?_eq_some_iff]
  exact ⟨fun ⟨before, h⟩ => ⟨before, h.symm⟩, fun ⟨before, h⟩ => ⟨before, h.symm⟩⟩

/-- A text ends with another one only if both have the same last character. -/
theorem endsWith_eq_false {cs ending : List Char} (hne : ending ≠ [])
    (h : cs.getLast? ≠ ending.getLast?) : endsWith cs ending = false := by
  rw [Bool.eq_false_iff, Ne, endsWith, List.isSuffixOf_iff_suffix]
  rintro ⟨before, rfl⟩
  rw [List.getLast?_append, List.getLast?_eq_some_getLast hne] at h
  exact h rfl

section

variable {at_ : Char} {cs : List Char}

theorem splitOn_cons_self (rest : List Char) :
    splitOn at_ (at_ :: rest) = [] :: splitOn at_ rest := by
  rw [splitOn, if_pos rfl]

/-- Any other character belongs to the first piece. -/
theorem splitOn_cons_of_ne {c : Char} (h : c ≠ at_) (rest : List Char) :
    ∃ piece pieces, splitOn at_ rest = piece :: pieces ∧
      splitOn at_ (c :: rest) = (c :: piece) :: pieces := by
  obtain ⟨piece, pieces, hrest⟩ := List.exists_cons_of_ne_nil (splitOn_ne_nil at_ rest)
  refine ⟨piece, pieces, hrest, ?_⟩
  rw [splitOn, if_neg h, hrest]

/-- No piece has the character in it. -/
theorem notMem_of_mem_splitOn {piece : List Char} (h : piece ∈ splitOn at_ cs) : at_ ∉ piece := by
  induction cs generalizing piece with
  | nil =>
    obtain rfl := List.mem_singleton.mp h
    exact List.not_mem_nil
  | cons c rest ih =>
    by_cases hc : c = at_
    · subst hc
      rw [splitOn_cons_self] at h
      rcases List.mem_cons.mp h with rfl | h
      · exact List.not_mem_nil
      · exact ih h
    · obtain ⟨first, pieces, hrest, hcons⟩ := splitOn_cons_of_ne hc rest
      rw [hcons] at h
      rw [hrest] at ih
      rcases List.mem_cons.mp h with rfl | h
      · intro hmem
        rcases List.mem_cons.mp hmem with rfl | hmem
        · exact hc rfl
        · exact ih (List.mem_cons_self ..) hmem
      · exact ih (List.mem_cons_of_mem first h)

/-- A text without the character is one piece. -/
theorem splitOn_of_notMem (h : at_ ∉ cs) : splitOn at_ cs = [cs] := by
  induction cs with
  | nil => rfl
  | cons c rest ih =>
    have hc : c ≠ at_ := fun hc => h (hc ▸ List.mem_cons_self ..)
    rw [splitOn, if_neg hc, ih (List.not_mem_of_not_mem_cons h)]

/-- A text that is cut at one place of the character has the pieces of both parts. -/
theorem splitOn_append (before rest : List Char) :
    splitOn at_ (before ++ at_ :: rest) = splitOn at_ before ++ splitOn at_ rest := by
  induction before with
  | nil => exact splitOn_cons_self rest
  | cons c before ih =>
    by_cases hc : c = at_
    · subst hc
      rw [List.cons_append, splitOn_cons_self, splitOn_cons_self, ih, List.cons_append]
    · obtain ⟨piece, pieces, hbefore, hcons⟩ := splitOn_cons_of_ne hc before
      rw [hbefore] at ih
      rw [List.cons_append, splitOn, if_neg hc, ih, hcons]
      rfl

theorem splitOn_append_cons {first : List Char} (h : at_ ∉ first) (rest : List Char) :
    splitOn at_ (first ++ at_ :: rest) = first :: splitOn at_ rest := by
  rw [splitOn_append, splitOn_of_notMem h, List.singleton_append]

theorem splitOn_ne_singleton_nil (h : cs ≠ []) : splitOn at_ cs ≠ [[]] := by
  intro hpieces
  rw [← intercalate_splitOn at_ cs, hpieces] at h
  exact h rfl

/-- The last piece is the whole text or stands behind the last place of the character. -/
theorem eq_or_eq_append_of_getLast?_splitOn {last : List Char}
    (h : (splitOn at_ cs).getLast? = some last) :
    cs = last ∨ ∃ before, cs = before ++ at_ :: last := by
  induction cs generalizing last with
  | nil => exact Or.inl (Option.some.inj h)
  | cons c rest ih =>
    by_cases hc : c = at_
    · subst hc
      rw [splitOn_cons_self, List.getLast?_cons_of_ne_nil (splitOn_ne_nil c rest)] at h
      rcases ih h with rfl | ⟨before, rfl⟩
      · exact Or.inr ⟨[], rfl⟩
      · exact Or.inr ⟨c :: before, rfl⟩
    · obtain ⟨first, pieces, hrest, hcons⟩ := splitOn_cons_of_ne hc rest
      rw [hcons] at h
      cases pieces with
      | nil =>
        obtain rfl : c :: first = last := Option.some.inj h
        left
        rw [← intercalate_splitOn at_ (c :: rest), hcons]
        simp
      | cons next others =>
        rw [List.getLast?_cons_cons] at h
        have hlast : (splitOn at_ rest).getLast? = some last := by
          rw [hrest, List.getLast?_cons_cons, h]
        rcases ih hlast with rfl | ⟨before, rfl⟩
        · rw [splitOn_of_notMem (notMem_of_mem_splitOn (List.mem_of_getLast? hlast))] at hrest
          cases hrest
        · exact Or.inr ⟨c :: before, rfl⟩

/-- What stands behind a place of the character, and does not have it, is the last piece. -/
theorem getLast?_splitOn_append_cons (before : List Char) {last : List Char} (h : at_ ∉ last) :
    (splitOn at_ (before ++ at_ :: last)).getLast? = some last := by
  have hpieces := List.getLast?_eq_some_getLast (splitOn_ne_nil at_ (before ++ at_ :: last))
  generalize (splitOn at_ (before ++ at_ :: last)).getLast _ = piece at hpieces
  have hpiece := notMem_of_mem_splitOn (List.mem_of_getLast? hpieces)
  rcases eq_or_eq_append_of_getLast?_splitOn hpieces with rfl | ⟨front, heq⟩
  · exact absurd (List.mem_append_right before List.mem_cons_self) hpiece
  · -- Behind the last place of the character stands one text only.
    rw [hpieces]
    rcases List.append_eq_append_iff.mp heq with ⟨more, -, hmore⟩ | ⟨more, -, hmore⟩
    · cases more with
      | nil => exact congrArg some (List.cons.inj hmore).2.symm
      | cons c more =>
        rw [(List.cons.inj hmore).2] at h
        exact absurd (List.mem_append_right more List.mem_cons_self) h
    · cases more with
      | nil => exact congrArg some (List.cons.inj hmore).2
      | cons c more =>
        rw [(List.cons.inj hmore).2] at hpiece
        exact absurd (List.mem_append_right more List.mem_cons_self) hpiece

/-- A text ends with the character if there are several pieces and the last one is empty. -/
theorem getLast?_splitOn_eq_nil_iff (hne : cs ≠ []) :
    (splitOn at_ cs).getLast? = some [] ↔ cs.getLast? = some at_ := by
  constructor
  · intro h
    rcases eq_or_eq_append_of_getLast?_splitOn h with rfl | ⟨before, rfl⟩
    · exact absurd rfl hne
    · exact List.getLast?_concat
  · intro h
    have hpieces := List.getLast?_eq_some_getLast (splitOn_ne_nil at_ cs)
    have hlast := notMem_of_mem_splitOn (List.mem_of_getLast? hpieces)
    rcases eq_or_eq_append_of_getLast?_splitOn hpieces with heq | ⟨before, heq⟩
    · rw [← heq] at hlast
      exact absurd (List.mem_of_getLast? h) hlast
    · rw [hpieces]
      congr 1
      generalize (splitOn at_ cs).getLast (splitOn_ne_nil at_ cs) = last at heq hlast
      by_cases hlne : last = []
      · exact hlne
      · rw [heq, List.getLast?_append, List.getLast?_cons_of_ne_nil hlne,
          List.getLast?_eq_some_getLast hlne, Option.some_or] at h
        exact absurd (Option.some.inj h ▸ List.getLast_mem hlne) hlast

/-- What is put behind a text, without the character, belongs to the last piece. -/
theorem exists_splitOn_append (at_ : Char) (cs : List Char) :
    ∃ pieces before last, cs = before ++ last ∧ (before = [] ∨ before.getLast? = some at_) ∧
      ∀ ending, at_ ∉ ending → splitOn at_ (cs ++ ending) = pieces ++ [last ++ ending] := by
  have hpieces := List.getLast?_eq_some_getLast (splitOn_ne_nil at_ cs)
  generalize (splitOn at_ cs).getLast _ = last at hpieces
  have hlast := notMem_of_mem_splitOn (List.mem_of_getLast? hpieces)
  rcases eq_or_eq_append_of_getLast?_splitOn hpieces with rfl | ⟨before, rfl⟩
  · refine ⟨[], [], cs, rfl, Or.inl rfl, fun ending hending => ?_⟩
    exact splitOn_of_notMem (by simp [hlast, hending])
  · refine ⟨splitOn at_ before, before ++ [at_], last, by simp, Or.inr (by simp), ?_⟩
    intro ending hending
    have hmore : at_ ∉ last ++ ending := by simp [hlast, hending]
    rw [List.append_assoc, List.cons_append, splitOn_append, splitOn_of_notMem hmore]

/-- Lines that are each ended by a line break are the pieces of the text, and the empty piece behind
the last line break is one more. -/
theorem splitOn_join_lines {lines : List String} (h : ∀ line ∈ lines, '\n' ∉ line.toList) :
    splitOn '\n' (String.join (lines.map (· ++ "\n"))).toList =
      lines.map String.toList ++ [[]] := by
  induction lines with
  | nil => simp [splitOn]
  | cons line rest ih =>
    obtain ⟨hline, hrest⟩ := List.forall_mem_cons.mp h
    have htext : (String.join ((line :: rest).map (· ++ "\n"))).toList =
        line.toList ++ '\n' :: (String.join (rest.map (· ++ "\n"))).toList := by
      simp
    rw [htext, splitOn_append_cons hline, ih hrest, List.map_cons, List.cons_append]

end

end SourceSnapshot.Text
