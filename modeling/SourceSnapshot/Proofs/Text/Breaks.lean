import SourceSnapshot.Text.Line

/-!
# Line breaks

What it means to cut a text at LF and CRLF, told without the function that does it: no piece has an
LF in it, and a CR directly before an LF belongs to the break. There is just one such cut. A text in
which these are the only line breaks is cut at the same places when its breaks are unified first
and it is then cut at every line boundary, except for an empty piece at its end.
-/

namespace SourceSnapshot.Text

/-- The pieces of a text between LF or CRLF. -/
inductive IsCut : List Char → List (List Char) → Prop where
  | last {piece : List Char} (hpiece : '\n' ∉ piece) : IsCut piece [piece]
  | lf {piece rest : List Char} {pieces : List (List Char)} (hpiece : '\n' ∉ piece)
    (hlast : piece.getLast? ≠ some '\r') (h : IsCut rest pieces) :
    IsCut (piece ++ '\n' :: rest) (piece :: pieces)
  | crlf {piece rest : List Char} {pieces : List (List Char)} (hpiece : '\n' ∉ piece)
    (h : IsCut rest pieces) : IsCut (piece ++ '\r' :: '\n' :: rest) (piece :: pieces)

section

variable {c : Char} {piece rest : List Char}

/-- A character that starts no break belongs to the first piece. -/
theorem exists_piecesAtBreaks_cons (hlf : c ≠ '\n') (hcr : c = '\r' → rest.head? ≠ some '\n') :
    ∃ piece pieces, piecesAtBreaks rest = piece :: pieces ∧
      piecesAtBreaks (c :: rest) = (c :: piece) :: pieces := by
  obtain ⟨piece, pieces, hrest⟩ := List.exists_cons_of_ne_nil (piecesAtBreaks_ne_nil rest)
  refine ⟨piece, pieces, hrest, ?_⟩
  rw [piecesAtBreaks.eq_def]
  split
  · simp at *
  · rename_i heq
    obtain ⟨rfl, rfl⟩ := List.cons.inj heq
    simp at hcr
  · rename_i heq
    exact absurd (List.cons.inj heq).1 hlf
  · rename_i heq
    obtain ⟨rfl, rfl⟩ := List.cons.inj heq
    rw [hrest]

/-- What stands before a break without an LF of its own is the first piece. -/
theorem piecesAtBreaks_append (hpiece : '\n' ∉ piece) {pieces : List (List Char)}
    (hrest : piecesAtBreaks rest = [] :: pieces)
    (hlast : piece.getLast? = some '\r' → rest.head? ≠ some '\n') :
    piecesAtBreaks (piece ++ rest) = piece :: pieces := by
  induction piece with
  | nil => exact hrest
  | cons c piece ih =>
    simp only [List.mem_cons, not_or] at hpiece
    obtain ⟨hc, hpiece⟩ := hpiece
    have hcr : c = '\r' → (piece ++ rest).head? ≠ some '\n' := by
      rintro rfl
      cases piece with
      | nil => exact hlast rfl
      | cons d piece =>
        intro hhead
        obtain rfl : d = '\n' := by simpa using hhead
        simp at hpiece
    obtain ⟨first, others, hfirst, hcons⟩ := exists_piecesAtBreaks_cons (Ne.symm hc) hcr
    have hlast' : piece.getLast? = some '\r' → rest.head? ≠ some '\n' := by
      intro h
      exact hlast (by rw [List.getLast?_cons, h]; rfl)
    rw [ih hpiece hlast'] at hfirst
    obtain ⟨rfl, rfl⟩ := List.cons.inj hfirst
    exact hcons

/-- A character that starts no break belongs to the first piece of a cut. -/
theorem IsCut.cons {pieces : List (List Char)} (h : IsCut rest (piece :: pieces)) (hlf : c ≠ '\n')
    (hcr : c = '\r' → rest.head? ≠ some '\n') : IsCut (c :: rest) ((c :: piece) :: pieces) := by
  have hmem : '\n' ∉ piece → '\n' ∉ c :: piece := by
    intro hpiece
    simp [hpiece, hlf.symm]
  cases h with
  | last hpiece => exact .last (hmem hpiece)
  | lf hpiece hlast h =>
    refine .lf (hmem hpiece) ?_ h
    cases piece with
    | nil => simpa using hcr
    | cons d piece => rwa [List.getLast?_cons_cons]
  | crlf hpiece h => exact .crlf (hmem hpiece) h

theorem IsCut.eq_nil (h : IsCut rest [[]]) : rest = [] := by
  cases h with
  | last => rfl
  | lf _ _ h => cases h
  | crlf _ h => cases h

/-- The pieces are those of the one cut that there is. -/
theorem isCut_iff {cs : List Char} {pieces : List (List Char)} :
    IsCut cs pieces ↔ pieces = piecesAtBreaks cs := by
  constructor
  · intro h
    induction h with
    | last hpiece =>
      rename_i piece
      have happend : piecesAtBreaks (piece ++ []) = [piece] :=
        piecesAtBreaks_append hpiece rfl (by simp)
      rw [List.append_nil] at happend
      exact happend.symm
    | lf hpiece hlast h ih =>
      rw [piecesAtBreaks_append hpiece rfl fun hcr => absurd hcr hlast, ih]
    | crlf hpiece h ih =>
      rw [piecesAtBreaks_append hpiece rfl (by simp), ih]
  · rintro rfl
    fun_induction piecesAtBreaks cs with
    | case1 => exact .last (by simp)
    | case2 rest ih => exact .crlf (show '\n' ∉ [] by simp) ih
    | case3 rest ih => exact .lf (show '\n' ∉ [] by simp) (by simp) ih
    | case4 c rest _ _ hnil ih => exact absurd hnil (piecesAtBreaks_ne_nil rest)
    | case5 c rest hcrlf hlf piece pieces hrest ih =>
      rw [hrest] at ih
      refine ih.cons (by simpa using hlf) ?_
      rintro rfl hhead
      cases rest with
      | nil => simp at hhead
      | cons d more =>
        obtain rfl : d = '\n' := by simpa using hhead
        simp at hcrlf

end

/-- A text in which LF and CRLF are the only line breaks. -/
structure HasPlainBreaks (cs : List Char) : Prop where
  cr : ∀ i : Nat, cs[i]? = some '\r' → cs[i + 1]? = some '\n'
  others : ∀ c ∈ cs, c.toNat ∉ [0x0B, 0x0C, 0x1C, 0x1D, 0x1E, 0x85, 0x2028, 0x2029]

namespace HasPlainBreaks

variable {c : Char} {cs rest : List Char}

@[simp] theorem nil : HasPlainBreaks [] := ⟨by simp, by simp⟩

/-- Each character is judged by itself and the one behind it. -/
theorem cons_iff : HasPlainBreaks (c :: rest) ↔
    (c = '\r' → rest.head? = some '\n') ∧
      c.toNat ∉ [0x0B, 0x0C, 0x1C, 0x1D, 0x1E, 0x85, 0x2028, 0x2029] ∧ HasPlainBreaks rest := by
  constructor
  · rintro ⟨hcr, hothers⟩
    obtain ⟨hc, hrest⟩ := List.forall_mem_cons.mp hothers
    refine ⟨?_, hc, fun i hi => by simpa using hcr (i + 1) (by simpa using hi), hrest⟩
    rintro rfl
    simpa [List.head?_eq_getElem?] using hcr 0 rfl
  · rintro ⟨hhead, hc, hrest⟩
    refine ⟨fun i hi => ?_, List.forall_mem_cons.mpr ⟨hc, hrest.others⟩⟩
    cases i with
    | zero => simpa [List.head?_eq_getElem?] using hhead (Option.some.inj hi)
    | succ i => simpa using hrest.cr i (by simpa using hi)

theorem tail (h : HasPlainBreaks (c :: rest)) : HasPlainBreaks rest :=
  (cons_iff.mp h).2.2

theorem head?_of_cr (h : HasPlainBreaks ('\r' :: rest)) : rest.head? = some '\n' :=
  (cons_iff.mp h).1 rfl

/-- A character that is no LF and no CR is no line boundary. -/
theorem isLineBoundary_eq_false (h : HasPlainBreaks cs) (hc : c ∈ cs) (hlf : c ≠ '\n')
    (hcr : c ≠ '\r') : isLineBoundary c = false := by
  have hothers := h.others c hc
  have hlf' : c.toNat ≠ 10 := fun h => hlf (Char.toNat_inj.mp h)
  have hcr' : c.toNat ≠ 13 := fun h => hcr (Char.toNat_inj.mp h)
  simp only [List.mem_cons, List.not_mem_nil, or_false, not_or] at hothers
  simp only [isLineBoundary, Bool.or_eq_false_iff, Bool.and_eq_false_iff, decide_eq_false_iff_not,
    beq_eq_false_iff_ne]
  omega

end HasPlainBreaks

/-- A character that ends no line belongs to the first line. -/
theorem lines_cons {c : Char} {cs line : List Char} {others : List (List Char)}
    (hc : isLineBoundary c = false) (h : lines cs = line :: others) :
    lines (c :: cs) = (c :: line) :: others := by
  cases cs with
  | nil => simp [lines] at h
  | cons d more =>
    rw [lines.eq_def]
    split
    · simp at *
    · rename_i heq
      obtain ⟨rfl, -⟩ := List.cons.inj heq
      simp [isLineBoundary] at hc
    · rename_i heq
      obtain ⟨rfl, rfl⟩ := List.cons.inj heq
      simp [hc, h]

/-- A line break ends an empty line. -/
theorem lines_lf (cs : List Char) : lines ('\n' :: cs) = [] :: lines cs := by
  rw [lines.eq_def]
  split
  · simp at *
  · rename_i heq
    simp at heq
  · rename_i heq
    obtain ⟨rfl, rfl⟩ := List.cons.inj heq
    simp [isLineBoundary]

/-- Where LF and CRLF are the only breaks, the pieces between them are the lines of the text, and an
empty piece may stand behind them. -/
theorem piecesAtBreaks_eq_lines {cs : List Char} (h : HasPlainBreaks cs) :
    piecesAtBreaks cs = lines (unifyBreaks cs) ∨
      piecesAtBreaks cs = lines (unifyBreaks cs) ++ [[]] := by
  fun_induction piecesAtBreaks cs with
  | case1 => exact Or.inr rfl
  | case2 rest ih =>
    rw [unifyBreaks, lines_lf]
    exact (ih h.tail.tail).imp (congrArg _) (congrArg _)
  | case3 rest ih =>
    have hunify : unifyBreaks ('\n' :: rest) = '\n' :: unifyBreaks rest := rfl
    rw [hunify, lines_lf]
    exact (ih h.tail).imp (congrArg _) (congrArg _)
  | case4 c rest _ _ hnil ih => exact absurd hnil (piecesAtBreaks_ne_nil rest)
  | case5 c rest hcrlf hlf piece pieces hrest ih =>
    have hcr : c ≠ '\r' := by
      rintro rfl
      have hhead := h.head?_of_cr
      cases rest with
      | nil => simp at hhead
      | cons d more =>
        obtain rfl : d = '\n' := by simpa using hhead
        simp at hcrlf
    have hunify : unifyBreaks (c :: rest) = c :: unifyBreaks rest := by
      rw [unifyBreaks.eq_def]
      split
      · simp at *
      · rename_i heq
        exact absurd (List.cons.inj heq).1 hcr
      · rename_i heq
        obtain ⟨rfl, rfl⟩ := List.cons.inj heq
        rw [if_neg hcr]
    have hboundary : isLineBoundary c = false :=
      h.isLineBoundary_eq_false List.mem_cons_self (by simpa using hlf) hcr
    rw [hrest] at ih
    rw [hunify]
    rcases ih h.tail with hlines | hlines
    · exact Or.inl (lines_cons hboundary hlines.symm).symm
    · cases hline : lines (unifyBreaks rest) with
      | nil =>
        rw [hline, List.nil_append] at hlines
        obtain rfl : rest = [] := (isCut_iff.mpr (hlines ▸ hrest.symm)).eq_nil
        obtain ⟨rfl, rfl⟩ := List.cons.inj hlines
        left
        simp [unifyBreaks, lines, hboundary]
      | cons line others =>
        rw [hline] at hlines
        obtain ⟨rfl, rfl⟩ := List.cons.inj hlines
        exact Or.inr (by rw [lines_cons hboundary hline]; rfl)

end SourceSnapshot.Text
