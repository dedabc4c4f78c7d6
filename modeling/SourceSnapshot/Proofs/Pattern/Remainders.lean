import SourceSnapshot.Pattern.Search

/-!
# What each piece matches

A sequence of pieces fits a text if some choice of what remains behind each of them lets the next
ones fit. Here the choices of every piece are described once, as ways to cut the text in two.
-/

namespace SourceSnapshot

namespace Text.Case

/-- No character but the slash has the slash as its lower form. -/
theorem eq_of_lower_eq_slash {n : Nat} (h : lower n = 47) : n = 47 := by
  have hruns : ∀ run ∈ CaseTable.lowering,
      47 - run.shift < Int.ofNat run.first ∨ Int.ofNat run.last < 47 - run.shift := by
    decide +kernel
  rw [lower, image] at h
  split at h
  · rename_i run hfind
    have hcovers := List.find?_some hfind
    simp only [CaseRun.covers, Bool.and_eq_true, decide_eq_true_eq] at hcovers
    rw [CaseRun.move] at h
    rcases hruns run (List.mem_of_find?_eq_some hfind) with hlt | hlt
    · simp only [Int.ofNat_eq_natCast] at h hlt
      omega
    · simp only [Int.ofNat_eq_natCast] at h hlt
      omega
  · exact h

/-- No character but the slash agrees with the slash up to case. -/
theorem eq_slash_of_agrees {c : Char} (h : agrees c '/' = true) : c = '/' := by
  have hgroups : ∀ group ∈ CaseTable.equivalents, 47 ∉ group := by
    decide +kernel
  have hslash : lower '/'.toNat = 47 := by
    decide +kernel
  simp only [agrees, hslash, Bool.or_eq_true, beq_iff_eq, List.contains_iff_mem] at h
  rcases h with h | h
  · exact Char.toNat_inj.mp (eq_of_lower_eq_slash h.symm)
  · rw [siblings] at h
    split at h
    · rename_i group hfind
      exact absurd (List.mem_filter.mp h).1 (hgroups group (List.mem_of_find?_eq_some hfind))
    · cases h

end Text.Case

namespace Pattern

variable {ignoreCase : Bool}

theorem eq_slash_of_sameChar {c : Char} (h : sameChar ignoreCase c '/' = true) : c = '/' := by
  cases ignoreCase with
  | false => exact beq_iff_eq.mp h
  | true => exact Text.Case.eq_slash_of_agrees h

/-- Behind a run of characters in `p` remains what stands behind some beginning of such
characters. -/
theorem mem_runRemainders {p : Char → Bool} {cs rest : List Char} :
    rest ∈ runRemainders p cs ↔ ∃ run, cs = run ++ rest ∧ ∀ c ∈ run, p c = true := by
  induction cs with
  | nil =>
    rw [runRemainders, List.mem_singleton]
    constructor
    · rintro rfl
      exact ⟨[], rfl, by simp⟩
    · rintro ⟨run, h, -⟩
      exact (List.append_eq_nil_iff.mp h.symm).2
  | cons c cs ih =>
    rw [runRemainders, List.mem_cons]
    constructor
    · rintro (rfl | h)
      · exact ⟨[], rfl, by simp⟩
      · split at h
        · rename_i hc
          obtain ⟨run, rfl, hrun⟩ := ih.mp h
          exact ⟨c :: run, rfl, List.forall_mem_cons.mpr ⟨hc, hrun⟩⟩
        · cases h
    · rintro ⟨run, h, hrun⟩
      cases run with
      | nil => exact Or.inl h.symm
      | cons d run =>
        obtain ⟨rfl, rfl⟩ := List.cons.inj h
        obtain ⟨hc, hrun⟩ := List.forall_mem_cons.mp hrun
        right
        rw [if_pos hc]
        exact ih.mpr ⟨run, rfl, hrun⟩

/-- Behind some characters in `p` remains what stands behind a beginning of such characters that is
not empty. -/
theorem mem_afterSome {p : Char → Bool} {cs rest : List Char} :
    rest ∈ afterSome p cs ↔ ∃ run, run ≠ [] ∧ cs = run ++ rest ∧ ∀ c ∈ run, p c = true := by
  cases cs with
  | nil =>
    constructor
    · intro h
      cases h
    · rintro ⟨run, hne, h, -⟩
      exact absurd (List.append_eq_nil_iff.mp h.symm).1 hne
  | cons c cs =>
    rw [afterSome]
    constructor
    · intro h
      split at h
      · rename_i hc
        obtain ⟨run, rfl, hrun⟩ := mem_runRemainders.mp (List.mem_reverse.mp h)
        exact ⟨c :: run, by simp, rfl, List.forall_mem_cons.mpr ⟨hc, hrun⟩⟩
      · cases h
    · rintro ⟨run, hne, h, hrun⟩
      obtain ⟨d, run, rfl⟩ := List.exists_cons_of_ne_nil hne
      obtain ⟨rfl, rfl⟩ := List.cons.inj h
      obtain ⟨hc, hrun⟩ := List.forall_mem_cons.mp hrun
      rw [if_pos hc]
      exact List.mem_reverse.mpr (mem_runRemainders.mpr ⟨run, rfl, hrun⟩)

/-- Behind one character in `p` remains what stands behind the first character. -/
theorem mem_afterOne {p : Char → Bool} {cs rest : List Char} :
    rest ∈ afterOne p cs ↔ ∃ c, cs = c :: rest ∧ p c = true := by
  cases cs with
  | nil => simp [afterOne]
  | cons c cs =>
    rw [afterOne]
    constructor
    · intro h
      split at h
      · rename_i hc
        obtain rfl := List.mem_singleton.mp h
        exact ⟨c, rfl, hc⟩
      · cases h
    · rintro ⟨d, h, hc⟩
      obtain ⟨rfl, rfl⟩ := List.cons.inj h
      rw [if_pos hc]
      exact List.mem_singleton_self cs

/-- Behind a slash remains what stands behind a first character that is a slash. -/
theorem afterSlash?_eq_some_iff {cs rest : List Char} :
    afterSlash? cs = some rest ↔ cs = '/' :: rest := by
  rw [afterSlash?.eq_def]
  split
  · simp [eq_comm]
  · rename_i hne
    constructor
    · intro h
      cases h
    · intro h
      exact absurd h (hne rest)

/-- All characters differ from one that does not occur. -/
theorem forall_mem_bne {cs : List Char} {d : Char} : (∀ c ∈ cs, (c != d) = true) ↔ d ∉ cs := by
  simp only [bne_iff_ne]
  constructor
  · intro h hd
    exact h d hd rfl
  · rintro h c hc rfl
    exact h hc

/-- The texts that a piece can match where another text follows. -/
def Piece.Takes (ignoreCase : Bool) (taken rest : List Char) : Piece → Prop
  | .leadingDirectories => taken = [] ∨ ∃ above, above ≠ [] ∧ '\n' ∉ above ∧ taken = above ++ ['/']
  | .innerDirectories => taken = [] ∨ ∃ below, below ≠ [] ∧ '\n' ∉ below ∧ taken = '/' :: below
  | .slash => taken = ['/']
  | .directoryMark => taken = ['/']
  | .name => taken ≠ [] ∧ '/' ∉ taken
  | .run => '/' ∉ taken
  | .one => ∃ c, taken = [c] ∧ c ≠ '/'
  | .literal d => ∃ c, taken = [c] ∧ sameChar ignoreCase d c = true
  | .bracket b => ∃ c, taken = [c] ∧ b.accepts ignoreCase c = true
  | .ending => taken = ['/'] ∨ taken = [] ∧ isAtEnd rest = true
  | .anything => ∃ c, taken = [c] ∧ c ≠ '\n'

/-- Behind one character in `p` remains what stands behind a text of one character. -/
theorem mem_afterOne_iff_exists_append {p : Char → Bool} {cs rest : List Char} {P : Char → Prop}
    (h : ∀ c, p c = true ↔ P c) :
    rest ∈ afterOne p cs ↔ ∃ taken, cs = taken ++ rest ∧ ∃ c, taken = [c] ∧ P c := by
  rw [mem_afterOne]
  constructor
  · rintro ⟨c, rfl, hc⟩
    exact ⟨[c], rfl, c, rfl, (h c).mp hc⟩
  · rintro ⟨_, rfl, c, rfl, hc⟩
    exact ⟨c, rfl, (h c).mpr hc⟩

/-- Behind a slash remains what stands behind a text that is a slash. -/
theorem mem_afterSlash?_iff_exists_append {cs rest : List Char} :
    rest ∈ (afterSlash? cs).toList ↔ ∃ taken, cs = taken ++ rest ∧ taken = ['/'] := by
  rw [Option.mem_toList, afterSlash?_eq_some_iff]
  constructor
  · rintro rfl
    exact ⟨['/'], rfl, rfl⟩
  · rintro ⟨_, rfl, rfl⟩
    rfl

/-- Behind a piece remains what stands behind a text that the piece can match. -/
theorem Piece.mem_remainders_iff {piece : Piece} {cs rest : List Char} :
    rest ∈ piece.remainders ignoreCase cs ↔
      ∃ taken, cs = taken ++ rest ∧ piece.Takes ignoreCase taken rest := by
  cases piece with
  | leadingDirectories =>
    simp only [remainders, Takes, List.mem_append, List.mem_filterMap, List.mem_singleton]
    constructor
    · rintro (⟨behind, hbehind, hslash⟩ | rfl)
      · obtain ⟨above, hne, rfl, habove⟩ := mem_afterSome.mp hbehind
        obtain rfl := afterSlash?_eq_some_iff.mp hslash
        exact ⟨above ++ ['/'], List.append_cons above '/' rest,
          Or.inr ⟨above, hne, forall_mem_bne.mp habove, rfl⟩⟩
      · exact ⟨[], rfl, Or.inl rfl⟩
    · rintro ⟨_, rfl, rfl | ⟨above, hne, habove, rfl⟩⟩
      · exact Or.inr rfl
      · refine Or.inl ⟨'/' :: rest, mem_afterSome.mpr ⟨above, hne, ?_, forall_mem_bne.mpr habove⟩,
          rfl⟩
        exact (List.append_cons above '/' rest).symm
  | innerDirectories =>
    simp only [remainders, Takes, List.mem_append, List.mem_singleton]
    constructor
    · rintro (hrest | rfl)
      · cases hslash : afterSlash? cs with
        | none =>
          rw [hslash] at hrest
          cases hrest
        | some behind =>
          simp only [hslash] at hrest
          obtain rfl := afterSlash?_eq_some_iff.mp hslash
          obtain ⟨below, hne, rfl, hbelow⟩ := mem_afterSome.mp hrest
          exact ⟨'/' :: below, rfl, Or.inr ⟨below, hne, forall_mem_bne.mp hbelow, rfl⟩⟩
      · exact ⟨[], rfl, Or.inl rfl⟩
    · rintro ⟨_, rfl, rfl | ⟨below, hne, hbelow, rfl⟩⟩
      · exact Or.inr rfl
      · exact Or.inl (mem_afterSome.mpr ⟨below, hne, rfl, forall_mem_bne.mpr hbelow⟩)
  | slash | directoryMark => exact mem_afterSlash?_iff_exists_append
  | name =>
    simp only [remainders, Takes, mem_afterSome]
    constructor
    · rintro ⟨run, hne, rfl, hrun⟩
      exact ⟨run, rfl, hne, forall_mem_bne.mp hrun⟩
    · rintro ⟨run, rfl, hne, hrun⟩
      exact ⟨run, hne, rfl, forall_mem_bne.mpr hrun⟩
  | run =>
    simp only [remainders, Takes, List.mem_reverse, mem_runRemainders]
    exact exists_congr fun run => and_congr_right fun _ => forall_mem_bne
  | one => exact mem_afterOne_iff_exists_append fun c => bne_iff_ne
  | literal d => exact mem_afterOne_iff_exists_append fun c => Iff.rfl
  | bracket b => exact mem_afterOne_iff_exists_append fun c => Iff.rfl
  | ending =>
    simp only [remainders, Takes, List.mem_append, mem_afterSlash?_iff_exists_append]
    constructor
    · rintro (⟨taken, rfl, htaken⟩ | hrest)
      · exact ⟨taken, rfl, Or.inl htaken⟩
      · split at hrest
        · rename_i hend
          obtain rfl := List.mem_singleton.mp hrest
          exact ⟨[], rfl, Or.inr ⟨rfl, hend⟩⟩
        · cases hrest
    · rintro ⟨taken, rfl, htaken | ⟨rfl, hend⟩⟩
      · exact Or.inl ⟨taken, rfl, htaken⟩
      · right
        rw [List.nil_append, if_pos hend]
        exact List.mem_singleton_self rest
  | anything => exact mem_afterOne_iff_exists_append fun c => bne_iff_ne

/-- The pieces match from the start of the text on. -/
def Fits (ignoreCase : Bool) (pieces : List Piece) (cs : List Char) : Prop :=
  (matchFrom ignoreCase pieces cs).isSome = true

theorem fits_nil (cs : List Char) : Fits ignoreCase [] cs := rfl

/-- Pieces fit if the first one can match a beginning behind which the others fit. -/
theorem fits_cons {piece : Piece} {pieces : List Piece} {cs : List Char} :
    Fits ignoreCase (piece :: pieces) cs ↔
      ∃ taken rest, cs = taken ++ rest ∧ piece.Takes ignoreCase taken rest ∧
        Fits ignoreCase pieces rest := by
  rw [Fits, matchFrom, List.findSome?_isSome_iff]
  simp only [Piece.mem_remainders_iff]
  constructor
  · rintro ⟨rest, ⟨taken, hcs, htaken⟩, hfits⟩
    exact ⟨taken, rest, hcs, htaken, hfits⟩
  · rintro ⟨taken, rest, hcs, htaken, hfits⟩
    exact ⟨rest, ⟨taken, hcs, htaken⟩, hfits⟩

theorem isFound_fromStart {pieces : List Piece} {cs : List Char} :
    (Expression.fromStart pieces).isFound ignoreCase cs = true ↔ Fits ignoreCase pieces cs :=
  Iff.rfl

theorem mem_endings {cs rest : List Char} : rest ∈ endings cs ↔ rest <:+ cs := by
  induction cs with
  | nil => simp [endings]
  | cons c cs ih => rw [endings, List.mem_cons, ih, List.suffix_cons_iff]

theorem isFound_anywhere {piece : Piece} {cs : List Char} :
    (Expression.anywhere piece).isFound ignoreCase cs = true ↔
      ∃ rest, rest <:+ cs ∧ Fits ignoreCase [piece] rest := by
  rw [Expression.isFound, Expression.search?, List.findSome?_isSome_iff]
  exact exists_congr fun rest => and_congr_left fun _ => mem_endings

section

variable {pieces : List Piece} {cs : List Char}

/-- A slash is matched by itself. -/
theorem fits_slash :
    Fits ignoreCase (.slash :: pieces) cs ↔
      ∃ rest, cs = '/' :: rest ∧ Fits ignoreCase pieces rest := by
  rw [fits_cons]
  constructor
  · rintro ⟨_, rest, hcs, rfl, hfits⟩
    exact ⟨rest, hcs, hfits⟩
  · rintro ⟨rest, hcs, hfits⟩
    exact ⟨['/'], rest, hcs, rfl, hfits⟩

theorem fits_directoryMark :
    Fits ignoreCase (.directoryMark :: pieces) cs ↔ Fits ignoreCase (.slash :: pieces) cs := by
  rw [fits_cons, fits_cons]
  rfl

theorem fits_run :
    Fits ignoreCase (.run :: pieces) cs ↔
      ∃ run rest, cs = run ++ rest ∧ '/' ∉ run ∧ Fits ignoreCase pieces rest :=
  fits_cons

theorem fits_name :
    Fits ignoreCase (.name :: pieces) cs ↔
      ∃ run rest, run ≠ [] ∧ cs = run ++ rest ∧ '/' ∉ run ∧ Fits ignoreCase pieces rest := by
  rw [fits_cons]
  simp only [Piece.Takes, and_assoc, and_left_comm]

/-- A piece that matches one character takes the first one of the text. -/
theorem fits_cons_of_takes_one {piece : Piece} {P : Char → Prop}
    (h : ∀ taken rest, piece.Takes ignoreCase taken rest ↔ ∃ c, taken = [c] ∧ P c) :
    Fits ignoreCase (piece :: pieces) cs ↔
      ∃ c rest, cs = c :: rest ∧ P c ∧ Fits ignoreCase pieces rest := by
  rw [fits_cons]
  constructor
  · rintro ⟨taken, rest, rfl, htaken, hfits⟩
    obtain ⟨c, rfl, hc⟩ := (h taken rest).mp htaken
    exact ⟨c, rest, rfl, hc, hfits⟩
  · rintro ⟨c, rest, rfl, hc, hfits⟩
    exact ⟨[c], rest, rfl, (h [c] rest).mpr ⟨c, rfl, hc⟩, hfits⟩

theorem fits_one :
    Fits ignoreCase (.one :: pieces) cs ↔
      ∃ c rest, cs = c :: rest ∧ c ≠ '/' ∧ Fits ignoreCase pieces rest :=
  fits_cons_of_takes_one fun _ _ => Iff.rfl

theorem fits_literal {d : Char} :
    Fits ignoreCase (.literal d :: pieces) cs ↔
      ∃ c rest, cs = c :: rest ∧ sameChar ignoreCase d c = true ∧
        Fits ignoreCase pieces rest :=
  fits_cons_of_takes_one fun _ _ => Iff.rfl

/-- Directories in front are skipped up to a slash, or not at all. -/
theorem fits_leadingDirectories :
    Fits ignoreCase (.leadingDirectories :: pieces) cs ↔
      Fits ignoreCase pieces cs ∨
        ∃ above rest, above ≠ [] ∧ cs = above ++ '/' :: rest ∧ '\n' ∉ above ∧
          Fits ignoreCase pieces rest := by
  rw [fits_cons]
  constructor
  · rintro ⟨_, rest, rfl, rfl | ⟨above, hne, habove, rfl⟩, hfits⟩
    · exact Or.inl hfits
    · exact Or.inr ⟨above, rest, hne, (List.append_cons above '/' rest).symm, habove, hfits⟩
  · rintro (hfits | ⟨above, rest, hne, rfl, habove, hfits⟩)
    · exact ⟨[], cs, rfl, Or.inl rfl, hfits⟩
    · exact ⟨above ++ ['/'], rest, List.append_cons above '/' rest,
        Or.inr ⟨above, hne, habove, rfl⟩, hfits⟩

/-- Directories in the middle are skipped behind a slash, or not at all. -/
theorem fits_innerDirectories :
    Fits ignoreCase (.innerDirectories :: pieces) cs ↔
      Fits ignoreCase pieces cs ∨
        ∃ below rest, below ≠ [] ∧ cs = '/' :: (below ++ rest) ∧ '\n' ∉ below ∧
          Fits ignoreCase pieces rest := by
  rw [fits_cons]
  constructor
  · rintro ⟨_, rest, rfl, rfl | ⟨below, hne, hbelow, rfl⟩, hfits⟩
    · exact Or.inl hfits
    · exact Or.inr ⟨below, rest, hne, rfl, hbelow, hfits⟩
  · rintro (hfits | ⟨below, rest, hne, rfl, hbelow, hfits⟩)
    · exact ⟨[], cs, rfl, Or.inl rfl, hfits⟩
    · exact ⟨'/' :: below, rest, rfl, Or.inr ⟨below, hne, hbelow, rfl⟩, hfits⟩

/-- An ending is a slash or, with nothing behind it, the end of the text. -/
theorem fits_ending :
    Fits ignoreCase [.ending] cs ↔ (∃ rest, cs = '/' :: rest) ∨ isAtEnd cs = true := by
  rw [fits_cons]
  constructor
  · rintro ⟨_, rest, rfl, rfl | ⟨rfl, hend⟩, -⟩
    · exact Or.inl ⟨rest, rfl⟩
    · exact Or.inr hend
  · rintro (⟨rest, rfl⟩ | hend)
    · exact ⟨['/'], rest, rfl, Or.inl rfl, fits_nil rest⟩
    · exact ⟨[], cs, rfl, Or.inr ⟨rfl, hend⟩, fits_nil cs⟩

theorem fits_anything :
    Fits ignoreCase [.anything] cs ↔ ∃ c rest, cs = c :: rest ∧ c ≠ '\n' := by
  rw [fits_cons_of_takes_one fun _ _ => Iff.rfl]
  simp only [fits_nil, and_true]

end

end Pattern

end SourceSnapshot
