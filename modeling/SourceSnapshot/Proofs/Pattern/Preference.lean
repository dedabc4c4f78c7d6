import SourceSnapshot.Proofs.Pattern.Directories

/-!
# The preferred match

Every piece prefers to take more of a text, and a search returns the first match that works out. For
pieces that are closed by a slash these choices add up: where they can take a whole text at all, the
preferred match takes the whole text. What a piece gives up by taking less is left to the pieces
behind it, and they could only use it if two slashes stood in a row.
-/

namespace SourceSnapshot.Pattern

variable {ignoreCase : Bool}

/-- The beginnings of a text come shortest first, so what remains gets shorter. -/
theorem pairwise_runRemainders (p : Char → Bool) (cs : List Char) :
    (runRemainders p cs).Pairwise fun one next => next.length ≤ one.length := by
  induction cs with
  | nil => exact List.pairwise_singleton _ _
  | cons c cs ih =>
    rw [runRemainders, List.pairwise_cons]
    constructor
    · intro rest hrest
      split at hrest
      · obtain ⟨run, rfl, -⟩ := mem_runRemainders.mp hrest
        simp only [List.length_cons, List.length_append]
        omega
      · cases hrest
    · split
      · exact ih
      · exact List.Pairwise.nil

/-- Behind one or more characters the longest run comes first. -/
theorem pairwise_afterSome (p : Char → Bool) (cs : List Char) :
    (afterSome p cs).Pairwise fun one next => one.length ≤ next.length := by
  cases cs with
  | nil => exact List.Pairwise.nil
  | cons c cs =>
    rw [afterSome]
    split
    · exact List.pairwise_reverse.mpr (pairwise_runRemainders p cs)
    · exact List.Pairwise.nil

/-- To take nothing may come last. -/
theorem pairwise_append_self {choices : List (List Char)} {cs : List Char}
    (h : choices.Pairwise fun one next => one.length ≤ next.length)
    (hall : ∀ rest ∈ choices, rest.length ≤ cs.length) :
    (choices ++ [cs]).Pairwise fun one next => one.length ≤ next.length := by
  refine List.pairwise_append.mpr ⟨h, List.pairwise_singleton _ cs, fun rest hrest last hlast => ?_⟩
  obtain rfl := List.mem_singleton.mp hlast
  exact hall rest hrest

/-- Of the choices of a piece one that takes more comes first. -/
theorem Piece.pairwise_remainders (piece : Piece) (cs : List Char) :
    (piece.remainders ignoreCase cs).Pairwise fun one next => one.length ≤ next.length := by
  have hslash : ((afterSlash? cs).toList).Pairwise
      fun one next : List Char => one.length ≤ next.length := by
    cases afterSlash? cs <;> simp
  have hone : ∀ p, (afterOne p cs).Pairwise fun one next => one.length ≤ next.length := by
    intro p
    cases cs with
    | nil => exact List.Pairwise.nil
    | cons c cs =>
      rw [afterOne]
      split <;> simp
  have hall : ∀ rest ∈ piece.remainders ignoreCase cs, rest.length ≤ cs.length := by
    intro rest hrest
    obtain ⟨taken, rfl, -⟩ := mem_remainders_iff.mp hrest
    rw [List.length_append]
    omega
  cases piece with
  | leadingDirectories =>
    refine pairwise_append_self ?_ fun rest hrest => hall rest (List.mem_append_left _ hrest)
    refine (pairwise_afterSome isLineChar cs).filterMap _
      fun one next hle rest hone rest' hnext => ?_
    rw [afterSlash?_eq_some_iff.mp hone, afterSlash?_eq_some_iff.mp hnext] at hle
    exact Nat.le_of_succ_le_succ hle
  | innerDirectories =>
    refine pairwise_append_self ?_ fun rest hrest => hall rest (List.mem_append_left _ hrest)
    cases afterSlash? cs with
    | none => exact List.Pairwise.nil
    | some behind => exact pairwise_afterSome isLineChar behind
  | slash | directoryMark => exact hslash
  | name => exact pairwise_afterSome _ _
  | run => exact List.pairwise_reverse.mpr (pairwise_runRemainders _ _)
  | one | literal d | bracket b | anything => exact hone _
  | ending =>
    rw [remainders] at hall ⊢
    split
    · exact pairwise_append_self hslash fun rest hrest => hall rest (List.mem_append_left _ hrest)
    · rw [List.append_nil]
      exact hslash

/-- The pieces prefer to take all that is left of a text, wherever they start on it, if they could
have done so from the start. -/
def Settles (ignoreCase : Bool) (pieces : List Piece) : Prop :=
  ∀ cs, ¬['/', '/'] <:+: cs → [] ∈ remaindersOf ignoreCase pieces cs →
    ∀ later, later <:+ cs → Fits ignoreCase pieces later →
      matchFrom ignoreCase pieces later = some []

theorem settles_nil : Settles ignoreCase [] := by
  intro cs _ hwhole later hlater _
  obtain rfl : [] = cs := mem_remaindersOf_nil.mp hwhole
  rw [List.suffix_nil.mp hlater]
  rfl

section

variable {piece : Piece} {pieces : List Piece} {cs left later : List Char}

/-- A piece in front of pieces that settle prefers what lets them take all that is left, if it can
leave them such a text whenever it takes less. -/
theorem matchFrom_cons_eq_nil (h : Settles ignoreCase pieces) (hcs : ¬['/', '/'] <:+: cs)
    (hleft : left <:+ cs) (hwhole : [] ∈ remaindersOf ignoreCase pieces left)
    (hlater : later <:+ cs) (hfits : Fits ignoreCase (piece :: pieces) later)
    (hreach : ∀ rest ∈ piece.remainders ignoreCase later, Fits ignoreCase pieces rest →
      left.length < rest.length → left ∈ piece.remainders ignoreCase later) :
    matchFrom ignoreCase (piece :: pieces) later = some [] := by
  obtain ⟨final, hfinal⟩ := Option.isSome_iff_exists.mp hfits
  rw [hfinal]
  rw [matchFrom] at hfinal
  obtain ⟨before, rest, after, hchoices, hrest, hbefore⟩ := List.findSome?_eq_some_iff.mp hfinal
  have hmem : rest ∈ piece.remainders ignoreCase later := by
    rw [hchoices]
    exact List.mem_append_right before List.mem_cons_self
  have hfits' : Fits ignoreCase pieces rest := by
    rw [Fits, hrest]
    rfl
  have hsuffix : rest <:+ cs := by
    obtain ⟨taken, rfl, -⟩ := Piece.mem_remainders_iff.mp hmem
    exact (List.suffix_append taken rest).trans hlater
  have hle : rest.length ≤ left.length := by
    by_contra hlt
    -- The piece could take more, and would have preferred to.
    have hchoice := hreach rest hmem hfits' (Nat.lt_of_not_le hlt)
    have hpairwise : (piece.remainders ignoreCase later).Pairwise
        fun one next => one.length ≤ next.length := piece.pairwise_remainders later
    rw [hchoices] at hchoice hpairwise
    rcases List.mem_append.mp hchoice with hfirst | hothers
    · have hnone := fits_iff_exists_mem_remaindersOf.mpr ⟨[], hwhole⟩
      rw [Fits, hbefore left hfirst] at hnone
      cases hnone
    · rcases List.mem_cons.mp hothers with rfl | hafter
      · exact hlt (Nat.le_refl _)
      · exact hlt ((List.pairwise_cons.mp (List.pairwise_append.mp hpairwise).2.1).1 left hafter)
  have hinfix : ¬['/', '/'] <:+: left := fun hslashes => hcs (hslashes.trans hleft.isInfix)
  have hnil := h left hinfix hwhole rest
    (List.suffix_of_suffix_length_le hsuffix hleft hle) hfits'
  exact hrest.symm.trans hnil

/-- At the start of a text pieces that can take all of it do so, if those behind the first one
settle. -/
theorem matchFrom_cons_of_settles (h : Settles ignoreCase pieces) (hcs : ¬['/', '/'] <:+: cs)
    (hwhole : [] ∈ remaindersOf ignoreCase (piece :: pieces) cs) :
    matchFrom ignoreCase (piece :: pieces) cs = some [] := by
  obtain ⟨taken, left, rfl, htaken, hleft⟩ := mem_remaindersOf_cons.mp hwhole
  refine matchFrom_cons_eq_nil h hcs (List.suffix_append taken left) hleft (List.suffix_refl _)
    (fits_iff_exists_mem_remaindersOf.mpr ⟨[], hwhole⟩) fun _ _ _ _ => ?_
  exact Piece.mem_remainders_iff.mpr ⟨taken, rfl, htaken⟩

/-- A piece in front of pieces that settle leaves them settled, if it can take from a later start on
as much as from an earlier one, where both choices let the other pieces fit. -/
theorem Settles.cons (h : Settles ignoreCase pieces)
    (hpiece : ∀ before taken more rest, more ≠ [] →
      ¬['/', '/'] <:+: before ++ (taken ++ more) ++ rest → Fits ignoreCase pieces rest →
      Fits ignoreCase pieces (more ++ rest) →
      piece.Takes ignoreCase (before ++ (taken ++ more)) rest →
      piece.Takes ignoreCase taken (more ++ rest) → piece.Takes ignoreCase (taken ++ more) rest) :
    Settles ignoreCase (piece :: pieces) := by
  intro cs hcs hwhole later hlater hfits
  obtain ⟨taken, left, rfl, htaken, hleft⟩ := mem_remaindersOf_cons.mp hwhole
  refine matchFrom_cons_eq_nil h hcs (List.suffix_append taken left) hleft hlater hfits
    fun rest hrest hrestfits hlt => ?_
  obtain ⟨less, rfl, hless⟩ := Piece.mem_remainders_iff.mp hrest
  obtain ⟨more, rfl⟩ := List.suffix_of_suffix_length_le (List.suffix_append taken left)
    ((List.suffix_append less rest).trans hlater) (Nat.le_of_lt hlt)
  have hne : more ≠ [] := by
    rintro rfl
    exact Nat.lt_irrefl _ hlt
  obtain ⟨before, hbefore⟩ := hlater
  rw [← List.append_assoc less, ← List.append_assoc before] at hbefore
  obtain rfl := List.append_cancel_right hbefore
  rw [Piece.mem_remainders_iff]
  exact ⟨less ++ more, (List.append_assoc less more left).symm,
    hpiece before less more left hne hcs (fits_iff_exists_mem_remaindersOf.mpr ⟨[], hleft⟩)
      hrestfits htaken hless⟩

/-- A piece that takes one character never takes more. -/
theorem Settles.cons_of_takes_one (h : Settles ignoreCase pieces) {P : Char → Prop}
    (hone : ∀ taken rest, piece.Takes ignoreCase taken rest ↔ ∃ c, taken = [c] ∧ P c) :
    Settles ignoreCase (piece :: pieces) := by
  refine h.cons fun before taken more rest hmore _ _ _ hlonger hless => ?_
  obtain ⟨c, hc, -⟩ := (hone _ _).mp hlonger
  obtain ⟨d, rfl, -⟩ := (hone _ _).mp hless
  have hlength := congrArg List.length hc
  have hpos := List.length_pos_iff.mpr hmore
  simp only [List.length_append, List.length_singleton] at hlength
  omega

theorem Settles.cons_closing (h : Settles ignoreCase pieces) (asksDirectory : Bool) :
    Settles ignoreCase (closing asksDirectory :: pieces) := by
  refine h.cons_of_takes_one (P := fun c => c = '/') fun taken rest => ?_
  cases asksDirectory <;> simp [closing, Piece.Takes]

theorem Settles.cons_name (h : Settles ignoreCase pieces) :
    Settles ignoreCase (.name :: pieces) := by
  refine h.cons fun before taken more rest _ _ _ _ hlonger hless => ?_
  refine ⟨List.append_ne_nil_of_left_ne_nil hless.1 more, fun hslash => hlonger.2 ?_⟩
  exact List.mem_append_right before hslash

/-- The pieces of a segment leave pieces that settle settled. -/
theorem Settles.append_segment (h : Settles ignoreCase pieces) (segment : Segment) :
    Settles ignoreCase (segment.pieces ++ pieces) := by
  cases segment with
  | directories | name => exact h.cons_name
  | glob atoms =>
    rw [Segment.pieces]
    induction atoms with
    | nil => exact h
    | cons atom atoms ih =>
      rw [List.map_cons, List.cons_append]
      cases atom with
      | run =>
        refine ih.cons fun before taken more rest _ _ _ _ hlonger _ hslash => ?_
        exact hlonger (List.mem_append_right before hslash)
      | one | literal d | bracket b => exact ih.cons_of_takes_one fun _ _ => Iff.rfl

/-- Directories may be skipped in front of pieces that settle and start with a slash. -/
theorem Settles.cons_innerDirectories (h : Settles ignoreCase pieces)
    (hslash : ∀ cs, Fits ignoreCase pieces cs → ∃ rest, cs = '/' :: rest) :
    Settles ignoreCase (.innerDirectories :: pieces) := by
  refine h.cons fun before taken more rest hmore hcs hrest hless hlonger htaken => ?_
  obtain ⟨inner, hinner⟩ : ∃ inner, taken ++ more = '/' :: inner := by
    rcases htaken with rfl | ⟨below, -, -, rfl⟩
    · obtain ⟨c, others, rfl⟩ := List.exists_cons_of_ne_nil hmore
      obtain ⟨left, hleft⟩ := hslash _ hless
      exact ⟨others, congrArg (· :: others) (List.cons.inj hleft).1⟩
    · exact ⟨below ++ more, rfl⟩
  rw [hinner] at hlonger hcs ⊢
  refine Or.inr ⟨inner, ?_, fun hline => ?_, rfl⟩
  · -- Otherwise the slash of the other pieces would stand right behind this one.
    rintro rfl
    obtain ⟨left, rfl⟩ := hslash rest hrest
    exact hcs ⟨before, left, by simp⟩
  · rcases hlonger with hnil | ⟨below, -, hbelow, heq⟩
    · exact absurd hnil (List.append_ne_nil_of_right_ne_nil before (List.cons_ne_nil _ _))
    · have hmem : '\n' ∈ '/' :: below := by
        rw [← heq]
        exact List.mem_append_right before (List.mem_cons_of_mem '/' hline)
      rcases List.mem_cons.mp hmem with heq' | hmem
      · exact absurd heq' (by decide)
      · exact hbelow hmem

end

section

variable {segments : List Segment} {cs : List Char}

/-- The pieces of segments that end with two stars settle. -/
theorem EndWithStars.settles (h : EndWithStars segments) (asksDirectory joined : Bool) :
    Settles ignoreCase (innerPieces asksDirectory joined segments) := by
  induction h generalizing joined with
  | last => exact settles_nil.cons_closing asksDirectory
  | directories h ih =>
    rw [innerPieces_directories _ _ h.ne_nil]
    apply (ih true).cons_innerDirectories
    exact fun cs => eq_slash_cons_of_fits_innerPieces h.ne_nil
  | @segment segment rest hsegment h ih =>
    have hinner := (ih true).append_segment segment
    rw [innerPieces_cons_of_ne_nil _ _ hsegment h.ne_nil]
    cases joined with
    | false => exact hinner
    | true => exact hinner.cons_closing false

/-- Where an expression that is closed by a slash can take a whole text in which no two slashes
stand in a row, the search takes the whole text. -/
theorem EndWithStars.search?_eq_nil_of_takesWhole (h : EndWithStars segments)
    (hne : segments ≠ [.directories]) (hcs : ¬['/', '/'] <:+: cs) {asksDirectory : Bool}
    (hwhole : (Expression.ofSegments asksDirectory segments).TakesWhole ignoreCase cs) :
    (Expression.ofSegments asksDirectory segments).search? ignoreCase cs = some [] := by
  rcases h.cases_ofSegments hne with hpieces | ⟨skipped, rest, hskipped, hrest, hpieces⟩
  · rw [hpieces] at hwhole ⊢
    obtain rfl := mem_remaindersOf_closing.mp hwhole
    exact search?_closing_eq_some_iff.mpr ⟨[], rfl, List.not_mem_nil⟩
  · have hinner : Settles ignoreCase (innerPieces asksDirectory false rest) :=
      hrest.settles asksDirectory false
    rw [hpieces] at hwhole ⊢
    rcases hskipped with rfl | rfl
    · have hfits := fits_iff_exists_mem_remaindersOf.mpr ⟨[], hwhole⟩
      exact hinner cs hcs hwhole cs (List.suffix_refl cs) hfits
    · exact matchFrom_cons_of_settles hinner hcs hwhole

end

end SourceSnapshot.Pattern
