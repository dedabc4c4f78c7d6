import SourceSnapshot.Proofs.Pattern.Lines

/-!
# What is found of a directory is found below it

An expression that is found in the path of a directory is found in every path below it as well, for
what stands behind a match does not matter, with one exception. Where the expression ends in a
bracket expression that stands for a slash, the slash at the end of the directory may be the last
character that it takes, and below the directory a name stands in the way.
-/

namespace SourceSnapshot.Pattern

variable {ignoreCase : Bool}

/-- What can remain of a text behind a sequence of pieces, the preferred choice first. -/
def remaindersOf (ignoreCase : Bool) : List Piece → List Char → List (List Char)
  | [], cs => [cs]
  | piece :: pieces, cs =>
    (piece.remainders ignoreCase cs).flatMap (remaindersOf ignoreCase pieces)

/-- The preferred match is the first of all. -/
theorem matchFrom_eq_head? (pieces : List Piece) (cs : List Char) :
    matchFrom ignoreCase pieces cs = (remaindersOf ignoreCase pieces cs).head? := by
  induction pieces generalizing cs with
  | nil => rfl
  | cons piece pieces ih =>
    rw [matchFrom, remaindersOf, List.head?_flatMap]
    exact congrArg (List.findSome? · _) (funext ih)

section

variable {pieces : List Piece} {cs rest : List Char}

/-- Pieces fit if there is something that can remain behind them. -/
theorem fits_iff_exists_mem_remaindersOf :
    Fits ignoreCase pieces cs ↔ ∃ rest, rest ∈ remaindersOf ignoreCase pieces cs := by
  rw [Fits, matchFrom_eq_head?, List.isSome_head?]
  constructor
  · exact List.exists_mem_of_ne_nil _
  · rintro ⟨rest, hrest⟩
    exact List.ne_nil_of_mem hrest

theorem mem_remaindersOf_nil : rest ∈ remaindersOf ignoreCase [] cs ↔ rest = cs :=
  List.mem_singleton

/-- The first piece matches a beginning, and the others what stands behind it. -/
theorem mem_remaindersOf_cons {piece : Piece} :
    rest ∈ remaindersOf ignoreCase (piece :: pieces) cs ↔
      ∃ taken behind, cs = taken ++ behind ∧ piece.Takes ignoreCase taken behind ∧
        rest ∈ remaindersOf ignoreCase pieces behind := by
  simp only [remaindersOf, List.mem_flatMap, Piece.mem_remainders_iff]
  constructor
  · rintro ⟨behind, ⟨taken, hcs, htaken⟩, hrest⟩
    exact ⟨taken, behind, hcs, htaken, hrest⟩
  · rintro ⟨taken, behind, hcs, htaken, hrest⟩
    exact ⟨behind, ⟨taken, hcs, htaken⟩, hrest⟩

/-- Pieces in front leave what the pieces behind them match. -/
theorem mem_remaindersOf_append {before : List Piece} :
    rest ∈ remaindersOf ignoreCase (before ++ pieces) cs ↔
      ∃ behind ∈ remaindersOf ignoreCase before cs,
        rest ∈ remaindersOf ignoreCase pieces behind := by
  induction before generalizing cs with
  | nil =>
    simp only [List.nil_append, mem_remaindersOf_nil, exists_eq_left]
  | cons piece before ih =>
    simp only [List.cons_append, mem_remaindersOf_cons, ih]
    constructor
    · rintro ⟨taken, left, hcs, htaken, behind, hbehind, hrest⟩
      exact ⟨behind, ⟨taken, left, hcs, htaken, hbehind⟩, hrest⟩
    · rintro ⟨behind, ⟨taken, left, hcs, htaken, hbehind⟩, hrest⟩
      exact ⟨taken, left, hcs, htaken, behind, hbehind, hrest⟩

/-- Pieces in front fit if they leave something that the pieces behind them fit. -/
theorem fits_append {before : List Piece} :
    Fits ignoreCase (before ++ pieces) cs ↔
      ∃ behind ∈ remaindersOf ignoreCase before cs, Fits ignoreCase pieces behind := by
  simp only [fits_iff_exists_mem_remaindersOf, mem_remaindersOf_append]
  constructor
  · rintro ⟨rest, behind, hbehind, hrest⟩
    exact ⟨behind, hbehind, rest, hrest⟩
  · rintro ⟨behind, hbehind, rest, hrest⟩
    exact ⟨rest, behind, hbehind, hrest⟩

/-- What remains is an ending of the text. -/
theorem suffix_of_mem_remaindersOf (h : rest ∈ remaindersOf ignoreCase pieces cs) :
    rest <:+ cs := by
  induction pieces generalizing cs with
  | nil =>
    obtain rfl := mem_remaindersOf_nil.mp h
    exact List.suffix_refl rest
  | cons piece pieces ih =>
    obtain ⟨taken, behind, rfl, -, hrest⟩ := mem_remaindersOf_cons.mp h
    exact (ih hrest).trans (List.suffix_append taken behind)

/-- Only an ending depends on what follows. -/
theorem Piece.Takes.of_ne_ending {piece : Piece} {taken : List Char}
    (h : piece.Takes ignoreCase taken rest) (hne : piece ≠ .ending) (other : List Char) :
    piece.Takes ignoreCase taken other := by
  cases piece with
  | ending => exact absurd rfl hne
  | _ => exact h

/-- Without an ending pieces match in a longer text what they match in a text. -/
theorem append_mem_remaindersOf (hending : .ending ∉ pieces)
    (h : rest ∈ remaindersOf ignoreCase pieces cs) (more : List Char) :
    rest ++ more ∈ remaindersOf ignoreCase pieces (cs ++ more) := by
  induction pieces generalizing cs with
  | nil =>
    obtain rfl := mem_remaindersOf_nil.mp h
    exact mem_remaindersOf_nil.mpr rfl
  | cons piece pieces ih =>
    obtain ⟨taken, behind, rfl, htaken, hrest⟩ := mem_remaindersOf_cons.mp h
    have hpiece : piece ≠ .ending := fun heq => hending (heq ▸ List.mem_cons_self)
    have hpieces : .ending ∉ pieces := fun hmem => hending (List.mem_cons_of_mem piece hmem)
    refine mem_remaindersOf_cons.mpr ⟨taken, behind ++ more, ?_, ?_, ih hpieces hrest⟩
    · rw [List.append_assoc]
    · exact htaken.of_ne_ending hpiece _

/-- Without an ending pieces match in a text what they match in a longer text, if what stands behind
the text remains there. -/
theorem mem_remaindersOf_of_append (hending : .ending ∉ pieces) {more : List Char}
    (h : rest ++ more ∈ remaindersOf ignoreCase pieces (cs ++ more)) :
    rest ∈ remaindersOf ignoreCase pieces cs := by
  induction pieces generalizing cs with
  | nil => exact mem_remaindersOf_nil.mpr (List.append_cancel_right (mem_remaindersOf_nil.mp h))
  | cons piece pieces ih =>
    obtain ⟨taken, behind, hcs, htaken, hrest⟩ := mem_remaindersOf_cons.mp h
    have hpiece : piece ≠ .ending := fun heq => hending (heq ▸ List.mem_cons_self)
    have hpieces : .ending ∉ pieces := fun hmem => hending (List.mem_cons_of_mem piece hmem)
    -- What stands behind the text is an ending of all that is left to the other pieces.
    obtain ⟨left, rfl⟩ := suffix_of_mem_remaindersOf hrest
    rw [← List.append_assoc left rest more] at hrest hcs
    rw [← List.append_assoc taken] at hcs
    exact mem_remaindersOf_cons.mpr ⟨taken, left ++ rest, List.append_cancel_right hcs,
      htaken.of_ne_ending hpiece _, ih hpieces hrest⟩

theorem Fits.append (h : Fits ignoreCase pieces cs) (hending : .ending ∉ pieces)
    (more : List Char) : Fits ignoreCase pieces (cs ++ more) := by
  obtain ⟨rest, hrest⟩ := fits_iff_exists_mem_remaindersOf.mp h
  exact fits_iff_exists_mem_remaindersOf.mpr ⟨_, append_mem_remaindersOf hending hrest more⟩

end

/-- A piece that stands for characters of a name. A bracket expression can stand for a slash all the
same. -/
def Piece.IsOfName : Piece → Prop
  | .name => True
  | .run => True
  | .one => True
  | .literal c => c ≠ '/'
  | .bracket _ => True
  | _ => False

theorem Piece.IsOfName.ne_ending {piece : Piece} (h : piece.IsOfName) : piece ≠ .ending := by
  rintro rfl
  exact h

/-- A glob that is not empty is read as its first part and what is read of an ending. -/
theorem atoms_cons_eq_ok {c : Char} {cs : List Char} {atoms' : List Atom}
    (h : atoms (c :: cs) = .ok atoms') :
    ∃ atom others skipped, atoms' = atom :: others ∧ atoms (cs.drop skipped) = .ok others ∧
      ∀ d, atom = .literal d → d ∈ c :: cs := by
  rw [atoms, atomsFrom.eq_def] at h
  dsimp only at h
  split at h
  · rename_i hescape
    cases cs with
    | nil => cases h
    | cons d more =>
      obtain ⟨others, hothers, rfl⟩ := atoms_map_eq_ok h
      refine ⟨_, others, 1, rfl, hothers, fun e he => ?_⟩
      obtain rfl := Atom.literal.inj he
      exact List.mem_cons_of_mem c List.mem_cons_self
  split at h
  · obtain ⟨others, hothers, rfl⟩ := atoms_map_eq_ok h
    exact ⟨_, others, 0, rfl, hothers, fun _ => Atom.noConfusion⟩
  split at h
  · obtain ⟨others, hothers, rfl⟩ := atoms_map_eq_ok h
    exact ⟨_, others, 0, rfl, hothers, fun _ => Atom.noConfusion⟩
  split at h
  · split at h
    · cases h
    · rename_i b width hb
      obtain ⟨others, hothers, rfl⟩ := atoms_map_eq_ok h
      rw [atomsFrom_eq_drop] at hothers
      exact ⟨_, others, width, rfl, hothers, fun _ => Atom.noConfusion⟩
  · obtain ⟨others, hothers, rfl⟩ := atoms_map_eq_ok h
    refine ⟨_, others, 0, rfl, hothers, fun d hd => ?_⟩
    obtain rfl := Atom.literal.inj hd
    exact List.mem_cons_self

/-- A literal of a glob is a character of its text. -/
theorem mem_of_literal_mem_atoms {cs : List Char} {atoms' : List Atom}
    (h : atoms cs = .ok atoms') {d : Char} (hd : .literal d ∈ atoms') : d ∈ cs := by
  induction hn : cs.length using Nat.strongRecOn generalizing cs atoms' with
  | ind n ih =>
    cases cs with
    | nil =>
      obtain rfl := Except.ok.inj h
      cases hd
    | cons c cs =>
      obtain ⟨atom, others, skipped, rfl, hothers, hatom⟩ := atoms_cons_eq_ok h
      rcases List.mem_cons.mp hd with heq | hmem
      · exact hatom d heq.symm
      · have hlt : (cs.drop skipped).length < n := by
          rw [← hn, List.length_drop, List.length_cons]
          omega
        exact List.mem_cons_of_mem c (List.mem_of_mem_drop (ih _ hlt hothers hmem rfl))

/-- The pieces of a segment that is not two stars stand for characters of a name, if its text has no
slash, and there are some if its text is not empty. -/
theorem isOfName_of_mem_pieces {text : List Char} (hstars : text ≠ twoStars)
    (hslash : '/' ∉ text) {segment : Segment} (hread : Segment.read text = .ok segment) :
    (∀ piece ∈ segment.pieces, piece.IsOfName) ∧ (text ≠ [] → segment.pieces ≠ []) := by
  rcases read_eq_ok_of_ne hstars hread with ⟨-, rfl⟩ | ⟨-, atoms', hatoms, rfl⟩
  · refine ⟨fun piece hpiece => ?_, fun _ => List.cons_ne_nil _ _⟩
    obtain rfl := List.mem_singleton.mp hpiece
    trivial
  · constructor
    · intro piece hpiece
      obtain ⟨atom, hatom, rfl⟩ := List.mem_map.mp hpiece
      cases atom with
      | literal d =>
        rintro rfl
        exact hslash (mem_of_literal_mem_atoms hatoms hatom)
      | run | one | bracket b => trivial
    · intro hne
      obtain ⟨c, cs, rfl⟩ := List.exists_cons_of_ne_nil hne
      obtain ⟨atom, others, skipped, rfl, -, -⟩ := atoms_cons_eq_ok hatoms
      exact List.cons_ne_nil _ _

/-- Pieces end as the last segment of a pattern asks. Behind two stars there is no ending, and
behind any other segment there is one, with a piece for characters of a name before it. -/
inductive EndAs (last : List Char) : List Piece → Prop where
  | stars {pieces : List Piece} (hlast : last = twoStars) (hpieces : .ending ∉ pieces) :
    EndAs last pieces
  | segment {before : List Piece} {piece : Piece} (hlast : last ≠ twoStars)
      (hbefore : .ending ∉ before) (hpiece : piece.IsOfName) :
    EndAs last (before ++ [piece, .ending])

/-- Pieces that are no endings may stand in front. -/
theorem EndAs.append {last : List Char} {pieces : List Piece} (h : EndAs last pieces)
    {front : List Piece} (hfront : .ending ∉ front) : EndAs last (front ++ pieces) := by
  cases h with
  | stars hlast hpieces =>
    exact .stars hlast fun hmem => (List.mem_append.mp hmem).elim hfront hpieces
  | segment hlast hbefore hpiece =>
    rw [← List.append_assoc]
    exact .segment hlast (fun hmem => (List.mem_append.mp hmem).elim hfront hbefore) hpiece

/-- The pieces of segments end as the last of them asks. -/
theorem endAs_innerPieces {texts : List (List Char)} {segments : List Segment}
    (hread : readSegments texts = .ok segments) (hslash : ∀ text ∈ texts, '/' ∉ text)
    {last : List Char} (hlast : texts.getLast? = some last) (hne : last ≠ [])
    (asksDirectory joined : Bool) : EndAs last (innerPieces asksDirectory joined segments) := by
  induction texts generalizing segments joined with
  | nil => cases hlast
  | cons text texts ih =>
    obtain ⟨segment, rest, hsegment, hrest, rfl⟩ := readSegments_cons_eq_ok.mp hread
    obtain ⟨htext, hothers⟩ := List.forall_mem_cons.mp hslash
    have hbehind : texts ≠ [] → ∀ joined, EndAs last (innerPieces asksDirectory joined rest) := by
      intro hne joined
      rw [List.getLast?_cons_of_ne_nil hne] at hlast
      exact ih hrest hothers hlast joined
    by_cases hstars : text = twoStars
    · subst hstars
      obtain rfl : Segment.directories = segment := Except.ok.inj hsegment
      cases texts with
      | nil =>
        obtain rfl : [] = rest := Except.ok.inj hrest
        refine .stars (Option.some.inj hlast).symm ?_
        cases asksDirectory <;> simp [innerPieces]
      | cons next others =>
        have hne' := readSegments_ne_nil hrest (List.cons_ne_nil next others)
        have hskip : Piece.ending ∉ [Piece.innerDirectories] := by decide
        rw [innerPieces_directories _ _ hne']
        exact (hbehind (List.cons_ne_nil next others) true).append hskip
    · obtain ⟨hpieces, hsome⟩ := isOfName_of_mem_pieces hstars htext hsegment
      have hnone : .ending ∉ segment.pieces := fun hmem => (hpieces _ hmem).ne_ending rfl
      have hfront : Piece.ending ∉ (if joined then [Piece.slash] else []) := by
        cases joined <;> simp
      rw [innerPieces_cons _ _ (read_ne_directories hstars hsegment)]
      refine EndAs.append ?_ hfront
      cases texts with
      | nil =>
        obtain rfl : [] = rest := Except.ok.inj hrest
        obtain rfl : text = last := Option.some.inj hlast
        obtain ⟨before, piece, hbefore⟩ :=
          (List.eq_nil_or_concat segment.pieces).resolve_left (hsome hne)
        rw [List.concat_eq_append] at hbefore
        rw [hbefore, List.mem_append, not_or] at hnone
        rw [hbefore] at hpieces ⊢
        rw [List.append_assoc]
        exact .segment hstars hnone.1 (hpieces piece (by simp))
      | cons next others =>
        have hne' := readSegments_ne_nil hrest (List.cons_ne_nil next others)
        rw [if_neg (by simpa using hne'), List.nil_append]
        exact (hbehind (List.cons_ne_nil next others) true).append hnone

/-- An expression ends as the last segment of its pattern asks. A single piece that is searched for
is no ending. -/
def Expression.EndsAs (last : List Char) : Expression → Prop
  | .anywhere piece => piece ≠ .ending
  | .fromStart pieces => EndAs last pieces

/-- The expression of segments ends as the last of them asks. -/
theorem endsAs_ofSegments {texts : List (List Char)} {segments : List Segment}
    (hread : readSegments texts = .ok segments) (hslash : ∀ text ∈ texts, '/' ∉ text)
    {last : List Char} (hlast : texts.getLast? = some last) (hne : last ≠ [])
    (asksDirectory : Bool) : (Expression.ofSegments asksDirectory segments).EndsAs last := by
  have hends := endAs_innerPieces hread hslash hlast hne asksDirectory false
  unfold Expression.ofSegments
  split
  · cases asksDirectory <;> exact Piece.noConfusion
  · exact Piece.noConfusion
  · cases asksDirectory <;> exact Piece.noConfusion
  · rename_i rest hmore _ _
    -- The pieces behind those that skip directories are those of the other segments.
    obtain ⟨text, others, rfl⟩ : ∃ text others, texts = text :: others :=
      List.exists_cons_of_ne_nil fun hnil => by simp [hnil] at hlast
    obtain ⟨segment, rest', -, hrest, heq⟩ := readSegments_cons_eq_ok.mp hread
    obtain ⟨-, rfl⟩ := List.cons.inj heq
    have hothers : others ≠ [] := by
      rintro rfl
      exact hmore (Except.ok.inj hrest).symm
    rw [List.getLast?_cons_of_ne_nil hothers] at hlast
    have hskip : Piece.ending ∉ [Piece.leadingDirectories] := by decide
    exact (endAs_innerPieces hrest (List.forall_mem_cons.mp hslash).2 hlast hne asksDirectory
      false).append hskip
  · exact hends

/-- The expression ends in a bracket expression that stands for a slash, and what stands before the
bracket expression can match all but a slash at the end. -/
def Expression.TakesLastSlash (ignoreCase : Bool) (e : Expression) (cs : List Char) : Prop :=
  ∃ before b, e = .fromStart (before ++ [.bracket b, .ending]) ∧
    b.accepts ignoreCase '/' = true ∧ ['/'] ∈ remaindersOf ignoreCase before cs

section

variable {e : Expression} {cs : List Char}

/-- What takes the slash at the end is found. -/
theorem isFound_of_takesLastSlash (h : e.TakesLastSlash ignoreCase cs) :
    e.isFound ignoreCase cs = true := by
  obtain ⟨before, b, rfl, hb, hslash⟩ := h
  rw [isFound_fromStart, fits_append]
  exact ⟨['/'], hslash, fits_cons.mpr ⟨['/'], [], rfl, ⟨'/', rfl, hb⟩,
    fits_ending.mpr (Or.inr rfl)⟩⟩

/-- Behind two stars an expression does not take the slash at the end. -/
theorem not_takesLastSlash (h : e.EndsAs twoStars) : ¬e.TakesLastSlash ignoreCase cs := by
  rintro ⟨before, b, rfl, -, -⟩
  generalize hpieces : before ++ [.bracket b, .ending] = pieces at h
  cases h with
  | stars _ hnone => exact hnone (by simp [← hpieces])
  | segment hne => exact absurd rfl hne

/-- What stands at the end of a directory's path, and is not empty, ends with its slash. -/
theorem getLast?_of_suffix_slash {ending : List Char} (h : ending <:+ cs ++ ['/'])
    (hne : ending ≠ []) : ending.getLast? = some '/' := by
  obtain ⟨before, hbefore⟩ := h
  have hlast : (before ++ ending).getLast? = some '/' := by
    rw [hbefore, List.getLast?_concat]
  rw [List.getLast?_append] at hlast
  cases hending : ending.getLast? with
  | none => exact absurd (List.getLast?_eq_none_iff.mp hending) hne
  | some c => rwa [hending, Option.some_or] at hlast

/-- A piece for characters of a name that takes the ending of a directory's path takes nothing as a
run, or the slash as a bracket expression. -/
theorem Piece.IsOfName.takes_ending {piece : Piece} (h : piece.IsOfName) {taken rest : List Char}
    (htaken : piece.Takes ignoreCase taken rest) (hending : taken <:+ cs ++ ['/']) :
    piece = .run ∧ taken = [] ∨
      ∃ b, piece = .bracket b ∧ b.accepts ignoreCase '/' = true ∧ taken = ['/'] := by
  have hslash : taken ≠ [] → '/' ∈ taken := fun hne =>
    List.mem_of_getLast? (getLast?_of_suffix_slash hending hne)
  have hone : ∀ {c}, taken = [c] → c = '/' := by
    rintro c rfl
    exact (List.mem_singleton.mp (hslash (List.cons_ne_nil c []))).symm
  cases piece with
  | name => exact absurd (hslash htaken.1) htaken.2
  | run => exact Or.inl ⟨rfl, by_contra fun hne => htaken (hslash hne)⟩
  | one =>
    obtain ⟨c, hc, hne⟩ := htaken
    exact absurd (hone hc) hne
  | literal d =>
    obtain ⟨c, hc, hsame⟩ := htaken
    rw [hone hc] at hsame
    exact absurd (eq_slash_of_sameChar hsame) h
  | bracket b =>
    obtain ⟨c, hc, hb⟩ := htaken
    obtain rfl := hone hc
    exact Or.inr ⟨b, rfl, hb, hc⟩
  | _ => exact h.elim

/-- A run takes all characters up to the end of a name, so with an ending behind it it fits every
text. -/
theorem fits_run_ending (cs : List Char) : Fits ignoreCase [.run, .ending] cs := by
  rw [fits_run]
  by_cases hslash : '/' ∈ cs
  · obtain ⟨run, rest, rfl, hrun⟩ := List.eq_append_cons_of_mem hslash
    exact ⟨run, '/' :: rest, rfl, hrun, fits_ending.mpr (Or.inl ⟨rest, rfl⟩)⟩
  · exact ⟨cs, [], (List.append_nil cs).symm, hslash, fits_ending.mpr (Or.inr rfl)⟩

/-- A piece for characters of a name and an ending that fit an ending of a directory's path fit it
in every path below as well, unless the piece takes the slash as a bracket expression. -/
theorem Piece.IsOfName.fits_below {piece : Piece} (h : piece.IsOfName) {left : List Char}
    (hleft : left <:+ cs ++ ['/']) (hfits : Fits ignoreCase [piece, .ending] left)
    (more : List Char) :
    Fits ignoreCase [piece, .ending] (left ++ more) ∨
      ∃ b, piece = .bracket b ∧ b.accepts ignoreCase '/' = true ∧ left = ['/'] := by
  obtain ⟨taken, rest, rfl, htaken, hending⟩ := fits_cons.mp hfits
  by_cases hrest : rest = []
  · subst hrest
    rw [List.append_nil] at hleft ⊢
    rcases h.takes_ending htaken hleft with ⟨rfl, rfl⟩ | hbracket
    · exact Or.inl (fits_run_ending more)
    · exact Or.inr hbracket
  · left
    have hlast := getLast?_of_suffix_slash ((List.suffix_append taken rest).trans hleft) hrest
    rw [List.append_assoc]
    refine fits_cons.mpr ⟨taken, rest ++ more, rfl, htaken.of_ne_ending h.ne_ending _, ?_⟩
    rcases fits_ending.mp hending with ⟨behind, rfl⟩ | hend
    · exact fits_ending.mpr (Or.inl ⟨behind ++ more, rfl⟩)
    · -- The path ends with a slash, and not with a line break.
      rw [isAtEnd, Bool.or_eq_true, beq_iff_eq, beq_iff_eq] at hend
      rcases hend with rfl | rfl
      · exact absurd rfl hrest
      · exact absurd (Option.some.inj hlast) (by decide)

/-- An expression that is found in the path of a directory is found in every path below it, unless
it takes the slash at the end. -/
theorem isFound_below {last : List Char} (h : e.EndsAs last)
    (hfound : e.isFound ignoreCase (cs ++ ['/']) = true) (more : List Char) :
    e.isFound ignoreCase (cs ++ '/' :: more) = true ∨
      e.TakesLastSlash ignoreCase (cs ++ ['/']) := by
  rw [List.append_cons cs '/' more]
  cases e with
  | anywhere piece =>
    have hnone : .ending ∉ [piece] := fun hmem => h (List.mem_singleton.mp hmem).symm
    obtain ⟨rest, ⟨before, hbefore⟩, hfits⟩ := isFound_anywhere.mp hfound
    left
    refine isFound_anywhere.mpr ⟨rest ++ more, ⟨before, ?_⟩, hfits.append hnone more⟩
    rw [← List.append_assoc, hbefore]
  | fromStart pieces =>
    rw [isFound_fromStart] at hfound ⊢
    cases h with
    | stars _ hnone => exact Or.inl (hfound.append hnone more)
    | segment _ hbefore hpiece =>
      obtain ⟨left, hleft, hfits⟩ := fits_append.mp hfound
      rcases hpiece.fits_below (suffix_of_mem_remaindersOf hleft) hfits more with
        hmore | ⟨b, rfl, hb, rfl⟩
      · exact Or.inl (fits_append.mpr ⟨_, append_mem_remaindersOf hbefore hleft more, hmore⟩)
      · exact Or.inr ⟨_, b, rfl, hb, hleft⟩

end

end SourceSnapshot.Pattern
