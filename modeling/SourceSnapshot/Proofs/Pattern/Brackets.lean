import SourceSnapshot.Proofs.Pattern.Globs
import SourceSnapshot.Proofs.Text.Escapes

/-!
# Which texts are globs

A glob is a sequence of parts, each written in its own way: wildcards, characters behind a
backslash, bracket expressions that are closed, and all other characters. Reading a text finds these
parts. A text is no glob if, behind parts that can be read, it ends in an open escape or has an
opening bracket that nothing closes.
-/

namespace SourceSnapshot.Pattern

namespace Bracket

/-- What stands between the brackets of a bracket expression: an exclamation mark or a caret if it
is negated, and at least one character behind it, of which only the first can be a closing
bracket. -/
inductive IsWritten : Bracket → List Char → Prop where
  | plain {body : List Char} (hne : body ≠ []) (hclosing : ']' ∉ body.tail)
    (hbang : body.head? ≠ some '!') (hcaret : body.head? ≠ some '^') : IsWritten ⟨false, body⟩ body
  | negated {body : List Char} {mark : Char} (hmark : mark = '!' ∨ mark = '^') (hne : body ≠ [])
    (hclosing : ']' ∉ body.tail) : IsWritten ⟨true, body⟩ (mark :: body)

/-- The text up to a closing bracket, if there is one. -/
def upToClosing? (cs : List Char) : Option (List Char) :=
  if (cs.takeWhile (· != ']')).length < cs.length then some (cs.takeWhile (· != ']')) else none

/-- A closing bracket in the first place, and what stands behind it. -/
def splitClosing : List Char → List Char × List Char
  | ']' :: rest => ([']'], rest)
  | rest => ([], rest)

/-- The body of a bracket expression, if something closes it behind its first character. -/
def closedBody? (cs : List Char) : Option (List Char) :=
  (upToClosing? (splitClosing cs).2).map ((splitClosing cs).1 ++ ·)

/-- The mark of negation, and what stands behind it. -/
def splitMark : List Char → Bool × List Char
  | '!' :: rest => (true, rest)
  | '^' :: rest => (true, rest)
  | rest => (false, rest)

/-- A bracket expression is a mark, or none, and a body. -/
theorem read?_eq (cs : List Char) :
    read? cs = (closedBody? (splitMark cs).2).map fun body =>
      (⟨(splitMark cs).1, body⟩, (if (splitMark cs).1 then 1 else 0) + body.length + 1) := by
  let mark := splitMark cs
  let first := (splitClosing mark.2).1
  let rest := (splitClosing mark.2).2
  let inner := rest.takeWhile (· != ']')
  have hread : read? cs = if inner.length < rest.length then
      some (⟨mark.1, first ++ inner⟩, (if mark.1 then 1 else 0) + first.length + inner.length + 1)
      else none := rfl
  rw [hread, closedBody?, upToClosing?]
  split <;> simp_all [mark, first, rest, inner, Nat.add_assoc]

theorem upToClosing?_eq_some_iff {cs inner : List Char} :
    upToClosing? cs = some inner ↔ ∃ behind, cs = inner ++ ']' :: behind ∧ ']' ∉ inner := by
  have hall : ∀ {inner behind : List Char}, ']' ∉ inner →
      (inner ++ ']' :: behind).takeWhile (· != ']') = inner := by
    intro inner behind h
    have hinner : ∀ c ∈ inner, (c != ']') = true := forall_mem_bne.mpr h
    simp [List.takeWhile_append_of_pos hinner]
  rw [upToClosing?]
  constructor
  · intro h
    split at h
    · rename_i hlt
      have hmem : ']' ∈ cs := by
        by_contra hmem
        rw [List.takeWhile_eq_self_iff.mpr (forall_mem_bne.mpr hmem)] at hlt
        omega
      obtain ⟨first, behind, rfl, hfirst⟩ := List.eq_append_cons_of_mem hmem
      rw [hall hfirst] at h
      obtain rfl := Option.some.inj h
      exact ⟨behind, rfl, hfirst⟩
    · cases h
  · rintro ⟨behind, rfl, hinner⟩
    rw [hall hinner, if_pos (by simp)]

theorem closedBody?_eq_some_iff {cs body : List Char} :
    closedBody? cs = some body ↔
      ∃ behind, cs = body ++ ']' :: behind ∧ body ≠ [] ∧ ']' ∉ body.tail := by
  simp only [closedBody?, Option.map_eq_some_iff, upToClosing?_eq_some_iff]
  rw [splitClosing.eq_def]
  split
  · rename_i rest
    constructor
    · rintro ⟨inner, ⟨behind, rfl, hinner⟩, rfl⟩
      exact ⟨behind, rfl, by simp, hinner⟩
    · rintro ⟨behind, heq, hne, hbody⟩
      obtain ⟨c, inner, rfl⟩ := List.exists_cons_of_ne_nil hne
      rw [List.cons_append] at heq
      obtain ⟨rfl, rfl⟩ := List.cons.inj heq
      exact ⟨inner, ⟨behind, rfl, hbody⟩, rfl⟩
  · rename_i hhead
    simp only [List.nil_append, exists_eq_right]
    constructor
    · rintro ⟨behind, rfl, hbody⟩
      have hne : body ≠ [] := by
        rintro rfl
        exact hhead behind rfl
      exact ⟨behind, rfl, hne, fun hmem => hbody (List.mem_of_mem_tail hmem)⟩
    · rintro ⟨behind, rfl, hne, hbody⟩
      obtain ⟨c, inner, rfl⟩ := List.exists_cons_of_ne_nil hne
      refine ⟨behind, rfl, ?_⟩
      rw [List.mem_cons, not_or]
      refine ⟨?_, hbody⟩
      rintro rfl
      exact hhead _ rfl

/-- A bracket expression is read up to the bracket that closes it. -/
theorem read?_eq_some_iff {cs : List Char} {b : Bracket} {width : Nat} :
    read? cs = some (b, width) ↔
      ∃ content behind, cs = content ++ ']' :: behind ∧ b.IsWritten content ∧
        width = content.length + 1 := by
  simp only [read?_eq, Option.map_eq_some_iff, closedBody?_eq_some_iff]
  constructor
  · rintro ⟨body, ⟨behind, hcs, hne, hclosing⟩, heq⟩
    obtain ⟨rfl, rfl⟩ := Prod.mk.inj heq
    rw [splitMark.eq_def] at hcs ⊢
    split at hcs
    · refine ⟨'!' :: body, behind, congrArg _ hcs, .negated (Or.inl rfl) hne hclosing, ?_⟩
      simp [Nat.add_comm]
    · refine ⟨'^' :: body, behind, congrArg _ hcs, .negated (Or.inr rfl) hne hclosing, ?_⟩
      simp [Nat.add_comm]
    · rename_i hbang hcaret
      obtain ⟨c, inner, rfl⟩ := List.exists_cons_of_ne_nil hne
      dsimp only at hcs
      subst hcs
      refine ⟨c :: inner, behind, rfl, .plain hne hclosing ?_ ?_, by simp⟩
      · intro h
        exact hbang _ (by rw [Option.some.inj h]; rfl)
      · intro h
        exact hcaret _ (by rw [Option.some.inj h]; rfl)
  · rintro ⟨content, behind, rfl, hwritten, rfl⟩
    cases hwritten with
    | plain hne hclosing hbang hcaret =>
      obtain ⟨c, inner, rfl⟩ := List.exists_cons_of_ne_nil hne
      have hmark : splitMark (c :: inner ++ ']' :: behind) =
          (false, c :: inner ++ ']' :: behind) := by
        rw [splitMark.eq_def]
        split
        · rename_i heq
          exact absurd (congrArg some (List.cons.inj heq).1) hbang
        · rename_i heq
          exact absurd (congrArg some (List.cons.inj heq).1) hcaret
        · rfl
      rw [hmark]
      exact ⟨c :: inner, ⟨behind, rfl, hne, hclosing⟩, by simp⟩
    | @negated body mark hmark hne hclosing =>
      have hsplit : splitMark (mark :: body ++ ']' :: behind) = (true, body ++ ']' :: behind) := by
        rcases hmark with rfl | rfl <;> rfl
      rw [hsplit]
      exact ⟨body, ⟨behind, rfl, hne, hclosing⟩, by simp; omega⟩

/-- Without a closing bracket there is no bracket expression to read. -/
theorem read?_eq_none_iff {cs : List Char} :
    read? cs = none ↔
      ∀ (b : Bracket) content behind, cs = content ++ ']' :: behind → ¬b.IsWritten content := by
  constructor
  · intro h b content behind hcs hb
    rw [read?_eq_some_iff.mpr ⟨content, behind, hcs, hb, rfl⟩] at h
    cases h
  · intro h
    rw [Option.eq_none_iff_forall_ne_some]
    rintro ⟨b, width⟩ hread
    obtain ⟨content, behind, hcs, hb, -⟩ := read?_eq_some_iff.mp hread
    exact h b content behind hcs hb

end Bracket

/-- The parts that a text is made of, if it is a glob. -/
inductive IsGlob : List Char → List Atom → Prop where
  | nil : IsGlob [] []
  | run {cs : List Char} {parts : List Atom} (h : IsGlob cs parts) :
    IsGlob ('*' :: cs) (.run :: parts)
  | one {cs : List Char} {parts : List Atom} (h : IsGlob cs parts) :
    IsGlob ('?' :: cs) (.one :: parts)
  | escaped (c : Char) {cs : List Char} {parts : List Atom} (h : IsGlob cs parts) :
    IsGlob ('\\' :: c :: cs) (.literal c :: parts)
  | bracket {b : Bracket} {content cs : List Char} {parts : List Atom} (hb : b.IsWritten content)
      (h : IsGlob cs parts) : IsGlob ('[' :: (content ++ ']' :: cs)) (.bracket b :: parts)
  | literal {c : Char} {cs : List Char} {parts : List Atom} (hc : c ∉ ['\\', '*', '?', '['])
      (h : IsGlob cs parts) : IsGlob (c :: cs) (.literal c :: parts)

theorem atoms_open {cs : List Char} (h : Bracket.read? cs = none) :
    atoms ('[' :: cs) = .error .unclosedBracket := by
  rw [atoms, atomsFrom.eq_def]
  simp [h]

/-- A bracket expression is read as it is written. -/
theorem atoms_bracket {b : Bracket} {content : List Char} (hb : b.IsWritten content)
    (cs : List Char) :
    atoms ('[' :: (content ++ ']' :: cs)) = (.bracket b :: ·) <$> atoms cs := by
  have hread : Bracket.read? (content ++ ']' :: cs) = some (b, content.length + 1) :=
    Bracket.read?_eq_some_iff.mpr ⟨content, cs, rfl, hb, rfl⟩
  have hdrop : (content ++ ']' :: cs).drop (content.length + 1) = cs := by
    rw [List.drop_append]
    simp
  rw [atoms, atomsFrom.eq_def]
  simp [hread, atomsFrom_eq_drop, hdrop]

section

variable {cs more : List Char} {parts others : List Atom}

/-- Behind parts that can be read, reading goes on. -/
theorem IsGlob.atoms_append (h : IsGlob cs parts) (more : List Char) :
    atoms (cs ++ more) = (parts ++ ·) <$> atoms more := by
  have hmap : ∀ (atom : Atom) (parts : List Atom) (read : Except GlobFault (List Atom)),
      (atom :: ·) <$> ((parts ++ ·) <$> read) = (atom :: parts ++ ·) <$> read := by
    intro atom parts read
    cases read <;> rfl
  induction h with
  | nil => cases hmore : atoms more <;> simp [hmore]
  | run h ih => rw [List.cons_append, atoms_star, ih, hmap]
  | one h ih => rw [List.cons_append, atoms_one, ih, hmap]
  | escaped c h ih => rw [List.cons_append, List.cons_append, atoms_escaped, ih, hmap]
  | bracket hb h ih =>
    rw [List.cons_append, List.append_assoc, List.cons_append, atoms_bracket hb, ih, hmap]
  | literal hc h ih =>
    simp only [List.mem_cons, List.not_mem_nil, or_false, not_or] at hc
    rw [List.cons_append, atoms_literal hc.1 hc.2.1 hc.2.2.1 hc.2.2.2, ih, hmap]

theorem IsGlob.atoms_eq (h : IsGlob cs parts) : atoms cs = .ok parts := by
  simpa [atoms, atomsFrom] using h.atoms_append []

theorem IsGlob.append (h : IsGlob cs parts) (hmore : IsGlob more others) :
    IsGlob (cs ++ more) (parts ++ others) := by
  induction h with
  | nil => exact hmore
  | run h ih => exact .run ih
  | one h ih => exact .one ih
  | escaped c h ih => exact .escaped c ih
  | bracket hb h ih => simpa using IsGlob.bracket hb ih
  | literal hc h ih => exact .literal hc ih

/-- A glob leaves no escape open. -/
theorem IsGlob.endsInOpenEscape_eq_false (h : IsGlob cs parts) :
    Text.endsInOpenEscape cs = false := by
  induction h with
  | nil => rfl
  | run h ih => rwa [Text.endsInOpenEscape_cons (by decide)]
  | one h ih => rwa [Text.endsInOpenEscape_cons (by decide)]
  | escaped c h ih => rwa [Text.endsInOpenEscape_escaped]
  | @bracket b content cs parts hb h ih =>
    rwa [← List.cons_append, Text.endsInOpenEscape_append_cons (by decide)]
  | literal hc h ih =>
    simp only [List.mem_cons, not_or] at hc
    rwa [Text.endsInOpenEscape_cons hc.1]

/-- Whether a text has an opening bracket that nothing closes, behind parts that can be read. -/
def HasOpenBracket (cs : List Char) : Prop :=
  ∃ before rest parts, cs = before ++ '[' :: rest ∧ IsGlob before parts ∧
    ∀ (b : Bracket) content behind, rest = content ++ ']' :: behind → ¬b.IsWritten content

/-- Whether a text has a closed bracket expression with a range that is the wrong way round, behind
parts that can be read. -/
def HasReversedRange (cs : List Char) : Prop :=
  ∃ before content behind parts, ∃ b : Bracket,
    cs = before ++ '[' :: (content ++ ']' :: behind) ∧ IsGlob before parts ∧
      b.IsWritten content ∧ b.isOrdered = false

/-- What reading a text can meet at its end. -/
inductive GlobEnd (cs : List Char) : Prop where
  | whole {parts : List Atom} (h : IsGlob cs parts)
  | openEscape {before : List Char} {parts : List Atom} (h : IsGlob before parts)
    (hcs : cs = before ++ ['\\'])
  | openBracket (h : HasOpenBracket cs)

/-- Parts in front do not change what is met at the end. -/
theorem GlobEnd.append (h : GlobEnd more) (hcs : IsGlob cs parts) : GlobEnd (cs ++ more) := by
  cases h with
  | whole h => exact .whole (hcs.append h)
  | openEscape h hmore => exact .openEscape (hcs.append h) (by simp [hmore])
  | openBracket h =>
    obtain ⟨before, rest, others, rfl, hbefore, hrest⟩ := h
    exact .openBracket ⟨cs ++ before, rest, _, by simp, hcs.append hbefore, hrest⟩

/-- A text is a glob, or it ends in an open escape, or it has an open bracket. -/
theorem globEnd (cs : List Char) : GlobEnd cs := by
  induction hn : cs.length using Nat.strongRecOn generalizing cs with
  | ind n ih =>
    have hstep : ∀ {head : List Char} {parts : List Atom} {rest : List Char},
        IsGlob head parts → head ≠ [] → cs = head ++ rest → GlobEnd cs := by
      rintro head parts rest hhead hne rfl
      have hpos : 0 < head.length := List.length_pos_iff.mpr hne
      rw [List.length_append] at hn
      exact (ih rest.length (by omega) rest rfl).append hhead
    cases cs with
    | nil => exact .whole .nil
    | cons c rest =>
      by_cases hescape : c = '\\'
      · subst hescape
        cases rest with
        | nil => exact .openEscape .nil rfl
        | cons c rest => exact hstep (.escaped c .nil) (by simp) rfl
      by_cases hstar : c = '*'
      · subst hstar
        exact hstep (.run .nil) (by simp) rfl
      by_cases hone : c = '?'
      · subst hone
        exact hstep (.one .nil) (by simp) rfl
      by_cases hopen : c = '['
      · subst hopen
        cases hread : Bracket.read? rest with
        | none =>
          exact .openBracket ⟨[], rest, [], rfl, .nil, Bracket.read?_eq_none_iff.mp hread⟩
        | some found =>
          obtain ⟨content, behind, rfl, hb, -⟩ := Bracket.read?_eq_some_iff.mp hread
          have htext : '[' :: (content ++ ']' :: behind) = '[' :: (content ++ [']']) ++ behind := by
            simp
          exact hstep (.bracket hb .nil) (by simp) htext
      · exact hstep (.literal (by simp [hescape, hstar, hone, hopen]) .nil) (by simp) rfl

theorem HasOpenBracket.atoms_eq (h : HasOpenBracket cs) : atoms cs = .error .unclosedBracket := by
  obtain ⟨before, rest, parts, rfl, hbefore, hrest⟩ := h
  rw [hbefore.atoms_append, atoms_open (Bracket.read?_eq_none_iff.mpr hrest)]
  rfl

/-- A text that is read as a glob is one. -/
theorem atoms_eq_ok_iff : atoms cs = .ok parts ↔ IsGlob cs parts := by
  constructor
  · intro h
    cases globEnd cs with
    | whole hglob =>
      rw [hglob.atoms_eq] at h
      rwa [← Except.ok.inj h]
    | openEscape hbefore hcs =>
      rw [hcs, hbefore.atoms_append] at h
      cases h
    | openBracket hopen =>
      rw [hopen.atoms_eq] at h
      cases h
  · exact IsGlob.atoms_eq

/-- Each part of a glob has its place in the text. -/
theorem isGlob_append_iff :
    IsGlob cs (parts ++ others) ↔
      ∃ before behind, cs = before ++ behind ∧ IsGlob before parts ∧ IsGlob behind others := by
  constructor
  · intro h
    induction parts generalizing cs with
    | nil => exact ⟨[], cs, rfl, .nil, h⟩
    | cons part parts ih =>
      cases h with
      | run h =>
        obtain ⟨before, behind, rfl, hbefore, hbehind⟩ := ih h
        exact ⟨'*' :: before, behind, rfl, .run hbefore, hbehind⟩
      | one h =>
        obtain ⟨before, behind, rfl, hbefore, hbehind⟩ := ih h
        exact ⟨'?' :: before, behind, rfl, .one hbefore, hbehind⟩
      | escaped c h =>
        obtain ⟨before, behind, rfl, hbefore, hbehind⟩ := ih h
        exact ⟨'\\' :: c :: before, behind, rfl, .escaped c hbefore, hbehind⟩
      | @bracket b content _ _ hb h =>
        obtain ⟨before, behind, rfl, hbefore, hbehind⟩ := ih h
        exact ⟨'[' :: (content ++ ']' :: before), behind, by simp, .bracket hb hbefore, hbehind⟩
      | @literal c _ _ hc h =>
        obtain ⟨before, behind, rfl, hbefore, hbehind⟩ := ih h
        exact ⟨c :: before, behind, rfl, .literal hc hbefore, hbehind⟩
  · rintro ⟨before, behind, rfl, hbefore, hbehind⟩
    exact hbefore.append hbehind

/-- A text that can be a segment: a glob whose ranges are all the right way round. -/
def IsSound (cs : List Char) : Prop :=
  ∃ parts, IsGlob cs parts ∧ ∀ b, .bracket b ∈ parts → b.isOrdered = true

/-- A glob with a reversed range has it in one of its bracket expressions. -/
theorem IsGlob.hasReversedRange (h : IsGlob cs parts) {b : Bracket} (hb : .bracket b ∈ parts)
    (hrange : b.isOrdered = false) : HasReversedRange cs := by
  obtain ⟨first, others, rfl⟩ := List.append_of_mem hb
  obtain ⟨before, behind, rfl, hbefore, hbehind⟩ := isGlob_append_iff.mp h
  cases hbehind with
  | bracket hwritten _ => exact ⟨before, _, _, first, b, rfl, hbefore, hwritten, hrange⟩

/-- A text is sound unless it ends in an open escape, has an open bracket or a reversed range. -/
theorem not_isSound_iff :
    ¬IsSound cs ↔
      Text.endsInOpenEscape cs = true ∨ HasOpenBracket cs ∨ HasReversedRange cs := by
  constructor
  · intro h
    cases globEnd cs with
    | openEscape hbefore hcs => simp [hcs, hbefore.endsInOpenEscape_eq_false]
    | openBracket hopen => exact Or.inr (Or.inl hopen)
    | @whole parts hglob =>
      have hrange : ∃ b, .bracket b ∈ parts ∧ b.isOrdered = false := by
        by_contra hnone
        refine h ⟨parts, hglob, fun b hb => ?_⟩
        by_contra hb'
        exact hnone ⟨b, hb, Bool.eq_false_iff.mpr hb'⟩
      obtain ⟨b, hb, hrange⟩ := hrange
      exact Or.inr (Or.inr (hglob.hasReversedRange hb hrange))
  · rintro h ⟨parts, hglob, hordered⟩
    rcases h with hescape | hopen | ⟨before, content, behind, first, b, rfl, hbefore, hb, hrange⟩
    · simp [hglob.endsInOpenEscape_eq_false] at hescape
    · have hatoms := hglob.atoms_eq
      rw [hopen.atoms_eq] at hatoms
      cases hatoms
    · have hatoms := hglob.atoms_eq
      rw [hbefore.atoms_append, atoms_bracket hb] at hatoms
      cases hbehind : atoms behind with
      | error fault =>
        rw [hbehind] at hatoms
        cases hatoms
      | ok others =>
        rw [hbehind] at hatoms
        obtain rfl := Except.ok.inj hatoms
        simp [hordered b (by simp)] at hrange

theorem bracket_mem_of_hasOpenBracket_or (h : HasOpenBracket cs ∨ HasReversedRange cs) :
    '[' ∈ cs := by
  rcases h with ⟨before, rest, parts, rfl, -⟩ | ⟨before, content, behind, parts, b, rfl, -⟩
  · simp
  · simp

/-- A character that stands for itself can be put behind a text, if no escape is open. -/
theorem isSound_concat_iff {c : Char} (hc : c ∉ ['\\', '*', '?', '[', ']'])
    (hescape : Text.endsInOpenEscape cs = false) : IsSound (cs ++ [c]) ↔ IsSound cs := by
  simp only [List.mem_cons, List.not_mem_nil, or_false, not_or] at hc
  obtain ⟨hbackslash, hstar, hone, hopen, hclose⟩ := hc
  constructor
  · contrapose
    simp only [not_isSound_iff, hescape, Bool.false_eq_true, false_or]
    rintro (⟨before, rest, parts, rfl, hbefore, hrest⟩ |
      ⟨before, content, behind, parts, b, rfl, hbefore, hb, hrange⟩)
    · refine Or.inr (Or.inl ⟨before, rest ++ [c], parts, by simp, hbefore, ?_⟩)
      intro b content behind heq
      -- The closing bracket stands in front of the last character.
      rcases List.eq_nil_or_concat behind with rfl | ⟨more, d, rfl⟩
      · obtain ⟨-, hd⟩ := List.append_inj' heq rfl
        exact absurd (List.cons.inj hd).1 hclose
      · rw [List.concat_eq_append, ← List.cons_append, ← List.append_assoc] at heq
        exact hrest b content more (List.append_inj' heq rfl).1
    · exact Or.inr (Or.inr ⟨before, content, behind ++ [c], parts, b, by simp, hbefore, hb, hrange⟩)
  · rintro ⟨parts, hglob, hordered⟩
    refine ⟨parts ++ [.literal c], hglob.append (.literal ?_ .nil), by simpa using hordered⟩
    simp [hbackslash, hstar, hone, hopen]

end

end SourceSnapshot.Pattern
