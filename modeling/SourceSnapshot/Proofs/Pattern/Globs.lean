import SourceSnapshot.Proofs.Pattern.Components
import SourceSnapshot.Proofs.Pattern.Remainders

/-!
# Globs in the text of a path

The text of a path is its components with slashes between them, and another one at the end if it is
that of a directory. The pieces of a glob stay within a component. So if what comes behind them only
fits where a component ends, they match exactly one component.
-/

namespace SourceSnapshot.Pattern

/-- A component that a path can have: it is not empty, and has neither a slash nor a line break. -/
def IsComponent (component : List Char) : Prop :=
  component ≠ [] ∧ '/' ∉ component ∧ '\n' ∉ component

/-- What stands behind a component: the components below it, each behind a slash, and the slash at
the end of a directory. -/
def behind (components : List (List Char)) (isDir : Bool) : List Char :=
  components.flatMap ('/' :: ·) ++ if isDir then ['/'] else []

/-- The text of a path from the start of a component on. -/
def textFrom (components : List (List Char)) (isDir : Bool) : List Char :=
  match components with
  | [] => []
  | component :: below => component ++ behind below isDir

/-- A text that is at a slash or at its end. -/
def AtBoundary (cs : List Char) : Prop := ∀ c, cs.head? = some c → c = '/'

section

variable {components : List (List Char)} {isDir : Bool}

theorem behind_cons (component : List Char) :
    behind (component :: components) isDir = '/' :: textFrom (component :: components) isDir := by
  simp [behind, textFrom]

/-- Behind a component the next one starts, if there is one or the component is a directory. -/
theorem behind_eq_cons_iff {cs : List Char} :
    behind components isDir = '/' :: cs ↔
      (components ≠ [] ∨ isDir = true) ∧ cs = textFrom components isDir := by
  cases components with
  | nil => cases isDir <;> simp [behind, textFrom, eq_comm]
  | cons component below => simp [behind_cons, eq_comm]

/-- What stands behind a component is at a boundary. -/
theorem atBoundary_behind : AtBoundary (behind components isDir) := by
  intro c hc
  cases components with
  | nil =>
    cases isDir with
    | true => exact (Option.some.inj hc).symm
    | false => cases hc
  | cons component below => simpa [behind_cons, eq_comm] using hc

/-- No line break stands in the text of a path. -/
theorem newline_notMem_behind (h : ∀ c ∈ components, IsComponent c) :
    '\n' ∉ behind components isDir := by
  intro hmem
  rw [behind, List.mem_append, List.mem_flatMap] at hmem
  rcases hmem with ⟨component, hcomponent, hmem⟩ | hmem
  · rcases List.mem_cons.mp hmem with hmem | hmem
    · exact absurd hmem (by decide)
    · exact (h component hcomponent).2.2 hmem
  · cases isDir with
    | true => exact absurd (List.mem_singleton.mp hmem) (by decide)
    | false => cases hmem

/-- No line break stands in the text from a component on. -/
theorem newline_notMem_textFrom (h : ∀ c ∈ components, IsComponent c) :
    '\n' ∉ textFrom components isDir := by
  cases components with
  | nil => exact List.not_mem_nil
  | cons component below =>
    have hline : '\n' ∉ behind (component :: below) isDir := newline_notMem_behind h
    rw [behind_cons] at hline
    exact List.not_mem_of_not_mem_cons hline

theorem textFrom_ne_nil {component : List Char} (h : IsComponent component) :
    textFrom (component :: components) isDir ≠ [] :=
  List.append_ne_nil_of_left_ne_nil h.1 _

theorem behind_append (above below : List (List Char)) :
    behind (above ++ below) isDir = behind above false ++ behind below isDir := by
  simp [behind]

/-- A text that starts with a name without a slash and goes on at a boundary is cut within the name
by any beginning without a slash. -/
theorem append_eq_append_of_atBoundary {name rest run left : List Char}
    (h : name ++ rest = run ++ left) (hrest : AtBoundary rest) (hrun : '/' ∉ run) :
    ∃ tail, name = run ++ tail ∧ left = tail ++ rest := by
  rcases List.append_eq_append_iff.mp h with ⟨more, rfl, rfl⟩ | ⟨tail, rfl, rfl⟩
  · cases more with
    | nil => exact ⟨[], by simp, by simp⟩
    | cons c more =>
      obtain rfl := hrest c rfl
      exact absurd (by simp) hrun
  · exact ⟨tail, rfl, rfl⟩

/-- A slash behind a component stands in front of a later component, or at the end. -/
theorem exists_append_of_behind_eq (h : ∀ c ∈ components, '/' ∉ c)
    {before after : List Char} (heq : behind components isDir = before ++ '/' :: after) :
    ∃ above below, components = above ++ below ∧ before = behind above false ∧
      '/' :: after = behind below isDir := by
  induction components generalizing before with
  | nil =>
    refine ⟨[], [], rfl, ?_⟩
    cases before with
    | nil => exact ⟨rfl, heq.symm⟩
    | cons c before => cases isDir <;> simp [behind] at heq
  | cons component below ih =>
    cases before with
    | nil => exact ⟨[], component :: below, rfl, rfl, heq.symm⟩
    | cons c before =>
      rw [behind_cons, List.cons_append] at heq
      obtain ⟨hc, htext⟩ := List.cons.inj heq
      rw [textFrom] at htext
      subst hc
      obtain ⟨hcomponent, hbelow⟩ := List.forall_mem_cons.mp h
      have hslash : AtBoundary ('/' :: after) := fun c hc => (Option.some.inj hc).symm
      obtain ⟨tail, rfl, htail⟩ := append_eq_append_of_atBoundary htext.symm hslash hcomponent
      obtain ⟨above, rest, rfl, rfl, hafter⟩ := ih hbelow htail
      refine ⟨component :: above, rest, rfl, ?_, hafter⟩
      rw [behind_cons, textFrom]

/-- A slash in the text of a path stands behind some of its components. -/
theorem exists_append_of_textFrom_eq (h : ∀ c ∈ components, '/' ∉ c) {before after : List Char}
    (heq : textFrom components isDir = before ++ '/' :: after) :
    ∃ above below, components = above ++ below ∧ above ≠ [] ∧ before = textFrom above false ∧
      '/' :: after = behind below isDir := by
  have hbehind : behind components isDir = ('/' :: before) ++ '/' :: after := by
    cases components with
    | nil => exact absurd (List.append_eq_nil_iff.mp heq.symm).2 (List.cons_ne_nil _ _)
    | cons component below => rw [behind_cons, heq, List.cons_append]
  obtain ⟨above, below, rfl, habove, hbelow⟩ := exists_append_of_behind_eq h hbehind
  obtain ⟨hsome, rfl⟩ := behind_eq_cons_iff.mp habove.symm
  exact ⟨above, below, rfl, hsome.resolve_right Bool.false_ne_true, rfl, hbelow⟩

theorem textFrom_append {above : List (List Char)} (hne : above ≠ []) (below : List (List Char)) :
    textFrom (above ++ below) isDir = textFrom above false ++ behind below isDir := by
  obtain ⟨component, others, rfl⟩ := List.exists_cons_of_ne_nil hne
  rw [List.cons_append, textFrom, textFrom, behind_append, List.append_assoc]

theorem textFrom_true (hne : components ≠ []) :
    textFrom components true = textFrom components false ++ ['/'] := by
  obtain ⟨component, below, rfl⟩ := List.exists_cons_of_ne_nil hne
  simp [textFrom, behind]

end

theorem atoms_star (glob : List Char) : atoms ('*' :: glob) = (.run :: ·) <$> atoms glob := by
  rw [atoms, atomsFrom.eq_def]
  simp [atoms]

theorem atoms_one (glob : List Char) : atoms ('?' :: glob) = (.one :: ·) <$> atoms glob := by
  rw [atoms, atomsFrom.eq_def]
  simp [atoms]

theorem atoms_escaped (d : Char) (glob : List Char) :
    atoms ('\\' :: d :: glob) = (.literal d :: ·) <$> atoms glob := rfl

theorem atoms_literal {d : Char} (hescape : d ≠ '\\') (hstar : d ≠ '*') (hone : d ≠ '?')
    (hbracket : d ≠ '[') (glob : List Char) :
    atoms (d :: glob) = (.literal d :: ·) <$> atoms glob := by
  rw [atoms, atomsFrom.eq_def]
  simp [hescape, hstar, hone, hbracket, atoms]

/-- What is read with a part in front is that part and what is read of the rest. -/
theorem atoms_map_eq_ok {atom : Atom} {read : Except GlobFault (List Atom)} {atoms' : List Atom}
    (h : (atom :: ·) <$> read = .ok atoms') :
    ∃ others, read = .ok others ∧ atoms' = atom :: others := by
  cases read with
  | error fault => cases h
  | ok others => exact ⟨others, rfl, (Except.ok.inj h).symm⟩

section

variable {ignoreCase : Bool} {more : List Piece} {rest : List Char}

/-- A literal that is no slash takes the first character of a name. -/
theorem fits_literal_append {d : Char} (hd : d ≠ '/') (hrest : AtBoundary rest)
    (name : List Char) :
    Fits ignoreCase (.literal d :: more) (name ++ rest) ↔
      ∃ c left, name = c :: left ∧ sameChar ignoreCase d c = true ∧
        Fits ignoreCase more (left ++ rest) := by
  rw [fits_literal]
  constructor
  · rintro ⟨c, behind, heq, hsame, hfits⟩
    cases name with
    | nil =>
      obtain rfl : rest = c :: behind := heq
      obtain rfl := hrest c rfl
      exact absurd (eq_slash_of_sameChar hsame) hd
    | cons c' left =>
      obtain ⟨rfl, rfl⟩ := List.cons.inj heq
      exact ⟨c', left, rfl, hsame, hfits⟩
  · rintro ⟨c, left, rfl, hsame, hfits⟩
    exact ⟨c, left ++ rest, rfl, hsame, hfits⟩

/-- A single wildcard takes the first character of a name. -/
theorem fits_one_append (hrest : AtBoundary rest) {name : List Char} (hname : '/' ∉ name) :
    Fits ignoreCase (.one :: more) (name ++ rest) ↔
      ∃ c left, name = c :: left ∧ Fits ignoreCase more (left ++ rest) := by
  rw [fits_one]
  constructor
  · rintro ⟨c, behind, heq, hc, hfits⟩
    cases name with
    | nil =>
      obtain rfl : rest = c :: behind := heq
      exact absurd (hrest c rfl) hc
    | cons c' left =>
      obtain ⟨rfl, rfl⟩ := List.cons.inj heq
      exact ⟨c', left, rfl, hfits⟩
  · rintro ⟨c, left, rfl, hfits⟩
    refine ⟨c, left ++ rest, rfl, ?_, hfits⟩
    rintro rfl
    exact hname (List.mem_cons_self ..)

/-- A run takes any beginning of a name. -/
theorem fits_run_append (hrest : AtBoundary rest) {name : List Char} (hname : '/' ∉ name) :
    Fits ignoreCase (.run :: more) (name ++ rest) ↔
      ∃ run left, name = run ++ left ∧ Fits ignoreCase more (left ++ rest) := by
  rw [fits_run]
  constructor
  · rintro ⟨run, behind, heq, hrun, hfits⟩
    obtain ⟨left, rfl, rfl⟩ := append_eq_append_of_atBoundary heq hrest hrun
    exact ⟨run, left, rfl, hfits⟩
  · rintro ⟨run, left, rfl, hfits⟩
    refine ⟨run, left ++ rest, List.append_assoc run left rest, ?_, hfits⟩
    exact fun hrun => hname (List.mem_append_left left hrun)

/-- The pieces only fit where a component ends. -/
def FitsAtBoundary (ignoreCase : Bool) (pieces : List Piece) : Prop :=
  ∀ cs, '\n' ∉ cs → Fits ignoreCase pieces cs → AtBoundary cs

/-- If a run is followed by pieces that fit the rest of the name and its end, it takes what is in
front of that rest. -/
private theorem fits_run_step (hrest : AtBoundary rest) {pieces : List Piece}
    {P : List Char → Prop} {name : List Char} (hname : '/' ∉ name)
    (hpieces : ∀ left, left <:+ name →
      (Fits ignoreCase pieces (left ++ rest) ↔ P left ∧ Fits ignoreCase more rest)) :
    Fits ignoreCase (.run :: pieces) (name ++ rest) ↔
      (∃ run left, name = run ++ left ∧ P left) ∧ Fits ignoreCase more rest := by
  rw [fits_run_append hrest hname]
  constructor
  · rintro ⟨run, left, rfl, hfits⟩
    obtain ⟨hP, hlast⟩ := (hpieces left (List.suffix_append run left)).mp hfits
    exact ⟨⟨run, left, rfl, hP⟩, hlast⟩
  · rintro ⟨⟨run, left, rfl, hP⟩, hlast⟩
    exact ⟨run, left, rfl, (hpieces left (List.suffix_append run left)).mpr ⟨hP, hlast⟩⟩

/-- If a single wildcard is followed by pieces that fit the rest of the name and its end, it takes
the character in front of that rest. -/
private theorem fits_one_step (hrest : AtBoundary rest) {pieces : List Piece}
    {P : List Char → Prop} {name : List Char} (hname : '/' ∉ name)
    (hpieces : ∀ left, left <:+ name →
      (Fits ignoreCase pieces (left ++ rest) ↔ P left ∧ Fits ignoreCase more rest)) :
    Fits ignoreCase (.one :: pieces) (name ++ rest) ↔
      (∃ c left, name = c :: left ∧ P left) ∧ Fits ignoreCase more rest := by
  rw [fits_one_append hrest hname]
  constructor
  · rintro ⟨c, left, rfl, hfits⟩
    obtain ⟨hP, hlast⟩ := (hpieces left (List.suffix_cons c left)).mp hfits
    exact ⟨⟨c, left, rfl, hP⟩, hlast⟩
  · rintro ⟨⟨c, left, rfl, hP⟩, hlast⟩
    exact ⟨c, left, rfl, (hpieces left (List.suffix_cons c left)).mpr ⟨hP, hlast⟩⟩

/-- If a literal is followed by pieces that fit the rest of the name and its end, it takes the
character in front of that rest. -/
private theorem fits_literal_step {d : Char} (hd : d ≠ '/') (hrest : AtBoundary rest)
    {pieces : List Piece} {P : List Char → Prop} {name : List Char}
    (hpieces : ∀ left, left <:+ name →
      (Fits ignoreCase pieces (left ++ rest) ↔ P left ∧ Fits ignoreCase more rest)) :
    Fits ignoreCase (.literal d :: pieces) (name ++ rest) ↔
      (∃ c left, name = c :: left ∧ sameChar ignoreCase d c = true ∧ P left) ∧
        Fits ignoreCase more rest := by
  rw [fits_literal_append hd hrest]
  constructor
  · rintro ⟨c, left, rfl, hsame, hfits⟩
    obtain ⟨hP, hlast⟩ := (hpieces left (List.suffix_cons c left)).mp hfits
    exact ⟨⟨c, left, rfl, hsame, hP⟩, hlast⟩
  · rintro ⟨⟨c, left, rfl, hsame, hP⟩, hlast⟩
    exact ⟨c, left, rfl, hsame, (hpieces left (List.suffix_cons c left)).mpr ⟨hP, hlast⟩⟩

/-- The pieces of a glob, with others behind them that only fit where a component ends, fit if the
glob matches the whole component and the others fit behind it. -/
theorem fits_atoms_append (hmore : FitsAtBoundary ignoreCase more) (hrest : AtBoundary rest)
    (hline : '\n' ∉ rest) {glob : List Char} (hbrackets : bracketsEscaped glob = true)
    (hslash : '/' ∉ glob) {atoms' : List Atom} (hatoms : atoms glob = .ok atoms')
    {name : List Char} (hname : '/' ∉ name) (hnewline : '\n' ∉ name) :
    Fits ignoreCase (atoms'.map Atom.piece ++ more) (name ++ rest) ↔
      globMatches ignoreCase glob name = true ∧ Fits ignoreCase more rest := by
  fun_induction bracketsEscaped glob generalizing atoms' name with
  | case1 d glob ih =>
    have hd : d ≠ '/' := by
      rintro rfl
      exact hslash (by simp)
    have hglob : '/' ∉ glob := fun h => hslash (by simp [h])
    rw [atoms_escaped] at hatoms
    obtain ⟨others, hothers, rfl⟩ := atoms_map_eq_ok hatoms
    rw [globMatches_escaped]
    refine fits_literal_step hd hrest fun left hleft => ?_
    exact ih hbrackets hglob hothers (mt (hleft.subset ·) hname) (mt (hleft.subset ·) hnewline)
  | case2 glob => cases hbrackets
  | case3 d glob hescape hbracket ih =>
    have hd : d ≠ '/' := by
      rintro rfl
      exact hslash (by simp)
    have hglob : '/' ∉ glob := fun h => hslash (by simp [h])
    have hbehind : ∀ others, atoms glob = .ok others → ∀ left, left <:+ name →
        (Fits ignoreCase (others.map Atom.piece ++ more) (left ++ rest) ↔
          globMatches ignoreCase glob left = true ∧ Fits ignoreCase more rest) :=
      fun others hothers left hleft => ih hbrackets hglob hothers (mt (hleft.subset ·) hname)
        (mt (hleft.subset ·) hnewline)
    by_cases hopen : d = '\\'
    · subst hopen
      cases glob with
      | nil => cases hatoms
      | cons c glob => exact absurd rfl (hescape c glob rfl)
    by_cases hstar : d = '*'
    · subst hstar
      rw [atoms_star] at hatoms
      obtain ⟨others, hothers, rfl⟩ := atoms_map_eq_ok hatoms
      rw [globMatches_star]
      exact fits_run_step hrest hname (hbehind others hothers)
    by_cases hone : d = '?'
    · subst hone
      rw [atoms_one] at hatoms
      obtain ⟨others, hothers, rfl⟩ := atoms_map_eq_ok hatoms
      rw [globMatches_one]
      exact fits_one_step hrest hname (hbehind others hothers)
    rw [atoms_literal hopen hstar hone hbracket] at hatoms
    obtain ⟨others, hothers, rfl⟩ := atoms_map_eq_ok hatoms
    rw [globMatches_literal hstar hone hopen]
    exact fits_literal_step hd hrest (hbehind others hothers)
  | case4 =>
    obtain rfl := Except.ok.inj hatoms
    rw [List.map_nil, List.nil_append, globMatches, List.isEmpty_iff]
    constructor
    · intro hfits
      have hboundary := hmore (name ++ rest)
        (fun h => (List.mem_append.mp h).elim hnewline hline) hfits
      cases name with
      | nil => exact ⟨rfl, hfits⟩
      | cons c name =>
        obtain rfl := hboundary c rfl
        exact absurd (List.mem_cons_self ..) hname
    · rintro ⟨rfl, hfits⟩
      exact hfits

end

end SourceSnapshot.Pattern
