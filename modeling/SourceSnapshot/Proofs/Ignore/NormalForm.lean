import SourceSnapshot.Ignore.Engine
import SourceSnapshot.Proofs.Text.Pieces

/-!
# The normal form of a relative path

A key is a normal form if it is its own key: then the path and the key share what an engine
remembers, and its answer. The `./` in front of a path are dropped before the slashes behind them,
once and in this order, so a `./` behind those slashes is still there at the beginning of the key.
This is the only way in which a key fails to be a normal form.
-/

namespace SourceSnapshot.Ignore

namespace Key

/-- A number of `./` behind each other. -/
def heres (count : Nat) : List Char := (List.replicate count ['.', '/']).flatten

/-- Whether a `./` is hidden behind slashes: those follow the `./` in front of the path. -/
def HidesHere (cs : List Char) : Prop :=
  ∃ count slashes rest,
    cs = heres count ++ List.replicate (slashes + 1) '/' ++ '.' :: '/' :: rest

theorem heres_succ (count : Nat) : heres (count + 1) = '.' :: '/' :: heres count := by
  rw [heres, List.replicate_succ, List.flatten_cons]
  rfl

/-- All `./` in front are dropped. -/
theorem dropHere_heres_append (count : Nat) (cs : List Char) :
    dropHere (heres count ++ cs) = dropHere cs := by
  induction count with
  | zero => rfl
  | succ count ih =>
    rw [heres_succ, List.cons_append, List.cons_append, dropHere, ih]

/-- What is dropped is a number of `./`. -/
theorem exists_eq_heres_append (cs : List Char) : ∃ count, cs = heres count ++ dropHere cs := by
  induction cs using dropHere.induct with
  | case1 rest ih =>
    obtain ⟨count, h⟩ := ih
    refine ⟨count + 1, ?_⟩
    rw [heres_succ, List.cons_append, List.cons_append, dropHere, ← h]
  | case2 cs hcs =>
    refine ⟨0, ?_⟩
    rw [dropHere.eq_2 cs hcs]
    rfl

theorem dropHere_eq_self {cs : List Char} (h : ¬['.', '/'] <+: cs) : dropHere cs = cs := by
  apply dropHere.eq_2
  rintro rest rfl
  exact h ⟨rest, rfl⟩

/-- What is left has no `./` in front. -/
theorem not_prefix_dropHere (cs : List Char) : ¬['.', '/'] <+: dropHere cs := by
  induction cs using dropHere.induct with
  | case1 rest ih => rwa [dropHere]
  | case2 cs hcs =>
    rw [dropHere.eq_2 cs hcs]
    rintro ⟨rest, rfl⟩
    exact hcs rest rfl

theorem length_dropHere_le (cs : List Char) : (dropHere cs).length ≤ cs.length := by
  obtain ⟨count, h⟩ := exists_eq_heres_append cs
  have hlength := congrArg List.length h
  rw [List.length_append] at hlength
  omega

/-- The path without the `./` in front and the slashes at both ends of the rest. -/
def bare (cs : List Char) : List Char := Text.trim (· == '/') (dropHere cs)

/-- What is trimmed is not longer. -/
theorem length_bare_le (cs : List Char) : (bare cs).length ≤ (dropHere cs).length := by
  have hfront := (List.dropWhile_suffix (· == '/') (l := dropHere cs)).length_le
  have hbehind :=
    (Text.dropTrailing_prefix (· == '/') ((dropHere cs).dropWhile (· == '/'))).length_le
  unfold bare Text.trim
  omega

/-- No slash is left in front. -/
theorem head?_bare (cs : List Char) : (bare cs).head? ≠ some '/' := by
  intro h
  obtain ⟨rest, hrest⟩ := List.head?_eq_some_iff.mp h
  obtain ⟨behind, hbehind⟩ :=
    Text.dropTrailing_prefix (· == '/') ((dropHere cs).dropWhile (· == '/'))
  have hfirst := List.head?_dropWhile_not (· == '/') (dropHere cs)
  have heq : (dropHere cs).dropWhile (· == '/') = '/' :: (rest ++ behind) := by
    rw [← hbehind, ← Text.trim, ← bare, hrest, List.cons_append]
  rw [heq] at hfirst
  simp at hfirst

theorem getLast?_bare (cs : List Char) : (bare cs).getLast? ≠ some '/' := by
  intro h
  have hlast := Text.getLast?_dropTrailing h
  simp at hlast

/-- A text without slashes at its ends is left as it is, and a slash behind it is dropped. -/
theorem trim_append_slashes {cs slashes : List Char} (hhead : cs.head? ≠ some '/')
    (hlast : cs.getLast? ≠ some '/') (hne : cs ≠ []) (hslashes : ∀ c ∈ slashes, c = '/') :
    Text.trim (· == '/') (cs ++ slashes) = cs := by
  have hfront : (cs ++ slashes).dropWhile (· == '/') = cs ++ slashes := by
    obtain ⟨c, rest, rfl⟩ := List.exists_cons_of_ne_nil hne
    have hc : (c == '/') = false := by simpa using hhead
    rw [List.cons_append, List.dropWhile_cons, hc]
    rfl
  rw [Text.trim, hfront, Text.dropTrailing_append cs fun c hc => beq_iff_eq.mpr (hslashes c hc)]
  apply Text.dropTrailing_eq_self
  intro c hc
  rw [beq_eq_false_iff_ne]
  rintro rfl
  exact hlast hc

/-- What is left between the slashes at both ends of a path that has a key: it is not empty, and it
neither stays at the root nor leads out of it. -/
structure IsInside (inner : List Char) : Prop where
  ne_nil : inner ≠ []
  ne_here : inner ≠ ['.']
  ne_above : inner ≠ ['.', '.']
  not_above : ¬['.', '.', '/'] <+: inner

/-- What is left is inside just if it passes both checks. -/
theorem isInside_iff {inner : List Char} :
    IsInside inner ↔ ¬(inner = [] ∨ inner = ['.']) ∧
      ¬(inner = ['.', '.'] ∨ ['.', '.', '/'].isPrefixOf inner = true) := by
  rw [not_or, not_or, List.isPrefixOf_iff_prefix]
  constructor
  · rintro ⟨hnil, hhere, habove, hbelow⟩
    exact ⟨⟨hnil, hhere⟩, habove, hbelow⟩
  · rintro ⟨⟨hnil, hhere⟩, habove, hbelow⟩
    exact ⟨hnil, hhere, habove, hbelow⟩

/-- A path has a key if it does not start with a slash and what is left of it is inside. -/
theorem ofPath_eq_ok_iff {path : String} {isDir : Bool} {k : Key} :
    ofPath path isDir = .ok k ↔
      path.toList.head? ≠ some '/' ∧ IsInside (bare path.toList) ∧
        k.chars = bare path.toList ++
          if isDir || Text.endsWith path.toList ['/'] then ['/'] else [] := by
  have hbare : Text.trim (· == '/') (dropHere path.toList) = bare path.toList := rfl
  have hkey : ∀ cs, (Except.ok ⟨cs⟩ : Except PathFault Key) = .ok k ↔ k.chars = cs := by
    intro cs
    cases k
    simp [eq_comm]
  unfold ofPath
  simp only [hbare, isInside_iff, Bool.or_eq_true, decide_eq_true_eq]
  generalize bare path.toList = inner
  split_ifs with hhead hempty habove hdir <;> simp_all

theorem eq_slash_of_mem_tail {isTree : Bool} {c : Char}
    (h : c ∈ if isTree then ['/'] else []) : c = '/' := by
  cases isTree <;> simp_all

/-- If a key begins with `./`, this stands before the slash at its end. -/
theorem IsInside.exists_eq_of_prefix {inner tail : List Char} (h : IsInside inner)
    (hfront : ['.', '/'] <+: inner ++ tail) : ∃ rest, inner = '.' :: '/' :: rest := by
  obtain ⟨behind, hbehind⟩ := hfront
  match inner, h with
  | [], h => exact absurd rfl h.ne_nil
  | [c], h =>
    obtain ⟨rfl, -⟩ := List.cons.inj hbehind
    exact absurd rfl h.ne_here
  | c :: d :: rest, _ =>
    obtain ⟨rfl, hrest⟩ := List.cons.inj hbehind
    obtain ⟨rfl, -⟩ := List.cons.inj hrest
    exact ⟨rest, rfl⟩

/-- If what is left between the slashes begins with `./`, the path hides it. -/
theorem hidesHere_of_bare {cs rest : List Char} (h : bare cs = '.' :: '/' :: rest) :
    HidesHere cs := by
  obtain ⟨behind, hbehind⟩ :=
    Text.dropTrailing_prefix (· == '/') ((dropHere cs).dropWhile (· == '/'))
  have hdrop : (dropHere cs).dropWhile (· == '/') = '.' :: '/' :: (rest ++ behind) := by
    rw [← hbehind]
    exact congrArg (· ++ behind) h
  have hslashes : (dropHere cs).takeWhile (· == '/') =
      List.replicate ((dropHere cs).takeWhile (· == '/')).length '/' := by
    apply List.eq_replicate_of_mem
    intro c hc
    exact beq_iff_eq.mp (List.mem_takeWhile_imp (p := (· == '/')) hc)
  have hsplit := List.takeWhile_append_dropWhile (p := (· == '/')) (l := dropHere cs)
  rw [hdrop, hslashes] at hsplit
  obtain ⟨count, hcount⟩ := exists_eq_heres_append cs
  cases hlength : ((dropHere cs).takeWhile (· == '/')).length with
  | zero =>
    -- Without slashes before it, the `./` would have been dropped with the others.
    rw [hlength, List.replicate_zero, List.nil_append] at hsplit
    exact absurd ⟨_, hsplit⟩ (not_prefix_dropHere cs)
  | succ slashes =>
    refine ⟨count, slashes, rest ++ behind, ?_⟩
    rw [List.append_assoc, ← hlength, hsplit, ← hcount]

/-- If a path hides a `./`, it begins with this once the slashes are dropped, unless nothing else is
left. -/
theorem HidesHere.prefix_bare {cs : List Char} (h : HidesHere cs) (hne : bare cs ≠ ['.']) :
    ['.', '/'] <+: bare cs := by
  obtain ⟨count, slashes, rest, rfl⟩ := h
  have hhere : ∀ behind, dropHere (List.replicate (slashes + 1) '/' ++ behind) =
      List.replicate (slashes + 1) '/' ++ behind := by
    intro behind
    apply dropHere_eq_self
    rintro ⟨more, hmore⟩
    simp [List.replicate_succ] at hmore
  have hbare : bare (heres count ++ List.replicate (slashes + 1) '/' ++ '.' :: '/' :: rest) =
      '.' :: Text.dropTrailing (· == '/') ('/' :: rest) := by
    rw [bare, List.append_assoc, dropHere_heres_append, hhere, Text.trim,
      List.dropWhile_append_of_pos (by simp)]
    exact Text.dropTrailing_cons_of_eq_false (by decide) _
  rw [hbare] at hne ⊢
  obtain ⟨more, hmore⟩ := Text.dropTrailing_prefix (· == '/') ('/' :: rest)
  cases hdrop : Text.dropTrailing (· == '/') ('/' :: rest) with
  | nil => exact absurd (congrArg ('.' :: ·) hdrop) hne
  | cons c others =>
    rw [hdrop] at hmore
    obtain ⟨rfl, -⟩ := List.cons.inj hmore
    exact ⟨others, rfl⟩

/-- A key begins with `./` just if the path hides one. -/
theorem prefix_iff_hidesHere {path : String} {isDir : Bool} {k : Key}
    (h : ofPath path isDir = .ok k) :
    ['.', '/'] <+: k.chars ↔ HidesHere path.toList := by
  obtain ⟨-, hinside, hchars⟩ := ofPath_eq_ok_iff.mp h
  rw [hchars]
  constructor
  · intro hfront
    obtain ⟨rest, hrest⟩ := hinside.exists_eq_of_prefix hfront
    exact hidesHere_of_bare hrest
  · intro hhides
    exact (hhides.prefix_bare hinside.ne_here).trans (List.prefix_append _ _)

/-- A key is its own key just if it does not begin with `./`. -/
theorem ofPath_text_iff_not_here {path : String} {isDir : Bool} {k : Key}
    (h : ofPath path isDir = .ok k) :
    ofPath k.text false = .ok k ↔ ¬['.', '/'] <+: k.chars := by
  obtain ⟨-, hinside, hchars⟩ := ofPath_eq_ok_iff.mp h
  rw [ofPath_eq_ok_iff, text, String.toList_ofList]
  constructor
  · rintro ⟨-, -, hself⟩ ⟨rest, hrest⟩
    have hlength := congrArg List.length hself
    have hbare := length_bare_le k.chars
    have hdrop : (dropHere k.chars).length + 2 ≤ k.chars.length := by
      have hle := length_dropHere_le rest
      rw [← hrest]
      simp only [List.cons_append, List.nil_append, dropHere, List.length_cons]
      omega
    rw [List.length_append] at hlength
    split at hlength <;> simp only [List.length_cons, List.length_nil] at hlength <;> omega
  · intro hfront
    have hbare : bare k.chars = bare path.toList := by
      rw [bare, dropHere_eq_self hfront, hchars]
      apply trim_append_slashes (head?_bare _) (getLast?_bare _) hinside.ne_nil
      intro c hc
      exact eq_slash_of_mem_tail hc
    have hhead : k.chars.head? ≠ some '/' := by
      obtain ⟨c, rest, hcons⟩ := List.exists_cons_of_ne_nil hinside.ne_nil
      have hfirst := head?_bare path.toList
      rw [hcons] at hfirst
      rwa [hchars, hcons]
    refine ⟨hhead, hbare ▸ hinside, ?_⟩
    have hends : Text.endsWith k.chars ['/'] = (isDir || Text.endsWith path.toList ['/']) := by
      rw [Bool.eq_iff_iff, Text.endsWith_singleton, hchars]
      split
      · rename_i hdir
        simp [hdir]
      · rename_i hdir
        simp [hdir, getLast?_bare]
    rw [hbare, Bool.false_or, hends]
    exact hchars

/-- A key neither is `..` nor begins with `../`. -/
theorem not_above_of_ofPath {path : String} {isDir : Bool} {k : Key}
    (h : ofPath path isDir = .ok k) : k.chars ≠ ['.', '.'] ∧ ¬['.', '.', '/'] <+: k.chars := by
  obtain ⟨-, hinside, hchars⟩ := ofPath_eq_ok_iff.mp h
  rw [hchars]
  split
  · constructor
    · intro heq
      have hlast := congrArg List.getLast? heq
      simp at hlast
    · rw [List.prefix_concat_iff, not_or]
      refine ⟨fun heq => ?_, hinside.not_above⟩
      have hparts : ['.', '.'] ++ ['/'] = bare path.toList ++ ['/'] := heq
      exact hinside.ne_above (List.append_cancel_right hparts).symm
  · rw [List.append_nil]
    exact ⟨hinside.ne_above, hinside.not_above⟩

/-- A key is its own key, and an engine answers and remembers the same for it and for the path, just
if no `./` is hidden behind slashes in the path; otherwise the key still begins with `./`. In any
case it neither is `..` nor begins with `../`. -/
theorem ofPath_text_iff_not_hidesHere {path : String} {isDir : Bool} {k : Key}
    (h : ofPath path isDir = .ok k) :
    (ofPath k.text false = .ok k ↔ ¬HidesHere path.toList) ∧
      (['.', '/'] <+: k.chars ↔ HidesHere path.toList) ∧
      k.chars ≠ ['.', '.'] ∧ ¬['.', '.', '/'] <+: k.chars ∧
      (¬HidesHere path.toList → ∀ e : Engine,
        e.ignores k.text false = e.ignores path isDir ∧
          e.explain k.text false = e.explain path isDir) := by
  have hfront := prefix_iff_hidesHere h
  have hself := (ofPath_text_iff_not_here h).trans (not_congr hfront)
  obtain ⟨habove, hbelow⟩ := not_above_of_ofPath h
  refine ⟨hself, hfront, habove, hbelow, fun hhides e => ?_⟩
  have hkey := hself.mpr hhides
  constructor
  · unfold Engine.ignores
    rw [hkey, h]
  · unfold Engine.explain
    rw [hkey, h]

/-- The slashes at the end of a path, the one behind its `./` and the many behind its names. -/
theorem ofPath_text_source_directory :
    ofPath "././src//lib//" false = .ok ⟨"src//lib/".toList⟩ ∧
      (ofPath "src//lib/" false = .ok ⟨"src//lib/".toList⟩ ↔
        ¬HidesHere "././src//lib//".toList) ∧
      ofPath "src//lib/" false = .ok ⟨"src//lib/".toList⟩ := by
  have h : ofPath "././src//lib//" false = .ok ⟨"src//lib/".toList⟩ := by decide
  exact ⟨h, (ofPath_text_iff_not_hidesHere h).1, by decide⟩

/-- A `./` that is hidden behind a slash comes to the front, also with a `../` behind it. -/
theorem ofPath_hidden_here :
    ofPath ".//./a" false = .ok ⟨"./a".toList⟩ ∧ ofPath "./a" false = .ok ⟨"a".toList⟩ ∧
      ofPath ".//./../a" false = .ok ⟨"./../a".toList⟩ ∧
      ofPath "./../a" false = .error (.outside "../a") := by
  decide

end Key

end SourceSnapshot.Ignore
