import SourceSnapshot.Proofs.Ignore.Memory

/-!
# Questions about joined paths

A traversal joins the path of an entry from the names that lead to it, one after the other, and asks
its engine about this path. The path has a key, and the keys above that key, step by step up to the
root, are those of the directories that the beginnings of the list of names lead to. So they are the
keys under which a traversal asks about these directories themselves.
-/

namespace SourceSnapshot

open FileSystem (IsName joinRelative)

namespace FileSystem

/-- The path that is joined from names, one after the other, from the root. -/
def joined (names : List String) : String := names.foldl joinRelative ""

theorem joined_append_singleton (above : List String) (name : String) :
    joined (above ++ [name]) = joinRelative (joined above) name := by
  rw [joined, List.foldl_append, List.foldl_cons, List.foldl_nil, joined]

/-- A joined path has a slash between each two of its names. -/
theorem joined_eq_intercalate {names : List String} (h : ∀ n ∈ names, IsName n) :
    joined names = "/".intercalate names := by
  induction names using List.reverseRecOn with
  | nil => rfl
  | append_singleton above name ih =>
    have habove := (List.forall_mem_append.mp h).1
    rw [joined_append_singleton, ih habove, intercalate_append_singleton habove]

end FileSystem

namespace Ignore

open FileSystem (joined joined_eq_intercalate)

namespace Key

/-- The key that is so many steps above a key, unless the root is reached before. -/
def up (k : Key) : Nat → Option Key
  | 0 => some k
  | steps + 1 => k.parent?.bind fun above => above.up steps

/-- Above a path that is made of names, the keys of its beginnings are reached one after the other,
from the longest to the shortest, and then the root. -/
theorem up_ofNames {names : List String} (h : ∀ n ∈ names, IsName n) (hne : names ≠ [])
    (isDir : Bool) (steps : Nat) :
    (ofNames names isDir).up steps =
      if steps < names.length then some (ofBeginning names isDir (names.length - steps))
      else none := by
  induction names using List.reverseRecOn generalizing isDir steps with
  | nil => exact absurd rfl hne
  | append_singleton above name ih =>
    obtain ⟨habove, hname⟩ := List.forall_mem_append.mp h
    rw [List.forall_mem_singleton] at hname
    cases steps with
    | zero =>
      rw [if_pos (List.length_pos_iff.mpr hne), Nat.sub_zero, ofBeginning_length, up]
    | succ steps =>
      have hlength : (above ++ [name]).length = above.length + 1 := by simp
      rw [up, parent?_ofNames habove hname]
      simp only [hlength, Nat.add_lt_add_iff_right, Nat.add_sub_add_right,
        ofBeginning_append_singleton (Nat.sub_le _ _)]
      by_cases hnil : above = []
      · subst hnil
        rfl
      · rw [if_neg hnil, Option.bind_some, ih habove hnil]

end Key

/-- An answer is looked for by recursion over the directories above: one that is remembered is
taken, any other is made of the answer about the directory above, or of `start` at the root, and is
then remembered. -/
def RecursAbove {α : Type} (start : α) (extend : α → Key → α)
    (answer : Key → Memo α → α × Memo α) : Prop :=
  ∀ k memo, answer k memo =
    match memo.lookup k with
    | some known => (known, memo)
    | none =>
      let (value, memo) :=
        match k.parent? with
        | some above => answer above memo
        | none => (start, memo)
      (extend value k, (k, extend value k) :: memo)

section

variable {α : Type} {start : α} {extend : α → Key → α} {answer other : Key → Memo α → α × Memo α}

/-- As every directory above has a shorter key, the recursion ends, and there is only one. -/
theorem RecursAbove.eq (h : RecursAbove start extend answer) (h' : RecursAbove start extend other) :
    answer = other := by
  funext k
  induction k using Key.lineage_induction with
  | root k hp =>
    funext memo
    rw [h k memo, h' k memo, hp]
  | below k above hp ih =>
    funext memo
    rw [h k memo, h' k memo, hp]
    simp only [ih]

/-- What an engine does along a lineage is such a recursion. -/
theorem recursAbove_resolveWith :
    RecursAbove start extend fun k memo => Engine.resolveWith start extend k.lineage memo := by
  intro k memo
  beta_reduce
  cases hp : k.parent? with
  | none =>
    rewrite [Key.lineage_of_parent?_none hp, Engine.resolveWith]
    cases memo.lookup k with
    | some known => rfl
    | none => rfl
  | some above =>
    rewrite [Key.lineage_of_parent?_some hp, Engine.resolveWith]
    cases memo.lookup k with
    | some known => rfl
    | none => rfl

/-- The recursion over the directories above has one solution, what an engine does along a
lineage. -/
theorem recursAbove_iff : RecursAbove start extend answer ↔
    answer = fun k memo => Engine.resolveWith start extend k.lineage memo := by
  constructor
  · intro h
    exact h.eq recursAbove_resolveWith
  · rintro rfl
    exact recursAbove_resolveWith

end

/-- What an engine is asked about an entry: the names that lead to it, and whether it is known to be
a directory. -/
structure Question where
  names : List String
  isDir : Bool
  deriving DecidableEq

namespace Question

/-- The path that is asked about. -/
def path (q : Question) : String := joined q.names

/-- The key under which an engine looks for the answer. -/
def key (q : Question) : Except PathFault Key := Key.ofPath q.path q.isDir

/-- The question about the directory that the first names lead to. -/
def above (q : Question) (count : Nat) : Question := ⟨q.names.take count, true⟩

theorem key_eq {q : Question} (h : ∀ n ∈ q.names, IsName n) (hne : q.names ≠ []) :
    q.key = .ok (Key.ofNames q.names q.isDir) := by
  rw [key, path, joined_eq_intercalate h, Key.ofPath_intercalate h hne]

/-- A question about a directory further up has the key of a beginning. -/
theorem key_above {q : Question} (h : ∀ n ∈ q.names, IsName n) {count : Nat} (hpos : 0 < count)
    (hlt : count < q.names.length) :
    (q.above count).key = .ok (Key.ofBeginning q.names q.isDir count) := by
  have htake : ∀ n ∈ (q.above count).names, IsName n := fun n hn => h n (List.mem_of_mem_take hn)
  have hne : (q.above count).names ≠ [] := by
    rw [← List.length_pos_iff, above, List.length_take]
    omega
  rw [key_eq htake hne, Key.ofBeginning, decide_eq_true hlt, Bool.true_or]
  rfl

end Question

namespace Engine

/-- The engine that remembers the answer to a question. -/
def ask (e : Engine) (q : Question) : Engine := (e.ignores q.path q.isDir).2

/-- The engine that remembers the answers to several questions, asked in order. -/
def askAll (e : Engine) (questions : List Question) : Engine := questions.foldl ask e

theorem askAll_append (e : Engine) (questions more : List Question) :
    e.askAll (questions ++ more) = (e.askAll questions).askAll more := List.foldl_append

/-- Questions leave the rules as they are, and what is remembered right. -/
theorem Consistent.askAll {e : Engine} (he : e.Consistent) (questions : List Question) :
    (e.askAll questions).Consistent ∧ (e.askAll questions).rules = e.rules := by
  induction questions generalizing e with
  | nil => exact ⟨he, rfl⟩
  | cons q rest ih =>
    obtain ⟨memo, hmemo⟩ := ignores_frame (e := e) q.path q.isDir
    have hrules : (e.ask q).rules = e.rules := by rw [ask, hmemo]
    rw [← hrules]
    exact ih (he.ignores q.path q.isDir).2

end Engine

/-- Where some questions have been `asked`, each of several more is asked behind those about all
directories above its path. -/
def AskedFromAbove (asked : List Question) : List Question → Prop
  | [] => True
  | q :: rest => (∀ i, 0 < i → i < q.names.length → q.above i ∈ asked) ∧
      AskedFromAbove (q :: asked) rest

section

variable {asked more : List Question}

/-- It does no harm if more has been asked. -/
theorem AskedFromAbove.mono {questions : List Question} (h : AskedFromAbove asked questions)
    (hsub : asked ⊆ more) : AskedFromAbove more questions := by
  induction questions generalizing asked more with
  | nil => trivial
  | cons q rest ih =>
    exact ⟨fun i hpos hlt => hsub (h.1 i hpos hlt), ih h.2 (List.cons_subset_cons q hsub)⟩

theorem AskedFromAbove.append {questions : List Question} (h : AskedFromAbove asked questions)
    (hmore : AskedFromAbove asked more) : AskedFromAbove asked (questions ++ more) := by
  induction questions generalizing asked with
  | nil => exact hmore
  | cons q rest ih => exact ⟨h.1, ih h.2 (hmore.mono (List.subset_cons_self q asked))⟩

/-- If the questions are broken off, those that were asked are still asked from above. -/
theorem AskedFromAbove.of_beginning {questions : List Question} (h : AskedFromAbove asked questions)
    (hbegins : more <+: questions) : AskedFromAbove asked more := by
  induction more generalizing asked questions with
  | nil => trivial
  | cons q rest ih =>
    obtain ⟨behind, rfl⟩ := hbegins
    exact ⟨h.1, ih h.2 (List.prefix_append rest behind)⟩

/-- The same holds of the questions about paths down to some depth. -/
theorem AskedFromAbove.filter {questions : List Question} (h : AskedFromAbove asked questions)
    {p : Question → Bool} (hp : ∀ q i, p q = true → i < q.names.length → p (q.above i) = true) :
    AskedFromAbove (asked.filter p) (questions.filter p) := by
  induction questions generalizing asked with
  | nil => trivial
  | cons q rest ih =>
    have hrest := ih h.2
    by_cases hq : p q = true
    · rw [List.filter_cons_of_pos hq] at hrest ⊢
      refine ⟨fun i hpos hlt => ?_, hrest⟩
      exact List.mem_filter.mpr ⟨h.1 i hpos hlt, hp q i hq hlt⟩
    · rwa [List.filter_cons_of_neg hq] at hrest ⊢

/-- Each question stands behind those about all directories above its path. -/
theorem AskedFromAbove.above_mem {before after : List Question} {q : Question}
    (h : AskedFromAbove asked (before ++ q :: after)) {i : Nat} (hpos : 0 < i)
    (hlt : i < q.names.length) : q.above i ∈ before ∨ q.above i ∈ asked := by
  induction before generalizing asked with
  | nil => exact Or.inr (h.1 i hpos hlt)
  | cons first rest ih =>
    rcases ih h.2 with hmem | hmem
    · exact Or.inl (List.mem_cons_of_mem first hmem)
    · rcases List.mem_cons.mp hmem with heq | hmem
      · exact Or.inl (heq ▸ List.mem_cons_self)
      · exact Or.inr hmem

end

end Ignore

end SourceSnapshot
