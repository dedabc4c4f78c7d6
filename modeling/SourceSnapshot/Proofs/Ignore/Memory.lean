import SourceSnapshot.Ignore.File
import SourceSnapshot.Proofs.Ignore.Lineage

/-!
# What an engine remembers

An engine remembers the answers for whole lineages, and every call on it may add to them. The
invariant is that each remembered answer is the one that the present rules give without any memory.
Every call keeps it, so after any history of calls an engine answers like a new one that has the
same rules, and a call that fails leaves no trace in later answers.
-/

namespace SourceSnapshot.Ignore

/-- The value that `extend` passes on along a lineage, from each directory to what it holds; `start`
is the value above the root. -/
def passedOn {α : Type} (start : α) (extend : α → Key → α) (k : Key) : α :=
  k.lineage.foldr (fun k above => extend above k) start

theorem passedOn_of_parent?_none {α : Type} (start : α) (extend : α → Key → α) {k : Key}
    (h : k.parent? = none) : passedOn start extend k = extend start k := by
  rw [passedOn, Key.lineage_of_parent?_none h]
  rfl

theorem passedOn_of_parent?_some {α : Type} (start : α) (extend : α → Key → α) {k above : Key}
    (h : k.parent? = some above) :
    passedOn start extend k = extend (passedOn start extend above) k := by
  rw [passedOn, Key.lineage_of_parent?_some h]
  rfl

/-- Whether the rules leave out a path, because of a directory above it or by itself. -/
def isIgnored (rules : List Rule) : Key → Bool :=
  passedOn false fun aboveIgnored k => aboveIgnored || leavesOut rules k

/-- What the rules say about a path: the verdict of the outermost directory above it that is left
out, or else that of its own key. -/
def verdict (rules : List Rule) : Key → Verdict :=
  passedOn .undecided fun aboveVerdict k =>
    if aboveVerdict.ignored then aboveVerdict else judge rules k

/-- The paths that the rules do not leave out; the first path without a key ends the search. -/
def notIgnored (rules : List Rule) : List String → Except PathFault (List String)
  | [] => .ok []
  | path :: rest =>
    match Key.ofPath path false with
    | .error fault => .error fault
    | .ok k => (notIgnored rules rest).map fun paths =>
      if isIgnored rules k then paths else path :: paths

/-- A path is left out if the rules leave out some key of its lineage. -/
theorem isIgnored_eq_any (rules : List Rule) (k : Key) :
    isIgnored rules k = k.lineage.any (leavesOut rules) := by
  rw [isIgnored, passedOn]
  induction k.lineage with
  | nil => rfl
  | cons k above ih => rw [List.foldr_cons, ih, List.any_cons, Bool.or_comm]

/-- Every remembered answer is the one of `answer`. -/
def Memo.Agrees {α : Type} (memo : Memo α) (answer : Key → α) : Prop :=
  ∀ k a, memo.lookup k = some a → a = answer k

theorem Memo.agrees_nil {α : Type} (answer : Key → α) : Memo.Agrees ([] : Memo α) answer := by
  intro k a h
  cases h

/-- A right answer may be remembered. -/
theorem Memo.Agrees.cons {α : Type} {memo : Memo α} {answer : Key → α} (h : memo.Agrees answer)
    {k : Key} {a : α} (ha : a = answer k) : Memo.Agrees ((k, a) :: memo) answer := by
  intro l b hb
  by_cases hl : l = k
  · subst hl
    rw [List.lookup_cons_self] at hb
    exact (Option.some.inj hb).symm.trans ha
  · have hne : (l == k) = false := by simpa using hl
    rw [List.lookup_cons, hne] at hb
    exact h l b hb

namespace Engine

/-- Looks along a lineage, from the inside out, for the value that `extend` passes on along it. -/
def resolveWith {α : Type} (start : α) (extend : α → Key → α) :
    List Key → Memo α → α × Memo α
  | [], memo => (start, memo)
  | k :: above, memo =>
    match memo.lookup k with
    | some answer => (answer, memo)
    | none =>
      let (aboveValue, memo) := resolveWith start extend above memo
      (extend aboveValue k, (k, extend aboveValue k) :: memo)

/-- Whether a path is left out is passed on along its lineage. -/
theorem resolve_eq_resolveWith (rules : List Rule) (ks : List Key) (memo : Memo Bool) :
    resolve rules ks memo =
      resolveWith false (fun aboveIgnored k => aboveIgnored || leavesOut rules k) ks memo := by
  induction ks with
  | nil => rfl
  | cons k above ih =>
    rw [resolve, resolveWith, ih]
    cases memo.lookup k <;> rfl

/-- What the rules say about a path is passed on along its lineage. -/
theorem resolveVerdict_eq_resolveWith (rules : List Rule) (ks : List Key) (memo : Memo Verdict) :
    resolveVerdict rules ks memo =
      resolveWith .undecided
        (fun aboveVerdict k => if aboveVerdict.ignored then aboveVerdict else judge rules k)
        ks memo := by
  induction ks with
  | nil => rfl
  | cons k above ih =>
    rw [resolveVerdict, resolveWith, ih]
    cases memo.lookup k <;> rfl

/-- Looking along a lineage yields the value that is passed on along it, and what is remembered
afterwards is right if it was before. -/
theorem resolveWith_lineage {α : Type} (start : α) (extend : α → Key → α) (k : Key)
    {memo : Memo α} (h : memo.Agrees (passedOn start extend)) :
    (resolveWith start extend k.lineage memo).1 = passedOn start extend k ∧
      (resolveWith start extend k.lineage memo).2.Agrees (passedOn start extend) := by
  induction k using Key.lineage_induction generalizing memo with
  | root k hp =>
    rw [Key.lineage_of_parent?_none hp, resolveWith]
    cases hk : memo.lookup k with
    | some answer => exact ⟨h k answer hk, h⟩
    | none =>
      have hvalue := (passedOn_of_parent?_none start extend hp).symm
      exact ⟨hvalue, h.cons hvalue⟩
  | below k above hp ih =>
    rw [Key.lineage_of_parent?_some hp, resolveWith]
    cases hk : memo.lookup k with
    | some answer => exact ⟨h k answer hk, h⟩
    | none =>
      obtain ⟨habove, hagrees⟩ := ih h
      have hvalue := (passedOn_of_parent?_some start extend hp).symm
      rw [← habove] at hvalue
      exact ⟨hvalue, hagrees.cons hvalue⟩

/-- Every answer that the engine remembers is the one that its rules give without memory. -/
structure Consistent (e : Engine) : Prop where
  ignoredMemo : e.ignoredMemo.Agrees (isIgnored e.rules)
  verdictMemo : e.verdictMemo.Agrees (verdict e.rules)

theorem consistent_ofRules (ignoreCase : Bool) (rules : List Rule) :
    (ofRules ignoreCase rules).Consistent :=
  ⟨Memo.agrees_nil _, Memo.agrees_nil _⟩

section Queries

variable {e : Engine} (path : String) (isDir : Bool)

/-- Asking whether a path is left out changes nothing but what is remembered of such answers. -/
theorem ignores_frame :
    ∃ memo, (e.ignores path isDir).2 = { e with ignoredMemo := memo } := by
  unfold ignores
  split
  · exact ⟨e.ignoredMemo, rfl⟩
  · exact ⟨_, rfl⟩

/-- Asking for a verdict changes nothing but what is remembered of verdicts. -/
theorem explain_frame :
    ∃ memo, (e.explain path isDir).2 = { e with verdictMemo := memo } := by
  unfold explain
  split
  · exact ⟨e.verdictMemo, rfl⟩
  · exact ⟨_, rfl⟩

/-- Filtering paths changes nothing but what is remembered of paths that are left out. -/
theorem filterPaths_frame (paths : List String) :
    ∃ memo, (e.filterPaths paths).2 = { e with ignoredMemo := memo } := by
  induction paths generalizing e with
  | nil => exact ⟨e.ignoredMemo, rfl⟩
  | cons path rest ih =>
    obtain ⟨memo, hm⟩ := ignores_frame (e := e) path false
    simp only [filterPaths]
    split
    · rename_i e' he
      exact ⟨memo, by rwa [he] at hm⟩
    · rename_i answer e' he
      obtain ⟨last, hl⟩ := ih (e := e')
      rw [he] at hm
      obtain rfl : e' = _ := hm
      exact ⟨last, hl⟩

/-- A consistent engine answers from its rules, and stays consistent. -/
theorem Consistent.ignores (h : e.Consistent) :
    (e.ignores path isDir).1 = (Key.ofPath path isDir).map (isIgnored e.rules) ∧
      (e.ignores path isDir).2.Consistent := by
  unfold Engine.ignores
  cases Key.ofPath path isDir with
  | error fault => exact ⟨rfl, h⟩
  | ok k =>
    obtain ⟨hanswer, hmemo⟩ := resolveWith_lineage _ _ k h.ignoredMemo
    simp only [resolve_eq_resolveWith]
    exact ⟨congrArg Except.ok hanswer, hmemo, h.verdictMemo⟩

/-- A consistent engine gives the verdict of its rules, and stays consistent. -/
theorem Consistent.explain (h : e.Consistent) :
    (e.explain path isDir).1 = (Key.ofPath path isDir).map (verdict e.rules) ∧
      (e.explain path isDir).2.Consistent := by
  unfold Engine.explain
  cases Key.ofPath path isDir with
  | error fault => exact ⟨rfl, h⟩
  | ok k =>
    obtain ⟨hanswer, hmemo⟩ := resolveWith_lineage _ _ k h.verdictMemo
    simp only [resolveVerdict_eq_resolveWith]
    exact ⟨congrArg Except.ok hanswer, h.ignoredMemo, hmemo⟩

/-- A consistent engine keeps the paths that its rules do not leave out, and stays consistent. -/
theorem Consistent.filterPaths (h : e.Consistent) (paths : List String) :
    (e.filterPaths paths).1 = notIgnored e.rules paths ∧ (e.filterPaths paths).2.Consistent := by
  induction paths generalizing e with
  | nil => exact ⟨rfl, h⟩
  | cons path rest ih =>
    obtain ⟨hanswer, hnext⟩ := h.ignores path false
    obtain ⟨memo, hm⟩ := ignores_frame (e := e) path false
    have hrules : (e.ignores path false).2.rules = e.rules := by rw [hm]
    simp only [Engine.filterPaths, notIgnored]
    generalize e.ignores path false = answered at hanswer hnext hrules
    obtain ⟨answer, e'⟩ := answered
    subst hanswer
    cases Key.ofPath path false with
    | error fault => exact ⟨rfl, hnext⟩
    | ok k =>
      obtain ⟨hrest, hlast⟩ := ih hnext
      rw [hrules] at hrest
      exact ⟨by simp [Except.map, hrest], hlast⟩

end Queries

end Engine

end SourceSnapshot.Ignore
