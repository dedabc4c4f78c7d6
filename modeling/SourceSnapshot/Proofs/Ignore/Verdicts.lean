import Mathlib.Data.List.Basic
import SourceSnapshot.Proofs.Ignore.Ancestors

/-!
# Verdicts

The verdict on a path gives the reason for the answer to whether the path is left out. A path that
is left out has the verdict of the shortest key that the rules leave out, among its own key and
those of the directories above it. Every other path has the verdict of its own key.
-/

namespace SourceSnapshot.Ignore

namespace Key

/-- One key is that of a directory above the other if the other goes on behind its slash. -/
def IsAbove (a k : Key) : Prop :=
  a.chars.getLast? = some '/' ∧ ∃ c rest, k.chars = a.chars ++ c :: rest ∧ c ≠ '/'

theorem IsAbove.length_lt {a k : Key} (h : a.IsAbove k) : a.chars.length < k.chars.length := by
  obtain ⟨-, c, rest, hk, -⟩ := h
  rw [hk, List.length_append, List.length_cons]
  omega

theorem IsAbove.trans {a b k : Key} (hab : a.IsAbove b) (hbk : b.IsAbove k) : a.IsAbove k := by
  obtain ⟨hlast, c, rest, hb, hc⟩ := hab
  obtain ⟨-, d, more, hk, -⟩ := hbk
  exact ⟨hlast, c, rest ++ d :: more, by rw [hk, hb, List.append_assoc, List.cons_append], hc⟩

/-- A key is what stands above it, a name without a slash, and the slashes at its end. -/
theorem exists_parts (k : Key) :
    ∃ above name slashes, k.chars = above ++ name ++ slashes ∧ '/' ∉ name ∧
      (∀ c ∈ slashes, c = '/') ∧ k.parent? = (if above = [] then none else some ⟨above⟩) ∧
      (above ≠ [] → above.getLast? = some '/' ∧ name ≠ []) := by
  obtain ⟨slashes, hk, hslashes⟩ := Text.exists_dropTrailing_append (· == '/') k.chars
  obtain ⟨name, hbare, hname⟩ := Text.exists_dropTrailing_append (· != '/')
    (Text.dropTrailing (· == '/') k.chars)
  refine ⟨_, name, slashes, ?_, fun h => ?_, fun c hc => beq_iff_eq.mp (hslashes c hc), rfl, ?_⟩
  · rw [← hbare]
    exact hk
  · exact absurd (hname '/' h) (by decide)
  · intro hne
    obtain ⟨c, hc⟩ := Option.ne_none_iff_exists'.mp (mt List.getLast?_eq_none_iff.mp hne)
    have hslash : c = '/' := by simpa using Text.getLast?_dropTrailing hc
    subst hslash
    refine ⟨hc, ?_⟩
    -- Without a name the bare key would end in a slash.
    rintro rfl
    rw [List.append_nil] at hbare
    rw [← hbare] at hc
    exact absurd (Text.getLast?_dropTrailing hc) (by decide)

/-- The keys above a key are that of the directory that holds it and the keys above that. -/
theorem isAbove_iff_parent? {a k : Key} :
    a.IsAbove k ↔ ∃ above, k.parent? = some above ∧ (a = above ∨ a.IsAbove above) := by
  obtain ⟨above, name, slashes, hk, hname, hslashes, hparent, hlast⟩ := exists_parts k
  have habove : above ≠ [] → IsAbove ⟨above⟩ k := by
    intro hne
    obtain ⟨hslash, hne'⟩ := hlast hne
    obtain ⟨c, rest, rfl⟩ := List.exists_cons_of_ne_nil hne'
    refine ⟨hslash, c, rest ++ slashes, by simp [hk], ?_⟩
    rintro rfl
    exact hname List.mem_cons_self
  constructor
  · rintro ⟨hslash, c, rest, heq, hc⟩
    have hbeginning : a = ⟨above⟩ ∨ a.IsAbove ⟨above⟩ := by
      rw [hk, List.append_assoc] at heq
      rcases List.append_eq_append_iff.mp heq with ⟨inside, ha, htail⟩ | ⟨more, ha, htail⟩
      · by_cases hinside : inside = []
        · subst hinside
          exact Or.inl (congrArg Key.mk (by simpa using ha))
        · -- What stands behind the slash at the end of the key would be part of the name.
          rw [ha, List.getLast?_append_of_ne_nil _ hinside] at hslash
          have hmem := List.mem_of_getLast? hslash
          rcases List.append_eq_append_iff.mp htail with ⟨others, -, hrest⟩ | ⟨others, rfl, -⟩
          · exact absurd (hslashes c (hrest ▸ List.mem_append_right _ List.mem_cons_self)) hc
          · exact absurd (List.mem_append_left others hmem) hname
      · cases more with
        | nil => exact Or.inl (congrArg Key.mk (by simpa using ha.symm))
        | cons d more =>
          obtain ⟨rfl, -⟩ := List.cons.inj htail
          exact Or.inr ⟨hslash, c, more, ha, hc⟩
    have hne : above ≠ [] := by
      rintro rfl
      rcases hbeginning with rfl | h
      · cases hslash
      · exact absurd h.length_lt (Nat.not_lt_zero _)
    exact ⟨⟨above⟩, by rw [hparent, if_neg hne], hbeginning⟩
  · rintro ⟨b, hb, h⟩
    rw [hparent] at hb
    split at hb
    · cases hb
    · rename_i hne
      obtain rfl := Option.some.inj hb
      rcases h with rfl | h
      · exact habove hne
      · exact h.trans (habove hne)

/-- The lineage of a key holds the key and those above it. -/
theorem mem_lineage_iff {a k : Key} : a ∈ k.lineage ↔ a = k ∨ a.IsAbove k := by
  induction k using lineage_induction with
  | root k hp =>
    rw [lineage_of_parent?_none hp, List.mem_singleton, isAbove_iff_parent?, hp]
    simp
  | below k above hp ih =>
    rw [lineage_of_parent?_some hp, List.mem_cons, ih, isAbove_iff_parent? (k := k), hp]
    simp

theorem length_le_of_mem_lineage {a k : Key} (h : a ∈ k.lineage) :
    a.chars.length ≤ k.chars.length := by
  rcases mem_lineage_iff.mp h with rfl | h
  · exact Nat.le_refl _
  · exact Nat.le_of_lt h.length_lt

end Key

theorem ignored_judge (rules : List Rule) (k : Key) :
    (judge rules k).ignored = leavesOut rules k := by
  rw [judge, leavesOut]
  cases lastMatch? rules k <;> rfl

/-- The verdict on a path leaves it out if the path is left out. -/
theorem ignored_verdict (rules : List Rule) (k : Key) :
    (verdict rules k).ignored = isIgnored rules k := by
  induction k using Key.lineage_induction with
  | root k hp =>
    rw [verdict, isIgnored, passedOn_of_parent?_none _ _ hp, passedOn_of_parent?_none _ _ hp]
    exact (ignored_judge rules k).trans (Bool.false_or _).symm
  | below k above hp ih =>
    rw [verdict, isIgnored, passedOn_of_parent?_some _ _ hp, passedOn_of_parent?_some _ _ hp,
      ← verdict, ← isIgnored, ← ih]
    cases habove : (verdict rules above).ignored with
    | true => exact habove
    | false => exact ignored_judge rules k

theorem verdict_of_parent?_some (rules : List Rule) {k above : Key} (hp : k.parent? = some above) :
    verdict rules k = if isIgnored rules above then verdict rules above else judge rules k := by
  rw [verdict, passedOn_of_parent?_some _ _ hp, ← verdict, ignored_verdict]

/-- A path that is not left out has the verdict of its own key. -/
theorem verdict_eq_judge {rules : List Rule} {k : Key} (h : isIgnored rules k = false) :
    verdict rules k = judge rules k := by
  cases hp : k.parent? with
  | none => exact passedOn_of_parent?_none _ _ hp
  | some above =>
    rw [isIgnored_eq_any, Key.lineage_of_parent?_some hp, List.any_cons, Bool.or_eq_false_iff,
      ← isIgnored_eq_any] at h
    rw [verdict_of_parent?_some rules hp, h.2]
    rfl

/-- A path that is left out has the verdict of the shortest key that the rules leave out, among its
own key and those above it. -/
theorem exists_verdict_eq_judge {rules : List Rule} {k : Key} (h : isIgnored rules k = true) :
    ∃ a ∈ k.lineage, verdict rules k = judge rules a ∧ leavesOut rules a = true ∧
      ∀ b ∈ k.lineage, b.chars.length < a.chars.length → leavesOut rules b = false := by
  induction k using Key.lineage_induction with
  | root k hp =>
    have hlineage := Key.lineage_of_parent?_none hp
    rw [isIgnored_eq_any, hlineage, List.any_cons, List.any_nil, Bool.or_false] at h
    rw [hlineage]
    refine ⟨k, List.mem_singleton_self k, passedOn_of_parent?_none _ _ hp, h, ?_⟩
    intro b hb hlt
    rw [List.mem_singleton.mp hb] at hlt
    exact absurd hlt (Nat.lt_irrefl _)
  | below k above hp ih =>
    rw [verdict_of_parent?_some rules hp, Key.lineage_of_parent?_some hp]
    cases habove : isIgnored rules above with
    | true =>
      obtain ⟨a, ha, hverdict, hout, hfirst⟩ := ih habove
      refine ⟨a, List.mem_cons_of_mem k ha, hverdict, hout, fun b hb hlt => ?_⟩
      rcases List.mem_cons.mp hb with rfl | hb
      · have hle := Key.length_le_of_mem_lineage ha
        have hshort := Key.length_parent? hp
        omega
      · exact hfirst b hb hlt
    | false =>
      rw [isIgnored_eq_any, Key.lineage_of_parent?_some hp, List.any_cons, ← isIgnored_eq_any,
        habove, Bool.or_false] at h
      refine ⟨k, List.mem_cons_self, rfl, h, fun b hb hlt => ?_⟩
      rcases List.mem_cons.mp hb with rfl | hb
      · exact absurd hlt (Nat.lt_irrefl _)
      · rw [isIgnored_eq_any, List.any_eq_false] at habove
        exact Bool.eq_false_iff.mpr (habove b hb)

/-- A verdict explains whether a path with this key is left out. -/
structure Verdict.Explains (rules : List Rule) (k : Key) (v : Verdict) : Prop where
  /-- There is no reason where the path is neither left out nor taken back in. -/
  rule_eq_none_iff : v.rule = none ↔ v.ignored = false ∧ v.unignored = false
  /-- The reason is one of the rules, and the answer is what it says. -/
  of_rule : ∀ r, v.rule = some r →
    r ∈ rules ∧ v.ignored = !r.negative ∧ v.unignored = r.negative
  /-- A path is left out because of the shortest key at or above it whose last match is not
  negative. -/
  of_ignored : v.ignored = true →
    ∃ a r, (a = k ∨ a.IsAbove k) ∧ v.rule = some r ∧ IsLastMatch rules a r ∧ r.negative = false ∧
      ∀ b, b = k ∨ b.IsAbove k → b.chars.length < a.chars.length →
        ∀ last, IsLastMatch rules b last → last.negative = true
  /-- A path that is not left out is so because of the last match of its own key, if there is one.
  -/
  of_kept : v.ignored = false → ∀ r, v.rule = some r ↔ IsLastMatch rules k r

/-- The rule in the verdict of a key is the last one that matches it. -/
theorem rule_judge_eq_some_iff {rules : List Rule} {k : Key} {r : Rule} :
    (judge rules k).rule = some r ↔ IsLastMatch rules k r := by
  rw [← lastMatch?_eq_some_iff, judge]
  cases lastMatch? rules k with
  | none => simp [Verdict.undecided]
  | some last => simp [Verdict.ofRule]

theorem IsLastMatch.mem {rules : List Rule} {k : Key} {r : Rule} (h : IsLastMatch rules k r) :
    r ∈ rules := by
  obtain ⟨before, after, rfl, -⟩ := h
  exact List.mem_append_right before List.mem_cons_self

/-- Every verdict of a key has its reason or none. -/
theorem judge_eq_undecided_or (rules : List Rule) (k : Key) :
    judge rules k = .undecided ∨ ∃ r, IsLastMatch rules k r ∧ judge rules k = .ofRule r := by
  rw [judge]
  cases hlast : lastMatch? rules k with
  | none => exact Or.inl rfl
  | some r => exact Or.inr ⟨r, lastMatch?_eq_some_iff.mp hlast, rfl⟩

/-- The verdict of the rules explains whether a path is left out. -/
theorem explains_verdict (rules : List Rule) (k : Key) :
    (verdict rules k).Explains rules k := by
  -- Every verdict is the verdict of some key.
  have hkey : ∃ a, verdict rules k = judge rules a := by
    cases h : isIgnored rules k with
    | true =>
      obtain ⟨a, -, ha, -⟩ := exists_verdict_eq_judge h
      exact ⟨a, ha⟩
    | false => exact ⟨k, verdict_eq_judge h⟩
  obtain ⟨a, ha⟩ := hkey
  refine ⟨?_, ?_, ?_, ?_⟩
  · rw [ha]
    rcases judge_eq_undecided_or rules a with h | ⟨r, -, h⟩
    · rw [h]
      decide
    · rw [h]
      cases hneg : r.negative <;> simp [Verdict.ofRule, hneg]
  · intro r hr
    rw [ha] at hr ⊢
    rcases judge_eq_undecided_or rules a with h | ⟨last, hlast, h⟩
    · rw [h] at hr
      cases hr
    · rw [h] at hr ⊢
      obtain rfl := Option.some.inj hr
      exact ⟨hlast.mem, rfl, rfl⟩
  · intro hignored
    rw [ignored_verdict] at hignored
    obtain ⟨a, hmem, ha, hout, hfirst⟩ := exists_verdict_eq_judge hignored
    obtain ⟨r, hlast, hneg⟩ := leavesOut_iff.mp hout
    refine ⟨a, r, Key.mem_lineage_iff.mp hmem, ?_, hlast, hneg, ?_⟩
    · rw [ha]
      exact rule_judge_eq_some_iff.mpr hlast
    · intro b hb hlt last hb'
      by_contra hpos
      rw [Bool.not_eq_true] at hpos
      have hkept := hfirst b (Key.mem_lineage_iff.mpr hb) hlt
      rw [leavesOut_iff.mpr ⟨last, hb', hpos⟩] at hkept
      cases hkept
  · intro hkept r
    rw [ignored_verdict] at hkept
    rw [verdict_eq_judge hkept]
    exact rule_judge_eq_some_iff

namespace Engine

/-- For every path that has a key, whatever was asked before, the verdict of an engine agrees with
its answer to whether the path is left out, and explains it. -/
theorem explain_explains_ignores {e : Engine} (he : e.Reachable) {path : String} {isDir : Bool}
    {k : Key} (hk : Key.ofPath path isDir = .ok k) :
    ∃ v, (e.explain path isDir).1 = .ok v ∧ (e.ignores path isDir).1 = .ok v.ignored ∧
      v.Explains e.rules k := by
  refine ⟨verdict e.rules k, ?_, ?_, explains_verdict e.rules k⟩
  · rw [(he.consistent.explain path isDir).1, hk]
    rfl
  · rw [(he.consistent.ignores path isDir).1, hk, ignored_verdict]
    rfl

/-- With the rules `vendor/` and `!vendor/lib.js` the file is left out because of its directory. -/
theorem explain_below_vendor :
    let e := ofHistory true [.add (.list [some "vendor/", some "!vendor/lib.js"]),
      .ignores "vendor/lib.js" false]
    Key.ofPath "./vendor/lib.js" false = .ok ⟨"vendor/lib.js".toList⟩ ∧
      ∃ v, (e.explain "./vendor/lib.js" false).1 = .ok v ∧
        (e.ignores "./vendor/lib.js" false).1 = .ok v.ignored ∧
        v.Explains e.rules ⟨"vendor/lib.js".toList⟩ ∧
        v.ignored = true ∧ v.rule.map Rule.source = some "vendor/" := by
  intro e
  have hk : Key.ofPath "./vendor/lib.js" false = .ok ⟨"vendor/lib.js".toList⟩ := by decide +kernel
  have he : e.Reachable := ⟨_, _, rfl⟩
  obtain ⟨v, hv, hanswer, hexplains⟩ := explain_explains_ignores he hk
  refine ⟨hk, v, hv, hanswer, hexplains, ?_⟩
  have hsays : (e.explain "./vendor/lib.js" false).1.map (fun v =>
      (v.ignored, v.rule.map Rule.source)) = .ok (true, some "vendor/") := by decide +kernel
  rw [hv] at hsays
  exact Prod.mk.inj (Except.ok.inj hsays)

end Engine

end SourceSnapshot.Ignore
