import SourceSnapshot.Proofs.Ignore.History

/-!
# The law of ancestors

A path is left out if and only if, for the path itself or for some directory above it, the last rule
that matches its key is not negative. So nothing below a directory that is left out is ever taken
back in.
-/

namespace SourceSnapshot.Ignore

open FileSystem (IsName)

/-- The rule matches the key, and no rule behind it does. -/
def IsLastMatch (rules : List Rule) (k : Key) (r : Rule) : Prop :=
  ∃ before after, rules = before ++ r :: after ∧ r.matchesText k.chars = true ∧
    ∀ later ∈ after, later.matchesText k.chars = false

/-- Looking for a rule from the end of the list finds the last one that matches. -/
theorem lastMatch?_eq_some_iff {rules : List Rule} {k : Key} {r : Rule} :
    lastMatch? rules k = some r ↔ IsLastMatch rules k r := by
  rw [lastMatch?, List.find?_eq_some_iff_append]
  constructor
  · rintro ⟨hmatch, after, before, hrules, hafter⟩
    refine ⟨before.reverse, after.reverse, ?_, hmatch, ?_⟩
    · rw [← List.reverse_reverse rules, hrules]
      simp
    · intro later hlater
      simpa using hafter later (List.mem_reverse.mp hlater)
  · rintro ⟨before, after, rfl, hmatch, hafter⟩
    refine ⟨hmatch, after.reverse, before.reverse, by simp, ?_⟩
    intro later hlater
    simpa using hafter later (List.mem_reverse.mp hlater)

/-- The rules leave out a key by itself if the last one that matches it is not negative. -/
theorem leavesOut_iff {rules : List Rule} {k : Key} :
    leavesOut rules k = true ↔ ∃ r, IsLastMatch rules k r ∧ r.negative = false := by
  simp only [leavesOut, ← lastMatch?_eq_some_iff]
  cases lastMatch? rules k with
  | none => simp
  | some r => simp

/-- A path that is made of names is left out if the rules leave out the key of one of its
beginnings. -/
theorem isIgnored_ofNames {rules : List Rule} {names : List String} (h : ∀ n ∈ names, IsName n)
    (hne : names ≠ []) (isDir : Bool) :
    isIgnored rules (Key.ofNames names isDir) = true ↔
      ∃ i, 1 ≤ i ∧ i ≤ names.length ∧ leavesOut rules (Key.ofBeginning names isDir i) = true := by
  rw [isIgnored_eq_any, List.any_eq_true]
  constructor
  · rintro ⟨k, hk, hout⟩
    obtain ⟨i, hi, hi', rfl⟩ := (Key.mem_lineage_ofNames h hne isDir k).mp hk
    exact ⟨i, hi, hi', hout⟩
  · rintro ⟨i, hi, hi', hout⟩
    exact ⟨_, (Key.mem_lineage_ofNames h hne isDir _).mpr ⟨i, hi, hi', rfl⟩, hout⟩

/-- The beginnings of a directory's path are beginnings of every path below it. -/
theorem Key.ofBeginning_append {names below : List String} {i : Nat} (hi : i ≤ names.length)
    (hne : below ≠ []) (isDir : Bool) :
    ofBeginning (names ++ below) isDir i = ofBeginning names true i := by
  have hpos := List.length_pos_iff.mpr hne
  have hlt : i < names.length + below.length := by omega
  simp [ofBeginning, List.take_append_of_le_length hi, hlt]

/-- What lies below a directory that is left out is left out. -/
theorem isIgnored_of_above {rules : List Rule} {names below : List String}
    (h : ∀ n ∈ names ++ below, IsName n) (hnames : names ≠ []) (hbelow : below ≠ [])
    (hout : isIgnored rules (Key.ofNames names true) = true) (isDir : Bool) :
    isIgnored rules (Key.ofNames (names ++ below) isDir) = true := by
  obtain ⟨i, hi, hi', hk⟩ :=
    (isIgnored_ofNames (fun n hn => h n (List.mem_append_left _ hn)) hnames true).mp hout
  have hall := List.append_ne_nil_of_left_ne_nil hnames below
  refine (isIgnored_ofNames h hall isDir).mpr ⟨i, hi, ?_, ?_⟩
  · rw [List.length_append]
    omega
  · rwa [Key.ofBeginning_append hi' hbelow]

namespace Engine

/-- A consistent engine answers for a path that is made of names from its rules. -/
theorem Consistent.ignores_intercalate {e : Engine} (he : e.Consistent) {names : List String}
    (h : ∀ n ∈ names, IsName n) (hne : names ≠ []) (isDir : Bool) :
    (e.ignores ("/".intercalate names) isDir).1 =
      .ok (isIgnored e.rules (Key.ofNames names isDir)) := by
  rw [(he.ignores _ isDir).1, Key.ofPath_intercalate h hne]
  rfl

/-- A reachable engine leaves out a path that is made of names if and only if the last rule that
matches the key of some beginning of it is not negative. So what lies below a directory that is left
out is left out, whatever the rules take back in. -/
theorem ignores_iff_exists_beginning {e : Engine} (he : e.Reachable) {names : List String}
    (h : ∀ n ∈ names, IsName n) (hne : names ≠ []) (isDir : Bool) :
    (∃ answer, (e.ignores ("/".intercalate names) isDir).1 = .ok answer ∧
      (answer = true ↔ ∃ i, 1 ≤ i ∧ i ≤ names.length ∧
        ∃ r, IsLastMatch e.rules (Key.ofBeginning names isDir i) r ∧ r.negative = false)) ∧
    ((e.ignores ("/".intercalate names) true).1 = .ok true →
      ∀ below, (∀ n ∈ below, IsName n) → below ≠ [] → ∀ isDirBelow,
        (e.ignores ("/".intercalate (names ++ below)) isDirBelow).1 = .ok true) := by
  constructor
  · refine ⟨_, he.consistent.ignores_intercalate h hne isDir, ?_⟩
    simp only [isIgnored_ofNames h hne, leavesOut_iff]
  · intro hdir below hbelow hne' isDirBelow
    rw [he.consistent.ignores_intercalate h hne] at hdir
    have hall : ∀ n ∈ names ++ below, IsName n := by
      intro n hn
      rcases List.mem_append.mp hn with hn | hn
      · exact h n hn
      · exact hbelow n hn
    rw [he.consistent.ignores_intercalate hall (List.append_ne_nil_of_left_ne_nil hne _),
      isIgnored_of_above hall hne hne' (Except.ok.inj hdir) isDirBelow]

/-- With the rules `build/` and `!build/keep.txt` the directory is left out, and so is the file. -/
theorem ignores_below_build :
    ((ofHistory true [.add (.list [some "build/", some "!build/keep.txt"])]).ignores
      ("/".intercalate ["build"]) true).1 = .ok true ∧
    ((ofHistory true [.add (.list [some "build/", some "!build/keep.txt"])]).ignores
      ("/".intercalate (["build"] ++ ["keep.txt"])) false).1 = .ok true := by
  have he : Reachable (ofHistory true [.add (.list [some "build/", some "!build/keep.txt"])]) :=
    ⟨_, _, rfl⟩
  have hdir : ((ofHistory true [.add (.list [some "build/", some "!build/keep.txt"])]).ignores
      ("/".intercalate ["build"]) true).1 = .ok true := by decide +kernel
  exact ⟨hdir, (ignores_iff_exists_beginning he (by decide) (by decide) true).2 hdir
    ["keep.txt"] (by decide) (by decide) false⟩

end Engine

end SourceSnapshot.Ignore
