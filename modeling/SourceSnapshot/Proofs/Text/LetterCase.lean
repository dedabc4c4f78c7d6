import Mathlib
import SourceSnapshot.Proofs.Text.Pieces
import SourceSnapshot.Text.Case

/-!
# The two cases of a letter

A text that is written in lower case says, for every ASCII letter, which letter it is and not in
which case. Two texts that differ in the case of such letters only have one form in lower case, and
each of their characters has the lower form of the character that stands there in the other text.
-/

namespace SourceSnapshot.Text

/-- Whether two characters are equal or the two cases of one ASCII letter. -/
def SameLetter (c d : Char) : Prop :=
  c = d ∨ (c.isUpper = true ∧ d = c.toLower) ∨ (d.isUpper = true ∧ c = d.toLower)

instance (c d : Char) : Decidable (SameLetter c d) :=
  inferInstanceAs (Decidable (_ ∨ _))

/-- A text with every ASCII letter in lower case. -/
def lowered (cs : List Char) : List Char := cs.map Char.toLower

/-- Texts that differ in the case of ASCII letters only are the same text in lower case. -/
theorem lowered_eq_of_sameLetters {cs ds : List Char} (h : List.Forall₂ SameLetter cs ds) :
    lowered cs = lowered ds := by
  induction h with
  | nil => rfl
  | @cons c d cs ds hletter _ ih =>
    have hc : c.toLower = d.toLower := by
      rcases hletter with rfl | ⟨-, rfl⟩ | ⟨-, rfl⟩
      · rfl
      · exact (Char.toLower_toLower_eq_toLower c).symm
      · exact Char.toLower_toLower_eq_toLower d
    rw [lowered, List.map_cons, hc]
    exact congrArg (d.toLower :: ·) ih

theorem toNat_of_isUpper {c : Char} (h : c.isUpper = true) : 65 ≤ c.toNat ∧ c.toNat ≤ 90 := by
  simp only [Char.isUpper, decide_eq_true_eq] at h
  exact h

theorem toNat_toLower_of_isUpper {c : Char} (h : c.isUpper = true) :
    c.toLower.toNat = c.toNat + 32 := by
  obtain ⟨-, hlast⟩ := toNat_of_isUpper h
  rw [Char.toLower_eq_of_isUpper h, Char.toNat_ofNat, if_pos]
  exact Or.inl (by omega)

/-- A character that is no letter is the lower case of itself only. -/
theorem toLower_eq_iff {c d : Char} (hd : d.isAlpha = false) : c.toLower = d ↔ c = d := by
  cases hc : c.isUpper with
  | false =>
    rw [Char.toLower_eq_of_not_isUpper (Bool.eq_false_iff.mp hc)]
  | true =>
    have halpha : c.isAlpha = true := by
      rw [Char.isAlpha, hc, Bool.true_or]
    constructor
    · rintro rfl
      rw [Char.isAlpha_toLower_eq_isAlpha, halpha] at hd
      cases hd
    · rintro rfl
      rw [halpha] at hd
      cases hd

theorem beq_toLower {c d : Char} (hd : d.isAlpha = false) : (c.toLower == d) = (c == d) := by
  rw [Bool.eq_iff_iff, beq_iff_eq, beq_iff_eq, toLower_eq_iff hd]

/-- A text without letters is the lower case of itself only. -/
theorem lowered_eq_iff {cs ds : List Char} (hds : ∀ d ∈ ds, d.isAlpha = false) :
    lowered cs = ds ↔ cs = ds := by
  induction ds generalizing cs with
  | nil => exact List.map_eq_nil_iff
  | cons d ds ih =>
    obtain ⟨hd, hrest⟩ := List.forall_mem_cons.mp hds
    cases cs with
    | nil => exact Iff.rfl
    | cons c cs =>
      rw [lowered, List.map_cons, List.cons.injEq, List.cons.injEq, toLower_eq_iff hd]
      exact and_congr_right fun _ => ih hrest

theorem isPrefixOf_lowered {ds : List Char} (hds : ∀ d ∈ ds, d.isAlpha = false) (cs : List Char) :
    ds.isPrefixOf (lowered cs) = ds.isPrefixOf cs := by
  have htake : (lowered cs).take ds.length = lowered (cs.take ds.length) := List.map_take.symm
  rw [Bool.eq_iff_iff, List.isPrefixOf_iff_prefix, List.isPrefixOf_iff_prefix,
    List.prefix_iff_eq_take, List.prefix_iff_eq_take, htake, eq_comm, lowered_eq_iff hds, eq_comm]

section

variable {p : Char → Bool} (hp : ∀ c, p c.toLower = p c)

include hp

theorem dropWhile_lowered (cs : List Char) :
    (lowered cs).dropWhile p = lowered (cs.dropWhile p) := by
  have hcomp : p ∘ Char.toLower = p := funext hp
  rw [lowered, List.dropWhile_map, hcomp, lowered]

theorem dropTrailing_lowered (cs : List Char) :
    dropTrailing p (lowered cs) = lowered (dropTrailing p cs) := by
  have hreverse : (lowered cs).reverse = lowered cs.reverse := List.map_reverse.symm
  rw [dropTrailing, hreverse, dropWhile_lowered hp]
  exact List.map_reverse.symm

theorem trim_lowered (cs : List Char) : trim p (lowered cs) = lowered (trim p cs) := by
  rw [trim, dropWhile_lowered hp, dropTrailing_lowered hp, trim]

end

/-- A text in lower case ends with a character that is no letter if the text itself does. -/
theorem endsWith_lowered {d : Char} (hd : d.isAlpha = false) (cs : List Char) :
    endsWith (lowered cs) [d] = endsWith cs [d] := by
  rw [Bool.eq_iff_iff, endsWith_singleton, endsWith_singleton, lowered, List.getLast?_map,
    Option.map_eq_some_iff]
  constructor
  · rintro ⟨c, hc, hlower⟩
    rwa [(toLower_eq_iff hd).mp hlower] at hc
  · intro h
    exact ⟨d, h, (toLower_eq_iff hd).mpr rfl⟩

/-- A run without gaps meets every interval that holds one of its members. -/
theorem CaseRun.meets_of_mem {run : CaseRun} (hstride : run.stride = 1) {low high n : Nat}
    (hrun : run.first ≤ n ∧ n ≤ run.last) (hn : low ≤ n ∧ n ≤ high) :
    run.meets low high = true := by
  obtain ⟨hfirst, hlast⟩ := hrun
  obtain ⟨hlow, hhigh⟩ := hn
  have hleast : run.leastFrom? low = some (max run.first low) := by
    rw [CaseRun.leastFrom?, hstride]
    simp only [Nat.mod_one]
    split
    · rw [if_pos (by omega), Nat.max_eq_left ‹_›]
    · rw [if_pos (by omega), Nat.max_eq_right (by omega), Nat.add_zero]
  rw [CaseRun.meets, hleast, Option.any_some, decide_eq_true_eq]
  exact Nat.max_le.mpr ⟨by omega, by omega⟩

namespace Case

/-- Both cases of an ASCII letter have the same lower form. -/
theorem lower_toLower (c : Char) : lower c.toLower.toNat = lower c.toNat := by
  cases hc : c.isUpper with
  | false =>
    rw [Char.toLower_eq_of_not_isUpper (Bool.eq_false_iff.mp hc)]
  | true =>
    have hletters : ∀ n ∈ List.range' 65 26, lower (n + 32) = lower n := by
      decide +kernel
    obtain ⟨hfirst, hlast⟩ := toNat_of_isUpper hc
    rw [toNat_toLower_of_isUpper hc]
    exact hletters _ (List.mem_range'_1.mpr ⟨hfirst, by omega⟩)

theorem agrees_toLower (a b : Char) : agrees a b.toLower = agrees a b := by
  rw [agrees, agrees, lower_toLower]

/-- Whether the code point is that of an ASCII letter. -/
def IsLetter (n : Nat) : Prop := (65 ≤ n ∧ n ≤ 90) ∨ (97 ≤ n ∧ n ≤ 122)

/-- An ASCII letter is cased. -/
theorem isCased_of_isLetter {n : Nat} (h : IsLetter n) : isCased n = true := by
  have hupper : ∀ n ∈ List.range' 65 26, isCased n = true := by decide +kernel
  have hlower : ∀ n ∈ List.range' 97 26, isCased n = true := by decide +kernel
  rcases h with ⟨hfirst, hlast⟩ | ⟨hfirst, hlast⟩
  · exact hupper n (List.mem_range'_1.mpr ⟨hfirst, by omega⟩)
  · exact hlower n (List.mem_range'_1.mpr ⟨hfirst, by omega⟩)

/-- An interval that holds an ASCII letter holds a cased character. -/
theorem anyCased_of_isLetter {low high n : Nat} (h : IsLetter n) (hn : low ≤ n ∧ n ≤ high) :
    anyCased low high = true := by
  have hlowering : (⟨65, 90, 1, 32⟩ : CaseRun) ∈ CaseTable.lowering := by decide
  have hraising : (⟨97, 122, 1, -32⟩ : CaseRun) ∈ CaseTable.raising := by decide
  rw [anyCased, Bool.or_eq_true, List.any_eq_true, List.any_eq_true]
  rcases h with hletter | hletter
  · exact Or.inl ⟨_, hlowering, CaseRun.meets_of_mem rfl hletter hn⟩
  · exact Or.inr ⟨_, hraising, CaseRun.meets_of_mem rfl hletter hn⟩

end Case

end SourceSnapshot.Text
