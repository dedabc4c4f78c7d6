import Mathlib.Data.List.TakeWhile
import SourceSnapshot.CommandLine.Transcript

/-!
# Control sequences in messages

A control sequence is an escape, a bracket, parameters, intermediates and a final character. A
message sheds the sequences that are met in its text from left to right and keeps all else, so it is
written as it stands just if its text holds none. The line feed behind it belongs to no sequence.
-/

namespace SourceSnapshot.CommandLine

/-- These characters are parameters, intermediates and a final character. -/
structure IsBody (parameters intermediates : List Char) (final : Char) : Prop where
  parameters : ∀ c ∈ parameters, isParameter c = true
  intermediates : ∀ c ∈ intermediates, isIntermediate c = true
  final : isFinal final = true

/-- The characters are a control sequence. -/
def IsSequence (cs : List Char) : Prop :=
  ∃ parameters intermediates final, IsBody parameters intermediates final ∧
    cs = escape :: '[' :: (parameters ++ (intermediates ++ [final]))

/-- A control sequence stands in front of the characters. -/
def StartsSequence (cs : List Char) : Prop :=
  ∃ middle after, IsSequence middle ∧ cs = middle ++ after

/-- A control sequence stands somewhere among the characters. -/
def HasSequence (cs : List Char) : Prop := ∃ before rest, StartsSequence rest ∧ cs = before ++ rest

/-- A parameter is no intermediate and does not end a sequence. -/
theorem isParameter_eq_false {c : Char} (h : isIntermediate c = true ∨ isFinal c = true) :
    isParameter c = false := by
  simp only [isIntermediate, isFinal, isParameter, Bool.and_eq_true, decide_eq_true_eq,
    Bool.and_eq_false_iff, decide_eq_false_iff_not, Char.le_def, UInt32.le_iff_toNat_le] at h ⊢
  simp at h ⊢
  omega

theorem isIntermediate_eq_false {c : Char} (h : isFinal c = true) : isIntermediate c = false := by
  simp only [isIntermediate, isFinal, Bool.and_eq_true, decide_eq_true_eq,
    Bool.and_eq_false_iff, decide_eq_false_iff_not, Char.le_def, UInt32.le_iff_toNat_le] at h ⊢
  simp at h ⊢
  omega

theorem takeWhile_append_cons {p : Char → Bool} {front : List Char} (h : ∀ c ∈ front, p c = true)
    {c : Char} (hc : p c = false) (rest : List Char) :
    (front ++ c :: rest).takeWhile p = front := by
  rw [List.takeWhile_append_of_pos h, List.takeWhile_cons_of_neg (Bool.eq_false_iff.mp hc),
    List.append_nil]

theorem append_drop_takeWhile (p : Char → Bool) (cs : List Char) :
    cs.takeWhile p ++ cs.drop (cs.takeWhile p).length = cs :=
  List.prefix_iff_eq_append.mp (List.takeWhile_prefix p)

/-- The width of a sequence is found, whatever stands behind it. -/
theorem sequenceWidth?_of_isBody {parameters intermediates : List Char} {final : Char}
    (h : IsBody parameters intermediates final) (after : List Char) :
    sequenceWidth? ('[' :: (parameters ++ (intermediates ++ final :: after))) =
      some (parameters.length + intermediates.length + 2) := by
  have hparameters : (parameters ++ (intermediates ++ final :: after)).takeWhile isParameter =
      parameters := by
    cases hi : intermediates with
    | nil => exact takeWhile_append_cons h.parameters (isParameter_eq_false (.inr h.final)) after
    | cons c rest =>
      have hc : isIntermediate c = true := h.intermediates c (by simp [hi])
      exact takeWhile_append_cons h.parameters (isParameter_eq_false (.inl hc)) _
  have hintermediates : (intermediates ++ final :: after).takeWhile isIntermediate =
      intermediates :=
    takeWhile_append_cons h.intermediates (isIntermediate_eq_false h.final) after
  simp only [sequenceWidth?, hparameters, List.drop_left, hintermediates, h.final, if_true]

/-- A width that is found belongs to a sequence. -/
theorem exists_isBody_of_sequenceWidth? {cs : List Char} {width : Nat}
    (h : sequenceWidth? cs = some width) :
    ∃ parameters intermediates final after, IsBody parameters intermediates final ∧
      cs = '[' :: (parameters ++ (intermediates ++ final :: after)) ∧
      width = parameters.length + intermediates.length + 2 := by
  unfold sequenceWidth? at h
  split at h
  case h_2 => cases h
  case h_1 rest =>
    have hparameters := append_drop_takeWhile isParameter rest
    set parameters := rest.takeWhile isParameter
    set behind := rest.drop parameters.length
    have hintermediates := append_drop_takeWhile isIntermediate behind
    set intermediates := behind.takeWhile isIntermediate
    simp only at h
    split at h
    case h_2 => cases h
    case h_1 final after hfinal =>
      split at h
      case isFalse => cases h
      case isTrue hend =>
        refine ⟨parameters, intermediates, final, after, ⟨?_, ?_, hend⟩, ?_, ?_⟩
        · exact fun c hc => List.mem_takeWhile_imp hc
        · exact fun c hc => List.mem_takeWhile_imp hc
        · rw [← hfinal, hintermediates, hparameters]
        · exact (Option.some.inj h).symm

/-- Characters that are skipped are left out. -/
theorem unstyledFrom_eq_drop (skipped : Nat) (cs : List Char) :
    unstyledFrom skipped cs = unstyledFrom 0 (cs.drop skipped) := by
  induction cs generalizing skipped with
  | nil => rw [List.drop_nil, unstyledFrom, unstyledFrom]
  | cons c rest ih =>
    cases skipped with
    | zero => rw [List.drop_zero]
    | succ n => rw [List.drop_succ_cons, ← ih n, unstyledFrom]

/-- A sequence is left out. -/
theorem unstyledFrom_append {middle : List Char} (h : IsSequence middle) (after : List Char) :
    unstyledFrom 0 (middle ++ after) = unstyledFrom 0 after := by
  obtain ⟨parameters, intermediates, final, hbody, rfl⟩ := h
  have hwidth := sequenceWidth?_of_isBody hbody after
  have hshape : parameters ++ (intermediates ++ [final]) ++ after =
      parameters ++ (intermediates ++ final :: after) := by simp
  rw [List.cons_append, List.cons_append, hshape, unstyledFrom]
  simp only [if_true, hwidth]
  rw [unstyledFrom_eq_drop, List.drop_succ_cons, List.append_cons, ← List.append_assoc]
  congr 1
  apply List.drop_left'
  simp only [List.length_append, List.length_singleton]
  omega

/-- A character that starts no sequence is kept. -/
theorem unstyledFrom_cons {c : Char} {rest : List Char} (h : ¬StartsSequence (c :: rest)) :
    unstyledFrom 0 (c :: rest) = c :: unstyledFrom 0 rest := by
  have hnone : (if c = escape then sequenceWidth? rest else none) = none := by
    split
    case isFalse => rfl
    case isTrue hc =>
      cases hwidth : sequenceWidth? rest with
      | none => rfl
      | some width =>
        obtain ⟨parameters, intermediates, final, after, hbody, hrest, -⟩ :=
          exists_isBody_of_sequenceWidth? hwidth
        refine absurd ⟨_, after, ⟨parameters, intermediates, final, hbody, rfl⟩, ?_⟩ h
        simp [hc, hrest]
  rw [unstyledFrom]
  simp only [hnone]

/-- The second characters are the first without the sequences that are met from left to right. -/
inductive Sheds : List Char → List Char → Prop where
  | nil : Sheds [] []
  | sequence {middle after kept : List Char} (h : IsSequence middle) (rest : Sheds after kept) :
    Sheds (middle ++ after) kept
  | char {c : Char} {cs kept : List Char} (h : ¬StartsSequence (c :: cs)) (rest : Sheds cs kept) :
    Sheds (c :: cs) (c :: kept)

theorem IsSequence.length_pos {cs : List Char} (h : IsSequence cs) : 0 < cs.length := by
  obtain ⟨parameters, intermediates, final, -, rfl⟩ := h
  exact Nat.succ_pos _

/-- What a text sheds is what is left out of it. -/
theorem Sheds.unstyledFrom_eq {cs kept : List Char} (h : Sheds cs kept) :
    unstyledFrom 0 cs = kept := by
  induction h with
  | nil => rw [unstyledFrom]
  | sequence hsequence _ ih => rw [unstyledFrom_append hsequence, ih]
  | char hstart _ ih => rw [unstyledFrom_cons hstart, ih]

/-- A text sheds what is left out of it. -/
theorem sheds_unstyledFrom (cs : List Char) : Sheds cs (unstyledFrom 0 cs) := by
  induction hn : cs.length using Nat.strong_induction_on generalizing cs with
  | _ n ih =>
    subst hn
    by_cases hstart : StartsSequence cs
    · obtain ⟨middle, after, hsequence, rfl⟩ := hstart
      have hshorter : after.length < (middle ++ after).length := by
        have := hsequence.length_pos
        rw [List.length_append]
        omega
      rw [unstyledFrom_append hsequence]
      exact .sequence hsequence (ih _ hshorter after rfl)
    · cases cs with
      | nil => exact .nil
      | cons c rest =>
        rw [unstyledFrom_cons hstart]
        exact .char hstart (ih _ (Nat.lt_succ_self _) rest rfl)

namespace Sheds

variable {cs kept : List Char}

theorem sublist (h : Sheds cs kept) : kept.Sublist cs := by
  induction h with
  | nil => exact List.Sublist.slnil
  | sequence _ _ ih => exact ih.trans (List.sublist_append_right _ _)
  | char _ _ ih => exact ih.cons_cons _

/-- A text that holds a sequence is not kept as it stands. -/
theorem length_lt (h : Sheds cs kept) (hsequence : HasSequence cs) : kept.length < cs.length := by
  induction h with
  | nil =>
    obtain ⟨before, rest, ⟨middle, after, hmiddle, rfl⟩, heq⟩ := hsequence
    have := congrArg List.length heq
    have := hmiddle.length_pos
    simp only [List.length_append, List.length_nil] at *
    omega
  | sequence hmiddle hrest _ =>
    have := hrest.sublist.length_le
    have := hmiddle.length_pos
    rw [List.length_append]
    omega
  | char hstart _ ih =>
    obtain ⟨before, rest, hrest, heq⟩ := hsequence
    cases before with
    | nil => exact absurd (heq ▸ hrest) hstart
    | cons b before =>
      obtain ⟨-, hbehind⟩ := List.cons.inj heq
      exact Nat.succ_lt_succ (ih ⟨before, rest, hrest, hbehind⟩)

/-- A text is kept as it stands just if it holds no sequence. -/
theorem eq_iff (h : Sheds cs kept) : kept = cs ↔ ¬HasSequence cs := by
  refine ⟨fun heq hsequence => ?_, fun hnone => ?_⟩
  · exact absurd (h.length_lt hsequence) (by rw [heq]; exact Nat.lt_irrefl _)
  · induction h with
    | nil => rfl
    | sequence hmiddle _ _ => exact absurd ⟨[], _, ⟨_, _, hmiddle, rfl⟩, rfl⟩ hnone
    | @char c cs kept _ _ ih =>
      rw [ih]
      rintro ⟨before, rest, hrest, rfl⟩
      exact hnone ⟨c :: before, rest, hrest, rfl⟩

end Sheds

/-- A line feed behind the characters is no part of a sequence in front of them. -/
theorem StartsSequence.of_append_line {cs : List Char} (h : StartsSequence (cs ++ ['\n'])) :
    StartsSequence cs := by
  obtain ⟨middle, after, hsequence, heq⟩ := h
  rcases List.eq_nil_or_concat after with rfl | ⟨after, c, rfl⟩
  · obtain ⟨parameters, intermediates, final, hbody, rfl⟩ := hsequence
    rw [List.append_nil, ← List.append_assoc, ← List.cons_append, ← List.cons_append] at heq
    obtain ⟨-, hfinal⟩ := List.append_inj' heq rfl
    exact absurd hbody.final (by simp [← List.singleton_inj.mp hfinal, isFinal])
  · rw [List.concat_eq_append, ← List.append_assoc] at heq
    exact ⟨middle, after, hsequence, (List.append_inj' heq rfl).1⟩

/-- A line feed behind a text is kept behind what is kept of it. -/
theorem Sheds.append_line {cs kept : List Char} (h : Sheds cs kept) :
    Sheds (cs ++ ['\n']) (kept ++ ['\n']) := by
  induction h with
  | nil =>
    refine .char (fun hstart => ?_) .nil
    have hnone : StartsSequence [] := StartsSequence.of_append_line hstart
    obtain ⟨middle, after, hsequence, heq⟩ := hnone
    have := hsequence.length_pos
    have := congrArg List.length heq
    simp only [List.length_append, List.length_nil] at *
    omega
  | sequence hsequence _ ih =>
    rw [List.append_assoc]
    exact .sequence hsequence ih
  | char hstart _ ih => exact .char (fun hlonger => hstart hlonger.of_append_line) ih

theorem sheds_unstyled (text : String) : Sheds text.toList (unstyled text).toList := by
  rw [unstyled, String.toList_ofList]
  exact sheds_unstyledFrom text.toList

theorem unstyled_eq_iff (text : String) : unstyled text = text ↔ ¬HasSequence text.toList := by
  rw [← (sheds_unstyled text).eq_iff, String.toList_inj]

theorem messageLine_eq (text : String) : messageLine text = unstyled text ++ "\n" := by
  have hline := (sheds_unstyled text).append_line
  have htext : (text ++ "\n").toList = text.toList ++ ['\n'] := by rw [String.toList_append]; rfl
  rw [messageLine, unstyled, htext, hline.unstyledFrom_eq, String.ofList_append,
    String.ofList_toList]

/-- Two messages are written as they stand just if neither text holds a sequence. -/
theorem messageLine_append_eq_iff (first second : String) :
    messageLine first ++ messageLine second = first ++ "\n" ++ (second ++ "\n") ↔
      ¬HasSequence first.toList ∧ ¬HasSequence second.toList := by
  rw [messageLine_eq, messageLine_eq, ← unstyled_eq_iff, ← unstyled_eq_iff]
  refine ⟨fun heq => ?_, fun ⟨hfirst, hsecond⟩ => by rw [hfirst, hsecond]⟩
  have hshorter := (sheds_unstyled first).sublist
  have hshorter' := (sheds_unstyled second).sublist
  have hlength := congrArg (fun s : String => s.toList.length) heq
  simp only [String.toList_append, List.length_append] at hlength
  have := hshorter.length_le
  have := hshorter'.length_le
  exact ⟨String.toList_inj.mp (hshorter.eq_of_length (by omega)),
    String.toList_inj.mp (hshorter'.eq_of_length (by omega))⟩

end SourceSnapshot.CommandLine
