import SourceSnapshot.Proofs.Ignore.Questions
import SourceSnapshot.Proofs.Traversal.Encounters

/-!
# The questions of a traversal

A traversal asks its engine about every entry that it comes by, in order, except where the name of
the entry decides already. It gets below a directory only after it has asked about that directory,
so each question comes behind those about all directories above. Nothing else is asked: a walk
leaves its engine behind as it is after these questions.
-/

namespace SourceSnapshot

open FileSystem (Entry IsName joined_eq_intercalate)
open Ignore (AskedFromAbove Engine Exclusion Question Rule)

namespace Traversal

/-- What the engine is asked about an entry, unless the name of the entry decides. -/
def Encounter.question? (includeDotNames : Bool) (c : Encounter) : Option Question :=
  match Exclusion.ofName? includeDotNames c.entry.name with
  | some _ => none
  | none => some ⟨c.names, c.entry.isKnownDirectory⟩

/-- What the engine is asked about several entries, in order. -/
def questionsOf (includeDotNames : Bool) (met : List Encounter) : List Question :=
  met.filterMap fun c => c.question? includeDotNames

section

variable {includeDotNames : Bool} {rules? : Option (List Rule)}

theorem questionsOf_append (met more : List Encounter) :
    questionsOf includeDotNames (met ++ more) =
      questionsOf includeDotNames met ++ questionsOf includeDotNames more :=
  List.filterMap_append

/-- A question is about the names of an entry. -/
theorem exists_of_mem_questionsOf {met : List Encounter} {q : Question}
    (hq : q ∈ questionsOf includeDotNames met) : ∃ c ∈ met, q.names = c.names := by
  obtain ⟨c, hc, hquestion⟩ := List.mem_filterMap.mp hq
  refine ⟨c, hc, ?_⟩
  rw [Encounter.question?] at hquestion
  split at hquestion
  · cases hquestion
  · rw [← Option.some.inj hquestion]

theorem questionsOf_ofEntry_of_some {above : List String} {entry : Entry} {exclusion : Exclusion}
    (h : Exclusion.ofName? includeDotNames entry.name = some exclusion) :
    questionsOf includeDotNames [.ofEntry includeDotNames rules? above entry] = [] := by
  rw [questionsOf, List.filterMap_cons_none, List.filterMap_nil]
  rw [Encounter.question?, Encounter.ofEntry, h]

/-- About any other entry there is one question. -/
theorem questionsOf_ofEntry_of_none {above : List String} {entry : Entry}
    (h : Exclusion.ofName? includeDotNames entry.name = none) :
    questionsOf includeDotNames [.ofEntry includeDotNames rules? above entry] =
      [⟨above ++ [entry.name], entry.isKnownDirectory⟩] := by
  have hquestion : (Encounter.ofEntry includeDotNames rules? above entry).question?
      includeDotNames = some ⟨above ++ [entry.name], entry.isKnownDirectory⟩ := by
    rw [Encounter.question?, Encounter.ofEntry, h]
  rw [questionsOf, List.filterMap_cons_some hquestion, List.filterMap_nil]

/-- A directory that is entered is met before its entries. -/
theorem encountersOf_entered {above : List String} {name : String} {entries : List Entry}
    (h : (Encounter.ofEntry includeDotNames rules? above
      (.directory name false none entries)).exclusion? = none) :
    encountersOf includeDotNames rules? above (.directory name false none entries) =
      [.ofEntry includeDotNames rules? above (.directory name false none entries)] ++
        encountersAmong includeDotNames rules? (above ++ [name]) entries := by
  rw [encountersOf, if_pos ⟨h, rfl⟩, List.singleton_append]

/-- Nothing is met below a directory that is left out. -/
theorem encountersOf_excluded {above : List String} {name : String} {exclusion : Exclusion}
    {listFault : Option FileSystem.Errno} {entries : List Entry}
    (h : (Encounter.ofEntry includeDotNames rules? above
      (.directory name false listFault entries)).exclusion? = some exclusion) :
    encountersOf includeDotNames rules? above (.directory name false listFault entries) =
      [.ofEntry includeDotNames rules? above (.directory name false listFault entries)] := by
  rw [encountersOf, if_neg fun hkept => by cases h.symm.trans hkept.1]

theorem encountersOf_unlistable (above : List String) (name : String) (errno : FileSystem.Errno)
    (entries : List Entry) :
    encountersOf includeDotNames rules? above (.directory name false (some errno) entries) =
      [.ofEntry includeDotNames rules? above (.directory name false (some errno) entries)] := by
  rw [encountersOf, if_neg fun hlisted => by cases hlisted.2]

/-- The directories above names, down to the last of the names, have been asked about. -/
def IsAskedDownTo (asked : List Question) (above : List String) : Prop :=
  ∀ i, 0 < i → i ≤ above.length → (⟨above.take i, true⟩ : Question) ∈ asked

theorem isAskedDownTo_nil (asked : List Question) : IsAskedDownTo asked [] :=
  fun _ hpos hle => absurd hle (Nat.not_le.mpr hpos)

/-- One more directory may be asked about. -/
theorem IsAskedDownTo.append_singleton {asked : List Question} {above : List String}
    (h : IsAskedDownTo asked above) (name : String) :
    IsAskedDownTo (⟨above ++ [name], true⟩ :: asked) (above ++ [name]) := by
  intro i hpos hle
  rw [List.length_append, List.length_singleton] at hle
  rcases Nat.lt_or_eq_of_le hle with hlt | rfl
  · rw [List.take_append_of_le_length (Nat.le_of_lt_succ hlt)]
    exact List.mem_cons_of_mem _ (h i hpos (Nat.le_of_lt_succ hlt))
  · rw [List.take_of_length_le (by simp)]
    exact List.mem_cons_self

/-- The directories above an entry are those that its names begin with. -/
theorem IsAskedDownTo.above_mem {asked : List Question} {above : List String}
    (h : IsAskedDownTo asked above) (name : String) (isDir : Bool) {i : Nat} (hpos : 0 < i)
    (hlt : i < (above ++ [name]).length) :
    Question.above ⟨above ++ [name], isDir⟩ i ∈ asked := by
  rw [List.length_append, List.length_singleton] at hlt
  rw [Question.above, List.take_append_of_le_length (Nat.le_of_lt_succ hlt)]
  exact h i hpos (Nat.le_of_lt_succ hlt)

/-- The one question about an entry, if there is any, comes behind those about the directories
above. -/
theorem askedFromAbove_ofEntry {asked : List Question} {above : List String}
    (h : IsAskedDownTo asked above) (entry : Entry) :
    AskedFromAbove asked
      (questionsOf includeDotNames [.ofEntry includeDotNames rules? above entry]) := by
  cases hname : Exclusion.ofName? includeDotNames entry.name with
  | some exclusion =>
    rw [questionsOf_ofEntry_of_some hname]
    trivial
  | none =>
    rw [questionsOf_ofEntry_of_none hname]
    exact ⟨fun i hpos hlt => h.above_mem entry.name _ hpos hlt, trivial⟩

mutual

/-- Where the directories above an entry have been asked about, the entry and what is below it are
asked about from above. -/
theorem askedFromAbove_encountersOf {asked : List Question} {above : List String}
    (h : IsAskedDownTo asked above) (entry : Entry) :
    AskedFromAbove asked
      (questionsOf includeDotNames (encountersOf includeDotNames rules? above entry)) := by
  match entry with
  | .file name obscure data => exact askedFromAbove_ofEntry h _
  | .link name obscure target => exact askedFromAbove_ofEntry h _
  | .pipe name obscure => exact askedFromAbove_ofEntry h _
  | .unknown name fault => exact askedFromAbove_ofEntry h _
  | .directory name true listFault entries => exact askedFromAbove_ofEntry h _
  | .directory name false listFault entries =>
    rw [encountersOf]
    split
    · -- The directory is entered, so its name did not decide and it has been asked about.
      rename_i hkept
      have hname := (Exclusion.byRules?_eq_none_iff.mp hkept.1).1
      rw [← List.singleton_append, questionsOf_append, questionsOf_ofEntry_of_none hname]
      exact ⟨fun i hpos hlt => h.above_mem name _ hpos hlt,
        askedFromAbove_encountersAmong (h.append_singleton name) entries⟩
    · exact askedFromAbove_ofEntry h _
termination_by structural entry

/-- Where the directories above several entries have been asked about, the entries and what is below
them are asked about from above. -/
theorem askedFromAbove_encountersAmong {asked : List Question} {above : List String}
    (h : IsAskedDownTo asked above) (entries : List Entry) :
    AskedFromAbove asked
      (questionsOf includeDotNames (encountersAmong includeDotNames rules? above entries)) := by
  match entries with
  | [] => trivial
  | entry :: rest =>
    rw [encountersAmong, questionsOf_append]
    exact (askedFromAbove_encountersOf h entry).append (askedFromAbove_encountersAmong h rest)
termination_by structural entries

end

/-- What is below the root is asked about from above. -/
theorem askedFromAbove_root (entries : List Entry) :
    AskedFromAbove []
      (questionsOf includeDotNames (encountersAmong includeDotNames rules? [] entries)) :=
  askedFromAbove_encountersAmong (isAskedDownTo_nil []) entries

end

/-- The answer about an entry comes from the rules alone, and the engine remembers the answer to the
question about the entry. -/
theorem exclusion_of_eq {e : Engine} (he : e.Consistent) {above : List String} {entry : Entry}
    (h : ∀ n ∈ above ++ [entry.name], IsName n) (includeDotNames : Bool) {isDir : Bool}
    (hdir : entry.isKnownDirectory = isDir) :
    Exclusion.of includeDotNames (some e) ("/".intercalate (above ++ [entry.name])) entry.name
        isDir =
      (.ok (Exclusion.byRules? includeDotNames (some e.rules) above entry.name isDir),
        some (e.askAll (questionsOf includeDotNames
          [.ofEntry includeDotNames (some e.rules) above entry]))) := by
  obtain ⟨next?, -, hanswer⟩ := Exclusion.of_follows
    ⟨rfl, fun e' he' => Option.mem_some.mp he' ▸ he⟩ h includeDotNames isDir
  have hnext : (Exclusion.of includeDotNames (some e) ("/".intercalate (above ++ [entry.name]))
      entry.name isDir).2 = some (e.askAll (questionsOf includeDotNames
        [.ofEntry includeDotNames (some e.rules) above entry])) := by
    rw [Exclusion.of, ← joined_eq_intercalate h]
    cases hname : Exclusion.ofName? includeDotNames entry.name with
    | some exclusion =>
      rw [questionsOf_ofEntry_of_some hname]
      rfl
    | none =>
      rw [questionsOf_ofEntry_of_none hname, hdir]
      rfl
  rw [hanswer] at hnext ⊢
  exact congrArg _ hnext

/-- What holds of leaving an entry out and of keeping it, each after the question about it, holds of
what is done about the entry. -/
theorem decideEntry_asking {α : Type} {motive : Walk α → Prop} {e : Engine} (he : e.Consistent)
    {above : List String} (entry : Entry) (h : ∀ n ∈ above ++ [entry.name], IsName n)
    {includeDotNames isDir : Bool} (hdir : entry.isKnownDirectory = isDir) {c : Encounter}
    (hc : c = .ofEntry includeDotNames (some e.rules) above entry)
    {excluded : Option Engine → Exclusion → Walk α} {kept : Option Engine → Walk α}
    (hexcluded : ∀ exclusion, c.exclusion? = some exclusion →
      motive (excluded (some (e.askAll (questionsOf includeDotNames [c]))) exclusion))
    (hkept : c.exclusion? = none →
      motive (kept (some (e.askAll (questionsOf includeDotNames [c]))))) :
    motive (decideEntry includeDotNames (some e) ("/".intercalate (above ++ [entry.name]))
      entry.name isDir excluded kept) := by
  have hrules :
      c.exclusion? = Exclusion.byRules? includeDotNames (some e.rules) above entry.name isDir := by
    rw [hc, Encounter.ofEntry, hdir]
  rw [decideEntry, exclusion_of_eq he h includeDotNames hdir, ← hrules, ← hc]
  cases hexclusion : c.exclusion? with
  | some exclusion => exact hexcluded exclusion hexclusion
  | none => exact hkept hexclusion

/-- The members of a list up to the first that stops there. -/
def upTo {α : Type} (stops : α → Bool) (l : List α) : List α := l.take (l.findIdx stops + 1)

theorem upTo_singleton {α : Type} (stops : α → Bool) (a : α) : upTo stops [a] = [a] :=
  List.take_of_length_le (by simp)

theorem upTo_append_of_any {α : Type} {stops : α → Bool} {l : List α} (h : l.any stops = true)
    (more : List α) : upTo stops (l ++ more) = upTo stops l := by
  have hlt : l.findIdx stops < l.length := List.findIdx_lt_length.mpr (List.any_eq_true.mp h)
  rw [upTo, upTo, List.findIdx_append, if_pos hlt, List.take_append_of_le_length hlt]

/-- If no member stops, nothing is cut off. -/
theorem upTo_append_of_not_any {α : Type} {stops : α → Bool} {l : List α}
    (h : l.any stops = false) (more : List α) :
    upTo stops (l ++ more) = l ++ upTo stops more := by
  have hlength : l.findIdx stops = l.length :=
    List.findIdx_eq_length.mpr fun a ha => Bool.eq_false_iff.mpr (List.any_eq_false.mp h a ha)
  rw [upTo, upTo, List.findIdx_append, if_neg (by omega), Nat.add_right_comm, Nat.add_comm,
    List.take_length_add_append]

/-- If no member stops, all are left. -/
theorem upTo_eq_self {α : Type} {stops : α → Bool} {l : List α} (h : l.any stops = false) :
    upTo stops l = l := by
  have hall := upTo_append_of_not_any h []
  rwa [List.append_nil, show upTo stops [] = [] from rfl, List.append_nil] at hall

/-- A walk that goes by these entries, in order and up to the first that stops it, leaves its engine
behind as it is after the questions about them. -/
structure Asks {α : Type} (includeDotNames : Bool) (stops : Encounter → Bool) (e : Engine)
    (walk : Walk α) (met : List Encounter) : Prop where
  engine : walk.engine? = some (e.askAll (questionsOf includeDotNames (upTo stops met)))
  stopped : walk.stop?.isSome = met.any stops

/-- What a walk asks that starts behind other questions. -/
theorem Asks.behind {α : Type} {includeDotNames : Bool} {stops : Encounter → Bool} {e : Engine}
    {walk : Walk α} {met more : List Encounter}
    (h : Asks includeDotNames stops (e.askAll (questionsOf includeDotNames met)) walk more)
    (hgoesOn : met.any stops = false) : Asks includeDotNames stops e walk (met ++ more) := by
  refine ⟨?_, ?_⟩
  · rw [upTo_append_of_not_any hgoesOn, questionsOf_append, Engine.askAll_append]
    exact h.engine
  · rw [List.any_append, hgoesOn, Bool.false_or]
    exact h.stopped

/-- A walk that goes on with the next one asks what both ask. -/
theorem Asks.andThen {α : Type} {includeDotNames : Bool} {stops : Encounter → Bool} {e : Engine}
    {first : Walk α} {next : Option Engine → Walk α} {met more : List Encounter}
    (h : Asks includeDotNames stops e first met) (he : e.Consistent)
    (hnext : ∀ e' : Engine, e'.Consistent → e'.rules = e.rules →
      Asks includeDotNames stops e' (next (some e')) more) :
    Asks includeDotNames stops e (first.andThen next) (met ++ more) := by
  have hstopped := h.stopped
  cases hany : met.any stops with
  | true =>
    rw [hany] at hstopped
    obtain ⟨failure, hfailure⟩ := Option.isSome_iff_exists.mp hstopped
    rw [Walk.andThen_of_some hfailure]
    refine ⟨?_, ?_⟩
    · rw [upTo_append_of_any hany, h.engine]
    · rw [List.any_append, hany, hfailure]
      rfl
  | false =>
    rw [hany, Option.isSome_eq_false_iff, Option.isNone_iff_eq_none] at hstopped
    have hengine := h.engine
    rw [upTo_eq_self hany] at hengine
    obtain ⟨hconsistent, hrules⟩ := he.askAll (questionsOf includeDotNames met)
    have hlast := hnext _ hconsistent hrules
    rw [← hengine] at hlast
    rw [Walk.andThen_of_none hstopped]
    exact Asks.behind ⟨hlast.engine, hlast.stopped⟩ hany

/-- A traversal of a root that can be listed leaves behind the engine of its walk. -/
theorem run_engine?_of_list {α β : Type} {fs : FileSystem} {path : String} {entries : List Entry}
    (hlist : fs.list path = .ok entries) (engine? : Option Engine) (walk : List Entry → Walk α)
    (finish : List α → β × List Log.Record) :
    (run fs engine? path walk finish).engine? = (walk entries).engine? := by
  rw [run, hlist]
  cases hstop : (walk entries).stop? with
  | some failure => simp only [hstop]
  | none => simp only [hstop]

/-- A run asks its engine these questions, in this order, and nothing else. -/
structure AsksOnly (e : Engine) (left? : Option Engine) (questions : List Question) : Prop where
  /-- The run leaves its engine behind as it is after the questions. -/
  left : left? = some (e.askAll questions)
  /-- Each question is about a path that is made of names. -/
  names : ∀ q ∈ questions, (∀ n ∈ q.names, IsName n) ∧ q.names ≠ []
  /-- Each question stands behind those about all directories above its path. -/
  above : ∀ before q after, questions = before ++ q :: after →
    ∀ i, 0 < i → i < q.names.length → q.above i ∈ before

/-- A run asks in this way if its questions are about entries that a traversal comes by. -/
theorem asksOnly_of_encounters {includeDotNames : Bool} {rules? : Option (List Rule)}
    {entries : List Entry} (hentries : Entry.areWellNamed entries = true) {met : List Encounter}
    (hmet : met ⊆ encountersAmong includeDotNames rules? [] entries) {e : Engine}
    {left? : Option Engine}
    (hleft : left? = some (e.askAll (questionsOf includeDotNames met)))
    (habove : AskedFromAbove [] (questionsOf includeDotNames met)) :
    AsksOnly e left? (questionsOf includeDotNames met) := by
  refine ⟨hleft, fun q hq => ?_, fun before q after heq i hpos hlt => ?_⟩
  · obtain ⟨c, hc, hnames⟩ := exists_of_mem_questionsOf hq
    rw [hnames]
    exact isName_of_mem_encountersAmong hentries (hmet hc)
  · rw [heq] at habove
    exact (habove.above_mem hpos hlt).resolve_right List.not_mem_nil

end Traversal

end SourceSnapshot
