import SourceSnapshot.Proofs.Ignore.Memory

/-!
# Histories of calls

Any calls may be made on an engine in any order, and some of them fail. The rules after a history
are the accepted ones among all items that were handed over, and what is remembered agrees with
them. So the next answer is that of an engine which has just been given these rules.
-/

namespace SourceSnapshot.Ignore

/-- A call on an engine. An ignore file is loaded from the file system as it is at that moment. -/
inductive Call where
  | add (given : Lines)
  | loadFile (fs : FileSystem) (path : String)
  | ignores (path : String) (isDir : Bool)
  | test (path : String) (isDir : Bool)
  | explain (path : String) (isDir : Bool)
  | filterPaths (paths : List String)

/-- What a call comes back with. -/
inductive Answer where
  | added
  | loaded (result : Except FileFault Unit)
  | ignored (result : Except PathFault Bool)
  | explained (result : Except PathFault Verdict)
  | filtered (result : Except PathFault (List String))

/-- Whether the call failed. -/
def Answer.isFailure : Answer → Bool
  | .loaded (.error _) => true
  | .ignored (.error _) => true
  | .explained (.error _) => true
  | .filtered (.error _) => true
  | _ => false

/-- The items of an ignore file; one that is missing or cannot be read holds none. -/
def fileItems : Except FileFault (Option (List String)) → List (Option String)
  | .ok (some lines) => lines.map some
  | _ => []

/-- The items that a call hands over. -/
def Call.items : Call → List (Option String)
  | .add given => given.toItems
  | .loadFile fs path => fileItems (readLines fs path)
  | _ => []

/-- The accepted rules among all items that were handed over, in order. -/
def rulesOf (ignoreCase : Bool) (history : List Call) : List Rule :=
  history.flatMap fun c => Engine.accepted ignoreCase c.items

theorem rulesOf_append_singleton (ignoreCase : Bool) (history : List Call) (c : Call) :
    rulesOf ignoreCase (history ++ [c]) =
      rulesOf ignoreCase history ++ Engine.accepted ignoreCase c.items := by
  rw [rulesOf, List.flatMap_append, List.flatMap_singleton, rulesOf]

namespace Engine

/-- An engine after an attempt to load a file: if it failed, the engine is as it was. -/
def afterLoading (e : Engine) : Except FileFault Engine → Answer × Engine
  | .error fault => (.loaded (.error fault), e)
  | .ok loaded => (.loaded (.ok ()), loaded)

/-- Makes a call. -/
def perform (e : Engine) : Call → Answer × Engine
  | .add given => (.added, e.add given)
  | .loadFile fs path => e.afterLoading (e.loadFile fs path).1
  | .ignores path isDir => ((.ignored (e.ignores path isDir).1), (e.ignores path isDir).2)
  | .test path isDir => ((.ignored (e.ignores path isDir).1), (e.ignores path isDir).2)
  | .explain path isDir => ((.explained (e.explain path isDir).1), (e.explain path isDir).2)
  | .filterPaths paths => ((.filtered (e.filterPaths paths).1), (e.filterPaths paths).2)

/-- The engine after a history of calls on a new one. -/
def ofHistory (ignoreCase : Bool) (history : List Call) : Engine :=
  history.foldl (fun e c => (e.perform c).2) (empty ignoreCase)

/-- An engine that some history of calls leads to. -/
def Reachable (e : Engine) : Prop := ∃ ignoreCase history, e = ofHistory ignoreCase history

theorem ofHistory_append_singleton (ignoreCase : Bool) (history : List Call) (c : Call) :
    ofHistory ignoreCase (history ++ [c]) = ((ofHistory ignoreCase history).perform c).2 := by
  simp only [ofHistory, List.foldl_append, List.foldl_cons, List.foldl_nil]

theorem addItems_of_eq_nil {e : Engine} {items : List (Option String)}
    (h : accepted e.ignoreCase items = []) : e.addItems items = e := by
  rw [addItems, h]

theorem addItems_of_ne_nil {e : Engine} {items : List (Option String)}
    (h : accepted e.ignoreCase items ≠ []) :
    e.addItems items = ofRules e.ignoreCase (e.rules ++ accepted e.ignoreCase items) := by
  obtain ⟨rule, rules, hr⟩ := List.exists_cons_of_ne_nil h
  rw [addItems, hr]

/-- An engine that remembers nothing goes on remembering nothing when it is given items. -/
theorem addItems_ofRules (ignoreCase : Bool) (rules : List Rule) (items : List (Option String)) :
    (ofRules ignoreCase rules).addItems items =
      ofRules ignoreCase (rules ++ accepted ignoreCase items) := by
  by_cases h : accepted ignoreCase items = []
  · rw [addItems_of_eq_nil (e := ofRules ignoreCase rules) h, h, List.append_nil]
  · exact addItems_of_ne_nil (e := ofRules ignoreCase rules) h

/-- Handing over items appends the accepted rules and keeps what is remembered right. -/
theorem Consistent.addItems {e : Engine} (h : e.Consistent) (items : List (Option String)) :
    (e.addItems items).rules = e.rules ++ accepted e.ignoreCase items ∧
      (e.addItems items).ignoreCase = e.ignoreCase ∧ (e.addItems items).Consistent := by
  by_cases hnil : accepted e.ignoreCase items = []
  · rw [addItems_of_eq_nil hnil, hnil, List.append_nil]
    exact ⟨rfl, rfl, h⟩
  · rw [addItems_of_ne_nil hnil]
    exact ⟨rfl, rfl, consistent_ofRules _ _⟩

/-- Loading a file hands over its lines, if it can be read. -/
theorem loadFile_fst (e : Engine) (fs : FileSystem) (path : String) :
    (e.loadFile fs path).1 =
      (readLines fs path).map fun _ => e.addItems (fileItems (readLines fs path)) := by
  unfold Engine.loadFile
  cases readLines fs path with
  | error fault => rfl
  | ok lines? =>
    cases lines? with
    | none => rfl
    | some lines => rfl

/-- Loading a file fails exactly if it cannot be read, and hands over what it holds. -/
theorem perform_loadFile (e : Engine) (fs : FileSystem) (path : String) :
    e.perform (.loadFile fs path) =
      (.loaded ((readLines fs path).map fun _ => ()),
        e.addItems (Call.loadFile fs path).items) := by
  rw [perform, loadFile_fst, Call.items]
  cases readLines fs path with
  | error fault => rfl
  | ok lines? => rfl

/-- A call appends the accepted rules among the items that it hands over, and nothing else; what is
remembered stays right. -/
theorem Consistent.perform {e : Engine} (h : e.Consistent) (c : Call) :
    (e.perform c).2.rules = e.rules ++ accepted e.ignoreCase c.items ∧
      (e.perform c).2.ignoreCase = e.ignoreCase ∧ (e.perform c).2.Consistent := by
  -- A query hands over no items.
  have hquery : e.rules = e.rules ++ accepted e.ignoreCase [] := (List.append_nil _).symm
  cases c with
  | add given => exact h.addItems given.toItems
  | loadFile fs path =>
    rw [perform_loadFile]
    exact h.addItems _
  | ignores path isDir | test path isDir =>
    obtain ⟨memo, hm⟩ := ignores_frame (e := e) path isDir
    refine ⟨?_, ?_, (h.ignores path isDir).2⟩
    · rw [Engine.perform, hm]
      exact hquery
    · rw [Engine.perform, hm]
  | explain path isDir =>
    obtain ⟨memo, hm⟩ := explain_frame (e := e) path isDir
    refine ⟨?_, ?_, (h.explain path isDir).2⟩
    · rw [Engine.perform, hm]
      exact hquery
    · rw [Engine.perform, hm]
  | filterPaths paths =>
    obtain ⟨memo, hm⟩ := filterPaths_frame (e := e) paths
    refine ⟨?_, ?_, (h.filterPaths paths).2⟩
    · rw [Engine.perform, hm]
      exact hquery
    · rw [Engine.perform, hm]

/-- A call that hands over a rule leaves an engine that remembers nothing. -/
theorem perform_of_accepted_ne_nil {e : Engine} {c : Call}
    (h : accepted e.ignoreCase c.items ≠ []) :
    (e.perform c).2 = ofRules e.ignoreCase (e.rules ++ accepted e.ignoreCase c.items) := by
  cases c with
  | add given => exact addItems_of_ne_nil h
  | loadFile fs path =>
    rw [perform_loadFile]
    exact addItems_of_ne_nil h
  | ignores | test | explain | filterPaths => exact absurd rfl h

/-- Consistent engines with the same rules answer alike. -/
theorem Consistent.answer_congr {e e' : Engine} (h : e.Consistent) (h' : e'.Consistent)
    (hr : e.rules = e'.rules) (c : Call) : (e.perform c).1 = (e'.perform c).1 := by
  cases c with
  | add given => rfl
  | loadFile fs path => rw [perform_loadFile, perform_loadFile]
  | ignores path isDir | test path isDir =>
    simp only [Engine.perform, (h.ignores path isDir).1, (h'.ignores path isDir).1, hr]
  | explain path isDir =>
    simp only [Engine.perform, (h.explain path isDir).1, (h'.explain path isDir).1, hr]
  | filterPaths paths =>
    simp only [Engine.perform, (h.filterPaths paths).1, (h'.filterPaths paths).1, hr]

/-- A call that fails hands over nothing. -/
theorem items_of_isFailure {e : Engine} {c : Call} (h : (e.perform c).1.isFailure = true) :
    c.items = [] := by
  cases c with
  | add given => cases h
  | loadFile fs path =>
    rw [perform_loadFile] at h
    rw [Call.items]
    generalize readLines fs path = read at h
    cases read with
    | error fault => rfl
    | ok lines? => cases h
  | ignores | test | explain | filterPaths => rfl

/-- After any history the rules are those that were handed over, and what is remembered agrees with
them. -/
theorem ofHistory_spec (ignoreCase : Bool) (history : List Call) :
    (ofHistory ignoreCase history).rules = rulesOf ignoreCase history ∧
      (ofHistory ignoreCase history).ignoreCase = ignoreCase ∧
      (ofHistory ignoreCase history).Consistent := by
  induction history using List.reverseRecOn with
  | nil => exact ⟨rfl, rfl, consistent_ofRules _ _⟩
  | append_singleton history c ih =>
    obtain ⟨hrules, hcase, hconsistent⟩ := ih
    obtain ⟨hrules', hcase', hconsistent'⟩ := hconsistent.perform c
    rw [ofHistory_append_singleton]
    refine ⟨?_, hcase'.trans hcase, hconsistent'⟩
    rw [hrules', hrules, hcase, rulesOf_append_singleton]

/-- What a reachable engine remembers agrees with its rules. -/
theorem Reachable.consistent {e : Engine} (h : e.Reachable) : e.Consistent := by
  obtain ⟨ignoreCase, history, rfl⟩ := h
  exact (ofHistory_spec ignoreCase history).2.2

/-- An engine that was made of caller's rules and an ignore file is reachable. -/
theorem reachable_of_ofFile {fs : FileSystem} {ignoreCase : Bool} {items : List (Option String)}
    {directory? : Option String} {path : String} {e : Engine}
    (h : (ofFile fs ignoreCase items directory? path).1 = .ok e) : e.Reachable := by
  refine ⟨ignoreCase, [.add (.list items), .loadFile fs (filePath fs directory? path).text], ?_⟩
  unfold ofFile at h
  generalize hload : ((empty ignoreCase).addItems items).loadFile fs
    (filePath fs directory? path).text = loaded at h
  obtain ⟨loaded, log⟩ := loaded
  obtain rfl : loaded = .ok e := h
  have hadd : ((empty ignoreCase).perform (.add (.list items))).2 =
    (empty ignoreCase).addItems items := rfl
  rw [ofHistory, List.foldl_cons, List.foldl_cons, List.foldl_nil, hadd, perform, hload,
    afterLoading]

/-- After any history of calls, failed ones among them, the rules are the accepted ones that were
handed over; every remembered answer is the one that these rules give without memory; the next call
is answered as by an engine that has just been given these rules; a call that hands over a rule
leaves nothing remembered; and a call that fails leaves the rules as they are, and every later
answer as if it had not been made. -/
theorem perform_ofHistory (ignoreCase : Bool) (history : List Call) (c : Call) :
    (ofHistory ignoreCase history).rules = rulesOf ignoreCase history ∧
      (ofHistory ignoreCase history).Consistent ∧
      ((ofHistory ignoreCase history).perform c).1 =
        ((ofRules ignoreCase (rulesOf ignoreCase history)).perform c).1 ∧
      (accepted ignoreCase c.items ≠ [] →
        ofHistory ignoreCase (history ++ [c]) =
          ofRules ignoreCase (rulesOf ignoreCase (history ++ [c]))) ∧
      (((ofHistory ignoreCase history).perform c).1.isFailure = true →
        (ofHistory ignoreCase (history ++ [c])).rules = (ofHistory ignoreCase history).rules ∧
        ∀ later d, ((ofHistory ignoreCase (history ++ c :: later)).perform d).1 =
          ((ofHistory ignoreCase (history ++ later)).perform d).1) := by
  obtain ⟨hrules, hcase, hconsistent⟩ := ofHistory_spec ignoreCase history
  refine ⟨hrules, hconsistent, ?_, ?_, ?_⟩
  · exact hconsistent.answer_congr (consistent_ofRules _ _) hrules c
  · intro hitems
    rw [← hcase] at hitems
    rw [ofHistory_append_singleton, perform_of_accepted_ne_nil hitems, hcase, hrules,
      rulesOf_append_singleton]
  · intro hfail
    have hitems := items_of_isFailure hfail
    have hsame : ∀ later, rulesOf ignoreCase (history ++ c :: later) =
        rulesOf ignoreCase (history ++ later) := by
      intro later
      simp [rulesOf, hitems, accepted]
    constructor
    · rw [(ofHistory_spec ignoreCase (history ++ [c])).1, hsame, List.append_nil, hrules]
    · intro later d
      obtain ⟨hwith, -, hcwith⟩ := ofHistory_spec ignoreCase (history ++ c :: later)
      obtain ⟨hwithout, -, hcwithout⟩ := ofHistory_spec ignoreCase (history ++ later)
      exact hcwith.answer_congr hcwithout (by rw [hwith, hwithout, hsame]) d

/-- A rule that comes later takes back one of the two files that were left out before, also if the
engine was asked about it; a path that leads outside is refused. -/
example :
    let e := ofHistory true [.add (.list [some "*.log"]), .ignores "a.log" false,
      .ignores "../a.log" false, .add (.list [some "!a.log"])]
    (e.ignores "a.log" false).1.toOption = some false ∧
      (e.ignores "b.log" false).1.toOption = some true ∧
      (e.ignores "../a.log" false).1.toOption = none := by
  decide +kernel

end Engine

end SourceSnapshot.Ignore
