import Mathlib.Data.List.Induction
import SourceSnapshot.FileSystem.Write
import SourceSnapshot.Proofs.Scan.Agreement
import SourceSnapshot.Proofs.Tree.Agreement
import SourceSnapshot.Snapshot.Session

/-!
# Histories of a session

A session may be made ready again and again, be given rules, and take snapshots, scans and trees,
while the file system changes in between. The rules in force follow from what was handed over, and
every answer is the one that a new session with these rules gives on the file system as it is.
-/

namespace SourceSnapshot.Snapshot

open FileSystem.Entry (Hiding SameListing)
open Ignore (Engine Exclusion Lines Recalls Rule)
open Traversal (Run)

/-- What may happen to a session or around it. -/
inductive Event where
  | prepare (directory? : Option String)
  | add (given : Lines)
  | take (directory : String) (repository : Repository.Info) (moment : Moment)
  | scan (directory : String)
  | tree (directory : String)
  /-- The file system is written to, or something is removed from it. -/
  | change (f : FileSystem → FileSystem)

/-- What is answered to an event. -/
inductive Reply where
  | prepared (result : Except SessionFault (List String))
  | taken (result : Except SessionFault Report)
  | scanned (result : Except SessionFault Scan.Result) (patterns : List String)
  | grown (result : Except SessionFault Tree.Node)
  | nothing

/-- A file system and the session that looks at it. -/
structure Scene where
  fs : FileSystem
  session : Session

namespace Scene

/-- Lets an event happen. -/
def perform (c : Scene) : Event → Reply × Scene
  | .prepare directory? =>
    let a := c.session.prepare c.fs directory?
    (.prepared a.result, { c with session := a.session })
  | .add given => (.nothing, { c with session := c.session.add given })
  | .take directory repository moment =>
    let a := c.session.take c.fs directory repository moment
    (.taken a.result, { c with session := a.session })
  | .scan directory =>
    let a := c.session.scan c.fs directory
    (.scanned a.result a.session.patterns, { c with session := a.session })
  | .tree directory =>
    let a := c.session.tree c.fs directory
    (.grown a.result, { c with session := a.session })
  | .change f => (.nothing, { c with fs := f c.fs })

/-- The scene after a history of events, from a session that is not ready. -/
def ofHistory (settings : SnapshotSettings) (fs : FileSystem) (history : List Event) : Scene :=
  history.foldl (fun c event => (c.perform event).2) ⟨fs, .ofSettings settings⟩

/-- The rules in force, if the session is ready. -/
def rules? (c : Scene) : Option (List Rule) := c.session.engine?.map Engine.rules

/-- The scene of a new session that has just been given the rules in force. -/
def fromScratch (settings : SnapshotSettings) (fs : FileSystem) (rules? : Option (List Rule)) :
    Scene :=
  ⟨fs, settings, rules?.map (.ofRules settings.ignoreCase)⟩

theorem ofHistory_append_singleton (settings : SnapshotSettings) (fs : FileSystem)
    (history : List Event) (event : Event) :
    ofHistory settings fs (history ++ [event]) =
      ((ofHistory settings fs history).perform event).2 := by
  simp only [ofHistory, List.foldl_append, List.foldl_cons, List.foldl_nil]

end Scene

/-- The rules that a session is made ready with: the accepted patterns of the settings, and behind
them the accepted lines of the ignore file as it is. -/
def preparedRules (settings : SnapshotSettings) (fs : FileSystem) (directory? : Option String) :
    Except Ignore.FileFault (List Rule) :=
  (Ignore.readLines fs (Engine.filePath fs directory? settings.ignoreFile).text).map fun lines? =>
    Engine.accepted settings.ignoreCase (settings.ignorePatterns.map some) ++
      Engine.accepted settings.ignoreCase (Ignore.fileItems (.ok lines?))

/-- The rules that are in force after an event. -/
def Event.rulesAfter? (settings : SnapshotSettings) (c : Scene) : Event → Option (List Rule)
  | .prepare directory? => (preparedRules settings c.fs directory?).toOption.or c.rules?
  | .add given => c.rules?.map (· ++ Engine.accepted settings.ignoreCase given.toItems)
  | _ => c.rules?

/-- The session has these settings and, once it is ready, these rules; it remembers nothing
wrong. -/
structure Session.Stands (settings : SnapshotSettings) (rules? : Option (List Rule))
    (s : Session) : Prop where
  configured : s.settings = settings
  recalls : Recalls s.engine? (rules?.map (.ofRules settings.ignoreCase))

section

variable {settings : SnapshotSettings} {rules? : Option (List Rule)}

/-- The rules of the engine are those that the session stands for. -/
theorem Session.Stands.rules_eq {s : Session} (h : s.Stands settings rules?) :
    s.engine?.map Engine.rules = rules? := by
  have hforget := congrArg (Option.map Engine.rules) h.recalls.forgotten
  rw [Option.map_map, Option.map_map] at hforget
  have hplain : Engine.rules ∘ Engine.ofRules settings.ignoreCase = id := rfl
  rwa [hplain, Option.map_id, id] at hforget

theorem Session.Stands.patterns_eq {s : Session} (h : s.Stands settings rules?) :
    s.patterns = (rules?.map fun rules => rules.map Rule.source).getD [] := by
  have hpatterns : Engine.patterns = (fun rules => rules.map Rule.source) ∘ Engine.rules := rfl
  rw [Session.patterns, hpatterns, ← Option.map_map, h.rules_eq]

/-- A session that has just been given rules stands for them. -/
theorem stands_fromScratch (settings : SnapshotSettings) (fs : FileSystem)
    (rules? : Option (List Rule)) :
    (Scene.fromScratch settings fs rules?).session.Stands settings rules? := by
  refine ⟨rfl, ?_⟩
  cases rules? with
  | none => exact ⟨rfl, fun e he => by cases he⟩
  | some rules => exact (Engine.consistent_ofRules settings.ignoreCase rules).recalls

/-- Two answers have the same result, and leave sessions behind that stand for the same rules. -/
structure Answer.Agree {α : Type} (settings : SnapshotSettings) (rules? : Option (List Rule))
    (a b : Answer α) : Prop where
  result : a.result = b.result
  left : a.session.Stands settings rules?
  right : b.session.Stands settings rules?

/-- Answers that agree and go on with answers that agree, agree. -/
theorem Answer.Agree.andThen {α β : Type} {a b : Answer α} (h : a.Agree settings rules? b)
    {next next' : Session → α → Answer β}
    (hnext : ∀ s s' value, s.Stands settings rules? → s'.Stands settings rules? →
      (next s value).Agree settings rules? (next' s' value)) :
    (Session.andThen a next).Agree settings rules? (Session.andThen b next') := by
  rw [Session.andThen, Session.andThen, h.result]
  cases b.result with
  | error fault => exact ⟨rfl, h.left, h.right⟩
  | ok value =>
    have hlast := hnext a.session b.session value h.left h.right
    exact ⟨hlast.result, hlast.left, hlast.right⟩

/-- Sessions that stand for the same rules answer alike by traversals that agree. -/
theorem traverse_agree {α : Type} {s s' : Session} (h : s.Stands settings rules?)
    (h' : s'.Stands settings rules?) {run : Option Engine → Run α}
    (hrun : ∀ e? e?', Recalls e? (rules?.map (.ofRules settings.ignoreCase)) →
      Recalls e?' (rules?.map (.ofRules settings.ignoreCase)) →
      (run e?).Agree (rules?.map (.ofRules settings.ignoreCase)) (run e?')) :
    (s.traverse run).Agree settings rules? (s'.traverse run) := by
  have hready := h.rules_eq
  have hready' := h'.rules_eq
  rw [Session.traverse, Session.traverse]
  cases he : s.engine? with
  | none =>
    rw [he] at hready
    cases he' : s'.engine? with
    | none => exact ⟨rfl, h, h'⟩
    | some e' =>
      rw [he', ← hready] at hready'
      cases hready'
  | some e =>
    rw [he] at hready
    cases he' : s'.engine? with
    | none =>
      rw [he', ← hready] at hready'
      cases hready'
    | some e' =>
      have hagree := hrun (some e) (some e') (he ▸ h.recalls) (he' ▸ h'.recalls)
      simp only [hagree.result]
      exact ⟨rfl, ⟨h.configured, hagree.left⟩, ⟨h'.configured, hagree.right⟩⟩

/-- Sessions that stand for the same rules scan alike. -/
theorem scan_agree {s s' : Session} (h : s.Stands settings rules?)
    (h' : s'.Stands settings rules?) (fs : FileSystem) (directory : String) :
    (s.scan fs directory).Agree settings rules? (s'.scan fs directory) := by
  rw [Session.scan, Session.scan, h.configured, h'.configured]
  exact traverse_agree h h' fun e? e?' he he' =>
    Scan.run_agree_of_recalls settings.scan fs directory he he'

/-- Sessions that stand for the same rules build the same tree. -/
theorem tree_agree {s s' : Session} (h : s.Stands settings rules?)
    (h' : s'.Stands settings rules?) (fs : FileSystem) (directory : String) :
    (s.tree fs directory).Agree settings rules? (s'.tree fs directory) := by
  rw [Session.tree, Session.tree, h.configured, h'.configured]
  exact traverse_agree h h' fun e? e?' he he' =>
    Tree.build_agree_of_recalls settings.tree fs directory he he'

/-- Sessions that stand for the same rules take the same snapshot. -/
theorem take_agree {s s' : Session} (h : s.Stands settings rules?)
    (h' : s'.Stands settings rules?) (fs : FileSystem) (directory : String)
    (repository : Repository.Info) (moment : Moment) :
    (s.take fs directory repository moment).Agree settings rules?
      (s'.take fs directory repository moment) := by
  rw [Session.take, Session.take]
  refine (scan_agree h h' fs directory).andThen fun s s' scanned h h' => ?_
  refine (tree_agree h h' fs directory).andThen fun s s' root h h' => ?_
  rw [h.patterns_eq, h'.patterns_eq]
  cases elapsedText moment.started moment.stopped with
  | error fault => exact ⟨rfl, h, h'⟩
  | ok text => exact ⟨rfl, h, h'⟩

end

/-- The engine that a session is made ready with has the rules of the settings and of the ignore
file, and remembers nothing. -/
theorem ofFile_fst (settings : SnapshotSettings) (fs : FileSystem) (directory? : Option String) :
    (Engine.ofFile fs settings.ignoreCase (settings.ignorePatterns.map some) directory?
        settings.ignoreFile).1 =
      (preparedRules settings fs directory?).map (.ofRules settings.ignoreCase) := by
  have hempty : Engine.empty settings.ignoreCase = .ofRules settings.ignoreCase [] := rfl
  rw [Engine.ofFile, preparedRules, hempty, Engine.addItems_ofRules, List.nil_append]
  simp only [Engine.loadFile_fst]
  cases Ignore.readLines fs (Engine.filePath fs directory? settings.ignoreFile).text with
  | error fault => rfl
  | ok lines? => exact congrArg Except.ok (Engine.addItems_ofRules _ _ _)

/-- Getting ready fails with the fault of the ignore file, and then the session is as it was. -/
theorem Session.prepare_of_error {s : Session} {fs : FileSystem} {directory? : Option String}
    {fault : Ignore.FileFault} (h : preparedRules s.settings fs directory? = .error fault) :
    (s.prepare fs directory?).result = .error (.ignoreFile fault) ∧
      (s.prepare fs directory?).session = s := by
  have hfirst := ofFile_fst s.settings fs directory?
  rw [h] at hfirst
  unfold Session.prepare
  generalize Engine.ofFile fs s.settings.ignoreCase _ directory? s.settings.ignoreFile = loaded
    at hfirst
  obtain ⟨loaded, log⟩ := loaded
  obtain rfl : loaded = .error fault := hfirst
  exact ⟨rfl, rfl⟩

/-- Otherwise the lines of the rules are reported, and the rules are in force. -/
theorem Session.prepare_of_ok {s : Session} {fs : FileSystem} {directory? : Option String}
    {rules : List Rule} (h : preparedRules s.settings fs directory? = .ok rules) :
    (s.prepare fs directory?).result = .ok (rules.map Rule.source) ∧
      (s.prepare fs directory?).session =
        ⟨s.settings, some (.ofRules s.settings.ignoreCase rules)⟩ := by
  have hfirst := ofFile_fst s.settings fs directory?
  rw [h] at hfirst
  unfold Session.prepare
  generalize Engine.ofFile fs s.settings.ignoreCase _ directory? s.settings.ignoreFile = loaded
    at hfirst
  obtain ⟨loaded, log⟩ := loaded
  obtain rfl : loaded = .ok (.ofRules s.settings.ignoreCase rules) := hfirst
  exact ⟨rfl, rfl⟩

/-- Getting ready replaces the rules, unless it fails. -/
theorem Session.Stands.prepare {settings : SnapshotSettings} {rules? : Option (List Rule)}
    {s : Session} (h : s.Stands settings rules?) (fs : FileSystem) (directory? : Option String) :
    (s.prepare fs directory?).session.Stands settings
      ((preparedRules settings fs directory?).toOption.or rules?) := by
  obtain rfl := h.configured
  cases hrules : preparedRules s.settings fs directory? with
  | error fault =>
    rw [(Session.prepare_of_error hrules).2]
    exact h
  | ok rules =>
    rw [(Session.prepare_of_ok hrules).2]
    exact stands_fromScratch s.settings fs (some rules)

/-- Handing over items appends the accepted rules among them. -/
theorem Session.Stands.add {settings : SnapshotSettings} {rules? : Option (List Rule)}
    {s : Session} (h : s.Stands settings rules?) (given : Lines) :
    (s.add given).Stands settings
      (rules?.map (· ++ Engine.accepted settings.ignoreCase given.toItems)) := by
  refine ⟨h.configured, ?_⟩
  rw [Session.add]
  cases he : s.engine? with
  | none =>
    obtain rfl : none = rules? := by rw [← h.rules_eq, he]; rfl
    exact ⟨rfl, fun e he => by cases he⟩
  | some e =>
    obtain rfl : some e.rules = rules? := by rw [← h.rules_eq, he]; rfl
    have hforget : e.ignoreCase = settings.ignoreCase := by
      have hforgotten := h.recalls.forgotten
      rw [he] at hforgotten
      exact congrArg Engine.ignoreCase (Option.some.inj hforgotten)
    obtain ⟨hrules, hcase, hconsistent⟩ :=
      (h.recalls.consistent e he).addItems given.toItems
    refine ⟨?_, fun e' he' => Option.mem_some.mp he' ▸ hconsistent⟩
    have hall : (e.add given).forget = .ofRules settings.ignoreCase
        (e.rules ++ Engine.accepted settings.ignoreCase given.toItems) := by
      rw [Engine.forget, Engine.add, hrules, hcase, hforget]
    exact congrArg some hall

/-- A session that stands for rules stands, after any event, for those that the event leaves in
force. -/
theorem Session.Stands.perform {settings : SnapshotSettings} {c : Scene}
    (h : c.session.Stands settings c.rules?) (event : Event) :
    (c.perform event).2.session.Stands settings (event.rulesAfter? settings c) := by
  cases event with
  | prepare directory? =>
    simp only [Scene.perform, Event.rulesAfter?]
    exact h.prepare c.fs directory?
  | add given => exact h.add given
  | take directory repository moment => exact (take_agree h h c.fs directory repository moment).left
  | scan directory => exact (scan_agree h h c.fs directory).left
  | tree directory => exact (tree_agree h h c.fs directory).left
  | change f => exact h

/-- Sessions that stand for the same rules reply alike to any event. -/
theorem reply_congr {settings : SnapshotSettings} {rules? : Option (List Rule)} {s s' : Session}
    (h : s.Stands settings rules?) (h' : s'.Stands settings rules?) (fs : FileSystem)
    (event : Event) : (Scene.perform ⟨fs, s⟩ event).1 = (Scene.perform ⟨fs, s'⟩ event).1 := by
  cases event with
  | prepare directory? =>
    obtain rfl := h.configured
    have hsame := h'.configured
    simp only [Scene.perform]
    cases hrules : preparedRules s.settings fs directory? with
    | error fault =>
      rw [(Session.prepare_of_error hrules).1, (Session.prepare_of_error (hsame ▸ hrules)).1]
    | ok rules =>
      rw [(Session.prepare_of_ok hrules).1, (Session.prepare_of_ok (hsame ▸ hrules)).1]
  | add given => rfl
  | take directory repository moment =>
    exact congrArg Reply.taken (take_agree h h' fs directory repository moment).result
  | scan directory =>
    have hagree := scan_agree h h' fs directory
    exact congrArg₂ Reply.scanned hagree.result
      (hagree.left.patterns_eq.trans hagree.right.patterns_eq.symm)
  | tree directory => exact congrArg Reply.grown (tree_agree h h' fs directory).result
  | change f => rfl

/-- After any history the session stands for the rules in force. -/
theorem stands_ofHistory (settings : SnapshotSettings) (fs : FileSystem) (history : List Event) :
    (Scene.ofHistory settings fs history).session.Stands settings
      (Scene.ofHistory settings fs history).rules? := by
  induction history using List.reverseRecOn with
  | nil => exact stands_fromScratch settings fs none
  | append_singleton history event ih =>
    rw [Scene.ofHistory_append_singleton]
    have hstands := ih.perform event
    rwa [← hstands.rules_eq] at hstands

/-- An event leaves the rules in force that follow from it. -/
theorem rules?_perform_ofHistory (settings : SnapshotSettings) (fs : FileSystem)
    (history : List Event) (event : Event) :
    ((Scene.ofHistory settings fs history).perform event).2.rules? =
      event.rulesAfter? settings (Scene.ofHistory settings fs history) :=
  ((stands_ofHistory settings fs history).perform event).rules_eq

/-- After an event no rules are in force just if there were none before and the event did not make
the session ready. -/
theorem Event.rulesAfter?_eq_none_iff (settings : SnapshotSettings) (c : Scene) (event : Event) :
    event.rulesAfter? settings c = none ↔
      c.rules? = none ∧ ∀ directory?, event = .prepare directory? →
        ∃ fault, preparedRules settings c.fs directory? = .error fault := by
  cases event with
  | prepare directory? =>
    rw [rulesAfter?, Option.or_eq_none_iff, and_comm]
    cases hrules : preparedRules settings c.fs directory? with
    | error fault =>
      refine and_congr_right fun _ => ⟨fun _ directory?' heq => ?_, fun _ => rfl⟩
      obtain rfl := Event.prepare.inj heq
      exact ⟨fault, hrules⟩
    | ok rules =>
      refine and_congr_right fun _ => ⟨nofun, fun h => ?_⟩
      obtain ⟨fault, hfault⟩ := h directory? rfl
      rw [hrules] at hfault
      cases hfault
  | add given =>
    rw [rulesAfter?, Option.map_eq_none_iff]
    exact (and_iff_left fun _ heq => by cases heq).symm
  | take | scan | tree | change => exact (and_iff_left fun _ heq => by cases heq).symm

/-- No rules are in force just as long as the session has not been made ready. -/
theorem rules?_ofHistory_eq_none_iff (settings : SnapshotSettings) (fs : FileSystem)
    (history : List Event) :
    (Scene.ofHistory settings fs history).rules? = none ↔
      ∀ before directory? after, history = before ++ .prepare directory? :: after →
        ∃ fault, preparedRules settings (Scene.ofHistory settings fs before).fs directory? =
          .error fault := by
  induction history using List.reverseRecOn with
  | nil => exact iff_of_true rfl fun before _ _ heq => by cases before <;> cases heq
  | append_singleton history event ih =>
    rw [Scene.ofHistory_append_singleton, rules?_perform_ofHistory,
      Event.rulesAfter?_eq_none_iff, ih]
    constructor
    · -- The session is made ready by the last event or by one before it.
      rintro ⟨hearlier, hlast⟩ before directory? after heq
      cases after using List.reverseRecOn with
      | nil =>
        obtain ⟨rfl, hevent⟩ := List.append_inj' heq rfl
        exact hlast directory? (List.singleton_inj.mp hevent)
      | append_singleton after last =>
        rw [← List.cons_append, ← List.append_assoc] at heq
        exact hearlier before directory? after (List.append_inj' heq rfl).1
    · intro h
      refine ⟨fun before directory? after heq => ?_, fun directory? heq => ?_⟩
      · refine h before directory? (after ++ [event]) ?_
        rw [heq, List.append_assoc, List.cons_append]
      · exact h history directory? [] (heq ▸ rfl)

/-- A session without rules in force refuses every snapshot, scan and tree, and stays as it is. -/
theorem perform_of_rules?_eq_none {c : Scene} (h : c.rules? = none) (directory : String)
    (repository : Repository.Info) (moment : Moment) :
    c.perform (.take directory repository moment) = (.taken (.error .notReady), c) ∧
      c.perform (.scan directory) = (.scanned (.error .notReady) [], c) ∧
      c.perform (.tree directory) = (.grown (.error .notReady), c) := by
  obtain ⟨fs, settings, engine?⟩ := c
  obtain rfl : engine? = none := Option.map_eq_none_iff.mp h
  exact ⟨rfl, rfl, rfl⟩

/-- After any history of a session, while the file system was changed at will: no rules are in force
just as long as the session has not been made ready, and until then snapshots, scans and trees are
refused; getting ready replaces the rules by those of the settings and behind them those of the
ignore file as it is; if that fails, everything is as it was; rules that are added come behind those
in force, and nothing else changes them; and any reply is that of a new session which has just been
given the rules in force, on the file system as it is. -/
theorem reply_ofHistory_eq_fromScratch (settings : SnapshotSettings) (fs : FileSystem)
    (history : List Event) (event : Event) :
    let c := Scene.ofHistory settings fs history
    (c.rules? = none ↔
        ∀ before directory? after, history = before ++ .prepare directory? :: after →
          ∃ fault, preparedRules settings (Scene.ofHistory settings fs before).fs directory? =
            .error fault) ∧
      (c.rules? = none → ∀ directory repository moment,
        c.perform (.take directory repository moment) = (.taken (.error .notReady), c) ∧
          c.perform (.scan directory) = (.scanned (.error .notReady) [], c) ∧
          c.perform (.tree directory) = (.grown (.error .notReady), c)) ∧
      (∀ directory? rules, preparedRules settings c.fs directory? = .ok rules →
        (c.perform (.prepare directory?)).1 = .prepared (.ok (rules.map Rule.source)) ∧
          (c.perform (.prepare directory?)).2.rules? = some rules) ∧
      (∀ directory? fault, preparedRules settings c.fs directory? = .error fault →
        c.perform (.prepare directory?) = (.prepared (.error (.ignoreFile fault)), c)) ∧
      (c.perform event).2.rules? = event.rulesAfter? settings c ∧
      (c.perform event).1 = ((Scene.fromScratch settings c.fs c.rules?).perform event).1 := by
  intro c
  have hstands := stands_ofHistory settings fs history
  have hconfigured : c.session.settings = settings := hstands.configured
  have hafter := rules?_perform_ofHistory settings fs history
  refine ⟨rules?_ofHistory_eq_none_iff settings fs history, ?_, ?_, ?_, hafter event, ?_⟩
  · exact fun hnone directory repository moment =>
      perform_of_rules?_eq_none hnone directory repository moment
  · intro directory? rules hrules
    constructor
    · simp only [Scene.perform]
      rw [(Session.prepare_of_ok (hconfigured.symm ▸ hrules)).1]
    · rw [hafter, Event.rulesAfter?, hrules, Except.toOption, Option.some_or]
  · intro directory? fault hfault
    obtain ⟨hresult, hsession⟩ := Session.prepare_of_error (hconfigured.symm ▸ hfault)
    simp only [Scene.perform, hresult, hsession]
  · exact reply_congr hstands (stands_fromScratch settings c.fs c.rules?) c.fs event

/-- A session is made ready, scans, and is given a rule; then a file is removed and another one
appears. The next scan takes the file that the rule does not leave out and that is there. -/
example :
    let text : String → FileSystem.Entry := fun name => .file name false ⟨⟨#[104, 105]⟩, none, none⟩
    let fs : FileSystem :=
      .ofWorkingDirectory ["work"] [.directory "p" false none [text "a.txt", text "b.txt"]]
    let c := Scene.ofHistory .default fs [.scan "p", .prepare none, .scan "p",
      .add (.list [some "c.txt"]), .change (·.remove "p/a.txt"),
      .change (·.putInto "p" (text "c.txt"))]
    (c.session.scan c.fs "p").result.toOption = some ⟨[⟨"b.txt", "hi"⟩], ⟨1, 1, 2, []⟩⟩ := by
  decide +kernel

end SourceSnapshot.Snapshot
