import SourceSnapshot.Proofs.Scan.Encounters
import SourceSnapshot.Proofs.Traversal.Questions

/-!
# The questions of a scan

A scan asks its engine about the entries that it comes by, up to the first one that stops it, and
about nothing else.
-/

namespace SourceSnapshot.Scan

open FileSystem (Entry IsName childPath)
open Ignore (Engine Exclusion Question Rule)
open Traversal (Asks AsksOnly Encounter askedFromAbove_root asksOnly_of_encounters encountersAmong
  encountersOf questionsOf upTo)

/-- Whether an entry stops a scan that comes by it. -/
def stopsAt (s : ScanSettings) (directory : String) (c : Encounter) : Bool :=
  (outcomeAt s directory c).stop?.isSome

/-- What a scan asks an engine with these rules, from the entries of the root. -/
def questions (s : ScanSettings) (rules : List Rule) (directory : String) (entries : List Entry) :
    List Question :=
  questionsOf s.includeDotFiles
    (upTo (stopsAt s directory) (encountersAmong s.includeDotFiles (some rules) [] entries))

/-- A single visit, behind the question about its entry. -/
theorem asks_walk {s : ScanSettings} {directory : String} {e next : Engine} {c : Encounter}
    (hnext : next = e.askAll (questionsOf s.includeDotFiles [c])) {v : Visit}
    (houtcome : v.outcome = outcomeAt s directory c) :
    Asks s.includeDotFiles (stopsAt s directory) e (v.walk (some next)) [c] := by
  refine ⟨?_, ?_⟩
  · rw [Traversal.upTo_singleton, ← hnext]
    rfl
  · rw [List.any_cons, List.any_nil, Bool.or_false, stopsAt, ← houtcome]
    rfl

theorem outcomeAt_of_some {s : ScanSettings} {directory : String} {c : Encounter}
    {exclusion : Exclusion} (h : c.exclusion? = some exclusion) :
    outcomeAt s directory c = .excluded exclusion := by
  rw [outcomeAt, h]

/-- A scan asks about an entry that nothing is below; `houtcome` says what becomes of the entry if
it is kept. -/
theorem visitLeaf_asks {s : ScanSettings} {directory : String} {e : Engine} (he : e.Consistent)
    {above : List String} {entry : Entry} (h : ∀ n ∈ above ++ [entry.name], IsName n)
    (hdir : entry.isKnownDirectory = false) {outcome : String → Outcome} {c : Encounter}
    (hc : c = .ofEntry s.includeDotFiles (some e.rules) above entry)
    (houtcome : outcome (c.callPath directory) =
      outcomeAt s directory { c with exclusion? := none }) :
    Asks s.includeDotFiles (stopsAt s directory) e
      (visitLeaf s ("/".intercalate above) (above.foldl childPath directory) entry.name outcome
        (some e)) [c] := by
  have hpath := FileSystem.intercalate_append_singleton (List.forall_mem_append.mp h).1 entry.name
  have hcall : c.callPath directory = childPath (above.foldl childPath directory) entry.name :=
    hc ▸ callPath_ofEntry _ _ above entry directory
  rw [visitLeaf, ← hpath, ← hcall]
  refine Traversal.decideEntry_asking (motive := (Asks _ _ e · [c])) he entry h hdir hc ?_ ?_
  · intro exclusion hexclusion
    exact asks_walk rfl (outcomeAt_of_some hexclusion).symm
  · intro hkept
    rw [← hkept] at houtcome
    exact asks_walk rfl houtcome

mutual

/-- A scan asks about the entries that it comes by at and below an entry. -/
theorem visit_asks (s : ScanSettings) (directory : String) {e : Engine} (he : e.Consistent)
    {above : List String} (h : ∀ n ∈ above, IsName n) (entry : Entry)
    (hentry : entry.isWellNamed = true) :
    Asks s.includeDotFiles (stopsAt s directory) e
      (visit s ("/".intercalate above) (above.foldl childPath directory) (some e) entry)
      (encountersOf s.includeDotFiles (some e.rules) above entry) := by
  have hnames := Entry.forall_isName_append h hentry
  match entry with
  | .file name obscure data =>
    rw [visit, encountersOf]
    exact visitLeaf_asks he hnames rfl rfl rfl
  | .link name obscure target =>
    rw [visit, encountersOf]
    exact visitLeaf_asks he hnames rfl rfl rfl
  | .pipe name obscure =>
    rw [visit, encountersOf]
    exact visitLeaf_asks he hnames rfl rfl rfl
  | .unknown name fault =>
    rw [visit, encountersOf]
    exact visitLeaf_asks he hnames rfl rfl rfl
  | .directory name true listFault entries =>
    rw [visit, encountersOf]
    exact visitLeaf_asks he hnames rfl rfl rfl
  | .directory name false listFault entries =>
    have hcall := callPath_ofEntry s.includeDotFiles (some e.rules) above
      (.directory name false listFault entries) directory
    simp only [Entry.name] at hnames hcall
    simp only [visit, ← FileSystem.intercalate_append_singleton h name, ← hcall]
    refine Traversal.decideEntry_asking (motive := (Asks _ _ e · _)) he
      (.directory name false listFault entries) hnames rfl rfl ?_ ?_
    · intro exclusion hexclusion
      rw [Traversal.encountersOf_excluded hexclusion]
      exact asks_walk rfl (outcomeAt_of_some hexclusion).symm
    · intro hkept
      cases listFault with
      | some errno =>
        rw [Traversal.encountersOf_unlistable]
        exact asks_walk rfl (by rw [outcomeAt, hkept]; rfl)
      | none =>
        simp only [Entry.isWellNamed, Bool.and_eq_true] at hentry
        rw [Traversal.encountersOf_entered hkept]
        refine (asks_walk rfl (by rw [outcomeAt, hkept]; rfl)).andThen he fun e' he' hrules => ?_
        have hbelow := visitAll_asks s directory he' hnames entries hentry.2
        rw [hrules] at hbelow
        exact hbelow
termination_by structural entry

/-- A scan asks about the entries that it comes by among several entries and below them. -/
theorem visitAll_asks (s : ScanSettings) (directory : String) {e : Engine} (he : e.Consistent)
    {above : List String} (h : ∀ n ∈ above, IsName n) (entries : List Entry)
    (hentries : Entry.areWellNamed entries = true) :
    Asks s.includeDotFiles (stopsAt s directory) e
      (visitAll s ("/".intercalate above) (above.foldl childPath directory) (some e) entries)
      (encountersAmong s.includeDotFiles (some e.rules) above entries) := by
  match entries with
  | [] => exact ⟨rfl, rfl⟩
  | entry :: rest =>
    simp only [Entry.areWellNamed, Bool.and_eq_true] at hentries
    rw [visitAll, encountersAmong]
    exact (visit_asks s directory he h entry hentries.1).andThen he fun e' he' hrules =>
      hrules ▸ visitAll_asks s directory he' h rest hentries.2
termination_by structural entries

end

/-- A scan of a root that can be listed asks its questions, each behind those about the directories
above, and nothing else. -/
theorem run_asksOnly (s : ScanSettings) {e : Engine} (he : e.Consistent) {fs : FileSystem}
    (hfs : fs.IsWellNamed) {directory : String} {entries : List Entry}
    (hlist : fs.list directory = .ok entries) :
    AsksOnly e (run s fs (some e) directory).engine? (questions s e.rules directory entries) := by
  have hentries := FileSystem.areWellNamed_of_list hfs hlist
  have hwalk := visitAll_asks s directory he (List.forall_mem_nil _) entries hentries
  rw [String.intercalate_nil] at hwalk
  have hbegins : upTo (stopsAt s directory)
      (encountersAmong s.includeDotFiles (some e.rules) [] entries) <+: _ := List.take_prefix _ _
  refine asksOnly_of_encounters hentries hbegins.subset ?_ ?_
  · rw [run, Traversal.run_engine?_of_list hlist]
    exact hwalk.engine
  · exact (askedFromAbove_root entries).of_beginning (hbegins.filterMap _)

end SourceSnapshot.Scan
