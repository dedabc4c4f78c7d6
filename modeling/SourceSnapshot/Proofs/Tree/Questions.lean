import SourceSnapshot.Proofs.Traversal.Questions
import SourceSnapshot.Proofs.Tree.Encounters

/-!
# The questions of a tree

While a tree is built, the engine is asked about the entries of those directories that the tree
shows, also about entries that the tree does not show, up to the first one that stops the building,
and about nothing else.
-/

namespace SourceSnapshot.Tree

open FileSystem (CallFault Entry IsName)
open Ignore (AskedFromAbove Engine Exclusion Question Rule)
open Traversal (Asks AsksOnly Encounter Walk askedFromAbove_root asksOnly_of_encounters
  encountersAmong encountersOf questionsOf upTo)

/-- Whether a tree comes by an entry that a traversal comes by: it shows the directory that holds
the entry. -/
def comesBy (t : TreeSettings) (c : Encounter) : Bool := reaches t (c.names.length - 1)

/-- Whether an entry stops the building of a tree that comes by it: it is to be shown and nothing
can be told of it. -/
def stops (t : TreeSettings) (c : Encounter) : Bool := shows t c && c.entry.isUnknown

/-- What an engine with these rules is asked for a tree, from the entries of the root. -/
def questions (t : TreeSettings) (rules : List Rule) (entries : List Entry) : List Question :=
  questionsOf t.includeDotFiles (upTo (stops t)
    ((encountersAmong t.includeDotFiles (some rules) [] entries).filter (comesBy t)))

/-- A tree comes by an entry if it shows the directory that the names above lead to. -/
theorem comesBy_ofEntry (t : TreeSettings) (rules? : Option (List Rule)) (above : List String)
    (entry : Entry) :
    comesBy t (.ofEntry t.includeDotFiles rules? above entry) = reaches t above.length := by
  rw [comesBy, Encounter.ofEntry, List.length_append, List.length_singleton, Nat.add_sub_cancel]

/-- A tree comes by nothing below a directory that it does not show. -/
theorem filter_comesBy_eq_nil (t : TreeSettings) (rules? : Option (List Rule))
    {above : List String} (h : ∀ n ∈ above, IsName n) {entries : List Entry}
    (hentries : Entry.areWellNamed entries = true) (hdepth : reaches t above.length = false) :
    (encountersAmong t.includeDotFiles rules? above entries).filter (comesBy t) = [] := by
  rw [List.filter_eq_nil_iff]
  intro c hc hcomes
  obtain ⟨-, first, below, hnames, -⟩ := Traversal.mem_encountersAmong h entries hentries hc
  have hlength : above.length ≤ c.names.length - 1 := by
    rw [hnames, List.length_append, List.length_cons]
    omega
  rw [reaches_of_le hcomes hlength] at hdepth
  cases hdepth

theorem stops_of_excluded (t : TreeSettings) {c : Encounter} {exclusion : Exclusion}
    (h : c.exclusion? = some exclusion) : stops t c = false := by
  rw [stops, shows, h]
  rfl

/-- A walk that ends behind the question about one entry. -/
theorem asks_of_engine? {t : TreeSettings} {e : Engine} {c : Encounter} {walk : Walk Node}
    (hengine : walk.engine? = some (e.askAll (questionsOf t.includeDotFiles [c])))
    (hstop : walk.stop?.isSome = stops t c) : Asks t.includeDotFiles (stops t) e walk [c] := by
  refine ⟨?_, ?_⟩
  · rw [Traversal.upTo_singleton]
    exact hengine
  · rw [hstop, List.any_cons, List.any_nil, Bool.or_false]

theorem asks_branchOf {t : TreeSettings} {e : Engine} {below : Walk Node} {met : List Encounter}
    (h : Asks t.includeDotFiles (stops t) e below met) (label : Label) :
    Asks t.includeDotFiles (stops t) e (branchOf label below) met := ⟨h.engine, h.stopped⟩

/-- A tree asks about an entry that nothing is below. It stops there if it wants the node of the
entry and the kind of the node cannot be told. -/
theorem growLeaf_asks {t : TreeSettings} {e : Engine} (he : e.Consistent) {above : List String}
    {entry : Entry} (h : ∀ n ∈ above ++ [entry.name], IsName n)
    (hdir : entry.isKnownDirectory = false) (hdepth : reaches t above.length = true)
    {told : Except CallFault Kind} (htold : told.isOk = !entry.isUnknown) :
    Asks t.includeDotFiles (stops t) e
      (growLeaf t ("/".intercalate above) entry.name told (some e))
      ([Encounter.ofEntry t.includeDotFiles (some e.rules) above entry].filter (comesBy t)) := by
  have hpath := FileSystem.intercalate_append_singleton (List.forall_mem_append.mp h).1 entry.name
  rw [List.filter_cons_of_pos ((comesBy_ofEntry t _ above entry).trans hdepth), List.filter_nil,
    growLeaf, ← hpath]
  refine Traversal.decideEntry_asking (motive := (Asks _ _ e · _)) he entry h hdir rfl ?_ ?_
  · intro exclusion hexclusion
    exact asks_of_engine? rfl (stops_of_excluded t hexclusion).symm
  · intro hkept
    have hstops : stops t (.ofEntry t.includeDotFiles (some e.rules) above entry) =
        (t.includeFiles && !told.isOk) := by
      have hbyRules : Exclusion.byRules? t.includeDotFiles (some e.rules) above entry.name
          entry.isKnownDirectory = none := hkept
      rw [stops, shows_ofEntry, hbyRules, hdir, if_neg Bool.false_ne_true, hdepth, htold,
        Bool.not_not]
      rfl
    cases hfiles : t.includeFiles with
    | false =>
      rw [hfiles] at hstops
      exact asks_of_engine? rfl hstops.symm
    | true =>
      rw [hfiles] at hstops
      cases told with
      | ok kind => exact asks_of_engine? rfl hstops.symm
      | error fault => exact asks_of_engine? rfl hstops.symm

mutual

/-- A tree asks about the entries that it comes by at and below an entry. -/
theorem grow_asks (t : TreeSettings) (callAbove : String) {e : Engine} (he : e.Consistent)
    {above : List String} (h : ∀ n ∈ above, IsName n) (hdepth : reaches t above.length = true)
    (entry : Entry) (hentry : entry.isWellNamed = true) :
    Asks t.includeDotFiles (stops t) e
      (grow t ("/".intercalate above) callAbove (above.length + 1) (some e) entry)
      ((encountersOf t.includeDotFiles (some e.rules) above entry).filter (comesBy t)) := by
  have hnames := Entry.forall_isName_append h hentry
  match entry with
  | .file name obscure data =>
    rw [grow, encountersOf]
    exact growLeaf_asks he hnames rfl hdepth rfl
  | .link name obscure target =>
    rw [grow, encountersOf]
    exact growLeaf_asks he hnames rfl hdepth rfl
  | .pipe name obscure =>
    rw [grow, encountersOf]
    exact growLeaf_asks he hnames rfl hdepth rfl
  | .unknown name fault =>
    rw [grow, encountersOf]
    exact growLeaf_asks he hnames rfl hdepth rfl
  | .directory name true listFault entries =>
    rw [grow, encountersOf]
    exact growLeaf_asks he hnames rfl hdepth rfl
  | .directory name false listFault entries =>
    have hcomes := (comesBy_ofEntry t (some e.rules) above
      (.directory name false listFault entries)).trans hdepth
    have hgoesOn : stops t (.ofEntry t.includeDotFiles (some e.rules) above
        (.directory name false listFault entries)) = false := Bool.and_false _
    simp only [Entry.isWellNamed, Bool.and_eq_true] at hentry
    simp only [Entry.name] at hnames
    simp only [grow, ← FileSystem.intercalate_append_singleton h name]
    refine Traversal.decideEntry_asking (motive := (Asks _ _ e · _)) he
      (.directory name false listFault entries) hnames rfl rfl ?_ ?_
    · intro exclusion hexclusion
      rw [Traversal.encountersOf_excluded hexclusion,
        List.filter_cons_of_pos hcomes, List.filter_nil]
      exact asks_of_engine? rfl hgoesOn.symm
    · intro hkept
      have hreaches : reaches t (above ++ [name]).length =
          (!t.maxDepth.any (· < above.length + 1) && t.includeDirectories) := by
        rw [reaches, List.length_append, List.length_singleton]
        rfl
      cases listFault with
      | some errno =>
        rw [Traversal.encountersOf_unlistable, List.filter_cons_of_pos hcomes, List.filter_nil]
        split_ifs
        · exact asks_of_engine? rfl hgoesOn.symm
        · exact asks_of_engine? rfl hgoesOn.symm
        · exact asks_of_engine? rfl hgoesOn.symm
      | none =>
        rw [Traversal.encountersOf_entered hkept, List.filter_append,
          List.filter_cons_of_pos hcomes, List.filter_nil]
        -- If the directory is too deep, or no directories are shown, the tree ends here, and of
        -- what a traversal comes by below it nothing is left by the filter.
        cases hdeep : t.maxDepth.any (· < above.length + 1) with
        | true =>
          rw [hdeep] at hreaches
          rw [filter_comesBy_eq_nil t _ hnames hentry.2 hreaches, List.append_nil]
          exact asks_of_engine? rfl hgoesOn.symm
        | false =>
          cases hdirectories : t.includeDirectories with
          | false =>
            rw [hdeep, hdirectories] at hreaches
            rw [filter_comesBy_eq_nil t _ hnames hentry.2 hreaches, List.append_nil]
            exact asks_of_engine? rfl hgoesOn.symm
          | true =>
            rw [hdeep, hdirectories] at hreaches
            have hconsistent := he.askAll (questionsOf t.includeDotFiles
              [.ofEntry t.includeDotFiles (some e.rules) above
                (.directory name false none entries)])
            have hbelow := growAll_asks t (FileSystem.childPath callAbove name) hconsistent.1 hnames
              hreaches entries hentry.2
            rw [hconsistent.2, List.length_append, List.length_singleton] at hbelow
            exact asks_branchOf (hbelow.behind (by rw [List.any_cons, hgoesOn]; rfl)) _
termination_by structural entry

/-- A tree asks about the entries that it comes by among several entries and below them. -/
theorem growAll_asks (t : TreeSettings) (callAbove : String) {e : Engine} (he : e.Consistent)
    {above : List String} (h : ∀ n ∈ above, IsName n) (hdepth : reaches t above.length = true)
    (entries : List Entry) (hentries : Entry.areWellNamed entries = true) :
    Asks t.includeDotFiles (stops t) e
      (growAll t ("/".intercalate above) callAbove (above.length + 1) (some e) entries)
      ((encountersAmong t.includeDotFiles (some e.rules) above entries).filter (comesBy t)) := by
  match entries with
  | [] => exact ⟨rfl, rfl⟩
  | entry :: rest =>
    simp only [Entry.areWellNamed, Bool.and_eq_true] at hentries
    rw [growAll, encountersAmong, List.filter_append]
    exact (grow_asks t callAbove he h hdepth entry hentries.1).andThen he fun e' he' hrules =>
      hrules ▸ growAll_asks t callAbove he' h hdepth rest hentries.2
termination_by structural entries

end

/-- A tree asks about what it comes by: of all questions, those about paths that are not too
deep. -/
theorem questionsOf_filter_comesBy (t : TreeSettings) (met : List Encounter) :
    questionsOf t.includeDotFiles (met.filter (comesBy t)) =
      (questionsOf t.includeDotFiles met).filter fun q => reaches t (q.names.length - 1) := by
  rw [questionsOf, questionsOf, List.filterMap_filter, List.filter_filterMap]
  refine List.filterMap_congr fun c _ => ?_
  rw [Encounter.question?, comesBy]
  cases Exclusion.ofName? t.includeDotFiles c.entry.name with
  | some exclusion => exact ite_self _
  | none => rw [Option.filter_some]

/-- A tree of a root that can be listed asks its questions, each behind those about the directories
above, and nothing else. -/
theorem build_asksOnly (t : TreeSettings) {e : Engine} (he : e.Consistent) {fs : FileSystem}
    (hfs : fs.IsWellNamed) {directory : String} {entries : List Entry}
    (hlist : fs.list directory = .ok entries) :
    AsksOnly e (build t fs (some e) directory).engine? (questions t e.rules entries) := by
  have hentries := FileSystem.areWellNamed_of_list hfs hlist
  have hwalk := growAll_asks t directory he (List.forall_mem_nil _) rfl entries hentries
  rw [String.intercalate_nil] at hwalk
  have hbegins : upTo (stops t)
      ((encountersAmong t.includeDotFiles (some e.rules) [] entries).filter (comesBy t)) <+: _ :=
    List.take_prefix _ _
  have habove : AskedFromAbove [] (questionsOf t.includeDotFiles
      ((encountersAmong t.includeDotFiles (some e.rules) [] entries).filter (comesBy t))) := by
    rw [questionsOf_filter_comesBy]
    refine (askedFromAbove_root entries).filter fun q i hshown hlt => reaches_of_le hshown ?_
    rw [Question.above, List.length_take]
    omega
  refine asksOnly_of_encounters hentries
    (List.Subset.trans hbegins.subset (List.filter_subset_self _)) ?_
    (habove.of_beginning (hbegins.filterMap _))
  rw [build, Traversal.run_engine?_of_list hlist]
  exact hwalk.engine

end SourceSnapshot.Tree
