import SourceSnapshot.Proofs.FileSystem.Changes
import SourceSnapshot.Proofs.Traversal.Encounters

/-!
# Encounters and changes

If one entry is changed, a traversal comes by the same as before, apart from what it comes by at and
below that entry. Only the directories on the way to it hold something else.
-/

namespace SourceSnapshot.Traversal

open FileSystem (Entry IsName)
open Ignore (Exclusion Rule)

/-- An entry without what it holds if it is a directory. -/
def emptied : Entry → Entry
  | .directory name obscure listFault _ => .directory name obscure listFault []
  | entry => entry

/-- An encounter without what the entry holds if it is a directory. -/
def Encounter.emptied (c : Encounter) : Encounter :=
  { c with entry := Traversal.emptied c.entry }

/-- Whether it can be told of an entry that it is a directory is told from its outline. -/
theorem isKnownDirectory_outline (entry : Entry) :
    entry.outline.isKnownDirectory = entry.isKnownDirectory := by
  cases entry <;> simp [Entry.outline, Entry.isKnownDirectory]

section

variable {includeDotNames : Bool} {rules? : Option (List Rule)}

/-- The encounters with several entries are those with each of them. -/
theorem encountersAmong_eq_flatMap (above : List String) (entries : List Entry) :
    encountersAmong includeDotNames rules? above entries =
      entries.flatMap (encountersOf includeDotNames rules? above) := by
  induction entries with
  | nil => rw [encountersAmong, List.flatMap_nil]
  | cons entry rest ih => rw [encountersAmong, ih, List.flatMap_cons]

mutual

/-- An encounter with something at or below a well-named entry is that of a well-named entry, with
the names that lead to it. -/
theorem eq_ofEntry_of_mem_encountersOf {above : List String} {entry : Entry}
    (hentry : entry.isWellNamed = true) {c : Encounter}
    (hc : c ∈ encountersOf includeDotNames rules? above entry) :
    c = .ofEntry includeDotNames rules? c.names.dropLast c.entry ∧
      c.entry.isWellNamed = true := by
  have hself : Encounter.ofEntry includeDotNames rules? above entry =
      .ofEntry includeDotNames rules? (above ++ [entry.name]).dropLast entry := by
    rw [List.dropLast_concat]
  match entry with
  | .file name obscure data =>
    obtain rfl := List.mem_singleton.mp hc
    exact ⟨hself, hentry⟩
  | .link name obscure target =>
    obtain rfl := List.mem_singleton.mp hc
    exact ⟨hself, hentry⟩
  | .pipe name obscure =>
    obtain rfl := List.mem_singleton.mp hc
    exact ⟨hself, hentry⟩
  | .unknown name fault =>
    obtain rfl := List.mem_singleton.mp hc
    exact ⟨hself, hentry⟩
  | .directory name true listFault entries =>
    obtain rfl := List.mem_singleton.mp hc
    exact ⟨hself, hentry⟩
  | .directory name false listFault entries =>
    rw [encountersOf, List.mem_cons] at hc
    rcases hc with rfl | hc
    · exact ⟨hself, hentry⟩
    · rw [Entry.isWellNamed, Bool.and_eq_true] at hentry
      split at hc
      · exact eq_ofEntry_of_mem_encountersAmong hentry.2 hc
      · cases hc
termination_by structural entry

/-- An encounter with something at or below well-named entries is that of a well-named entry, with
the names that lead to it. -/
theorem eq_ofEntry_of_mem_encountersAmong {above : List String} {entries : List Entry}
    (hentries : Entry.areWellNamed entries = true) {c : Encounter}
    (hc : c ∈ encountersAmong includeDotNames rules? above entries) :
    c = .ofEntry includeDotNames rules? c.names.dropLast c.entry ∧
      c.entry.isWellNamed = true := by
  match entries with
  | [] => cases hc
  | entry :: rest =>
    rw [Entry.areWellNamed, Bool.and_eq_true] at hentries
    rw [encountersAmong, List.mem_append] at hc
    rcases hc with hc | hc
    · exact eq_ofEntry_of_mem_encountersOf hentries.1 hc
    · exact eq_ofEntry_of_mem_encountersAmong hentries.2 hc
termination_by structural entries

end

/-- An entry with the same outline would be met with the same names, and be left out or kept. -/
theorem Encounter.ofEntry_eq_of_outline {c : Encounter}
    (hc : c = .ofEntry includeDotNames rules? c.names.dropLast c.entry) {entry : Entry}
    (h : entry.outline = c.entry.outline) :
    ofEntry includeDotNames rules? c.names.dropLast entry = { c with entry := entry } := by
  have hname : entry.name = c.entry.name := by
    rw [← Entry.name_outline entry, h, Entry.name_outline]
  have hknown : entry.isKnownDirectory = c.entry.isKnownDirectory := by
    rw [← isKnownDirectory_outline entry, h, isKnownDirectory_outline]
  have hnames : c.names.dropLast ++ [c.entry.name] = c.names := congrArg names hc.symm
  have hexclusion : Exclusion.byRules? includeDotNames rules? c.names.dropLast c.entry.name
      c.entry.isKnownDirectory = c.exclusion? := congrArg exclusion? hc.symm
  rw [ofEntry, hname, hknown, hnames, hexclusion]

/-- What is met with an entry is its encounter, and then what is listed when it is entered. -/
theorem Encounter.encountersOf_entry {c : Encounter}
    (hc : c = .ofEntry includeDotNames rules? c.names.dropLast c.entry) :
    encountersOf includeDotNames rules? c.names.dropLast c.entry =
      c :: encountersAmong includeDotNames rules? c.names (c.listing?.getD []) := by
  have hnames : c.names.dropLast ++ [c.entry.name] = c.names := congrArg names hc.symm
  rw [encountersOf_eq_cons, ← hc, hnames]

/-- Two lists of encounters are the same but for what is met at and below one encounter, where an
entry was changed, and but for what is held by the directories on the way to it. -/
def DifferAt (includeDotNames : Bool) (rules? : Option (List Rule)) (change : Entry → Entry)
    (c : Encounter) (encounters changed : List Encounter) : Prop :=
  ∃ front front' back,
    encounters = front ++ encountersOf includeDotNames rules? c.names.dropLast c.entry ++ back ∧
    changed =
      front' ++ encountersOf includeDotNames rules? c.names.dropLast (change c.entry) ++ back ∧
    front'.map Encounter.emptied = front.map Encounter.emptied ∧
    ∀ e ∈ front ++ back, ¬c.names <+: e.names

/-- Lists that differ at an encounter still do if they get longer by what is neither at nor below
it. -/
theorem DifferAt.extend {change : Entry → Entry} {c : Encounter}
    {encounters changed before before' : List Encounter}
    (h : DifferAt includeDotNames rules? change c encounters changed)
    (hbefore : before'.map Encounter.emptied = before.map Encounter.emptied)
    {after : List Encounter} (hothers : ∀ e ∈ before ++ after, ¬c.names <+: e.names) :
    DifferAt includeDotNames rules? change c (before ++ encounters ++ after)
      (before' ++ changed ++ after) := by
  obtain ⟨front, front', back, rfl, rfl, hfront, hsame⟩ := h
  refine ⟨before ++ front, before' ++ front', back ++ after, ?_, ?_, ?_, ?_⟩
  · simp only [List.append_assoc]
  · simp only [List.append_assoc]
  · rw [List.map_append, List.map_append, hbefore, hfront]
  · intro e he
    simp only [List.mem_append] at he hothers hsame
    rcases he with (he | he) | he | he
    · exact hothers e (Or.inl he)
    · exact hsame e (Or.inl he)
    · exact hsame e (Or.inr he)
    · exact hothers e (Or.inr he)

/-- Lists that differ at an encounter still do behind a directory on the way to it. -/
theorem DifferAt.cons {change : Entry → Entry} {c first first' : Encounter}
    {encounters changed : List Encounter}
    (h : DifferAt includeDotNames rules? change c encounters changed)
    (hfirst : first'.emptied = first.emptied) (hother : ¬c.names <+: first.names) :
    DifferAt includeDotNames rules? change c (first :: encounters) (first' :: changed) := by
  have hfront : [first'].map Encounter.emptied = [first].map Encounter.emptied := by
    rw [List.map_singleton, List.map_singleton, hfirst]
  have hextended : DifferAt includeDotNames rules? change c ([first] ++ encounters ++ [])
      ([first'] ++ changed ++ []) := by
    refine h.extend hfront fun e he => ?_
    rw [List.append_nil, List.mem_singleton] at he
    exact he ▸ hother
  simpa only [List.singleton_append, List.append_nil] using hextended

section

variable (change : Entry → Entry) {above : List String}

/-- What is met among entries with other names than the first on the way is not below it. -/
theorem not_isPrefix_of_mem_encountersAmong (h : ∀ n ∈ above, IsName n) {entries : List Entry}
    (hentries : Entry.areWellNamed entries = true) {first : String}
    (hother : ∀ entry ∈ entries, entry.name ≠ first) {below : List String} {e : Encounter}
    (he : e ∈ encountersAmong includeDotNames rules? above entries) :
    ¬above ++ first :: below <+: e.names := by
  rw [encountersAmong_eq_flatMap, List.mem_flatMap] at he
  obtain ⟨entry, hentry, he⟩ := he
  obtain ⟨-, others, hnames, -⟩ :=
    mem_encountersOf h entry (Entry.areWellNamed_iff.mp hentries entry hentry) he
  rw [hnames, List.prefix_append_right_inj, List.cons_prefix_cons]
  rintro ⟨hfirst, -⟩
  exact hother entry hentry hfirst.symm

/-- If the entry of an encounter is changed, the encounters with what holds it differ there, as long
as those further below do. -/
theorem differAt_encountersOf (h : ∀ n ∈ above, IsName n) {entry : Entry}
    (hentry : entry.isWellNamed = true) (hdistinct : entry.isDistinct = true) {c : Encounter}
    (hc : c ∈ encountersOf includeDotNames rules? above entry) {below : List String}
    (hnames : c.names = above ++ entry.name :: below)
    (hbelow : ∀ entries, entry = .directory entry.name false none entries →
      c ∈ encountersAmong includeDotNames rules? (above ++ [entry.name]) entries →
        DifferAt includeDotNames rules? change c
          (encountersAmong includeDotNames rules? (above ++ [entry.name]) entries)
          (encountersAmong includeDotNames rules? (above ++ [entry.name])
            (Entry.changeAmong change entries below))) :
    DifferAt includeDotNames rules? change c (encountersOf includeDotNames rules? above entry)
      (encountersOf includeDotNames rules? above (Entry.changeBelow change below entry)) := by
  obtain ⟨-, below', hnames', hfound⟩ := mem_encountersOf h entry hentry hc
  rw [hnames] at hnames'
  obtain rfl : below = below' := (List.cons.inj (List.append_cancel_left hnames')).2
  have hfound := hfound hdistinct
  cases below with
  | nil =>
    -- The entry itself is changed.
    obtain rfl : entry = c.entry := Option.some.inj hfound
    have habove : c.names.dropLast = above := by rw [hnames, List.dropLast_concat]
    refine ⟨[], [], [], ?_, ?_, rfl, nofun⟩
    · rw [habove, List.nil_append, List.append_nil]
    · rw [habove, List.nil_append, List.append_nil, Entry.changeBelow]
  | cons second more =>
    have hself : c ≠ .ofEntry includeDotNames rules? above entry := by
      rintro rfl
      have hlength := congrArg List.length hnames
      simp [Encounter.ofEntry] at hlength
    rw [encountersOf_eq_cons, List.mem_cons] at hc
    have hinside := hc.resolve_left hself
    cases hlisting : (Encounter.ofEntry includeDotNames rules? above entry).listing? with
    | none =>
      rw [hlisting, Option.getD_none, encountersAmong] at hinside
      cases hinside
    | some entries =>
      obtain ⟨hkept, name, hentry⟩ := Encounter.listing?_eq_some_iff.mp hlisting
      obtain rfl : entry = .directory name false none entries := hentry
      rw [hlisting, Option.getD_some] at hinside
      rw [encountersOf_eq_cons, hlisting, Option.getD_some, Entry.changeBelow_directory,
        encountersOf, if_pos ⟨hkept, rfl⟩]
      refine (hbelow entries rfl hinside).cons rfl fun hprefix => ?_
      -- The directory has fewer names than what is changed below it.
      have hlength := hprefix.length_le
      rw [hnames] at hlength
      simp [Encounter.ofEntry] at hlength

/-- If the entry of an encounter is changed, the encounters differ there. -/
theorem differAt_encountersAmong (h : ∀ n ∈ above, IsName n) {entries : List Entry}
    (hentries : Entry.areWellNamed entries = true)
    (hdistinct : Entry.areDistinct entries = true) {c : Encounter}
    (hc : c ∈ encountersAmong includeDotNames rules? above entries) {below : List String}
    (hnames : c.names = above ++ below) :
    DifferAt includeDotNames rules? change c
      (encountersAmong includeDotNames rules? above entries)
      (encountersAmong includeDotNames rules? above
        (Entry.changeAmong change entries below)) := by
  induction below generalizing above entries with
  | nil =>
    obtain ⟨-, first, below, hmore, -⟩ := mem_encountersAmong h entries hentries hc
    have hlength := congrArg List.length (hnames.symm.trans hmore)
    simp at hlength
  | cons first below ih =>
    have hmem := hc
    rw [encountersAmong_eq_flatMap, List.mem_flatMap] at hmem
    obtain ⟨entry, hentry, hmet⟩ := hmem
    have hwell := Entry.areWellNamed_iff.mp hentries entry hentry
    have hself := (Entry.areDistinct_iff.mp hdistinct).2 entry hentry
    obtain ⟨-, below', hnames', -⟩ := mem_encountersOf h entry hwell hmet
    rw [hnames] at hnames'
    obtain ⟨rfl, -⟩ := List.cons.inj (List.append_cancel_left hnames')
    have hdiffer := differAt_encountersOf change h hwell hself hmet hnames
      fun inner hdirectory hinside => by
        rw [hdirectory, Entry.isWellNamed, Bool.and_eq_true] at hwell
        rw [hdirectory, Entry.isDistinct] at hself
        refine ih (Entry.forall_isName_append h
          (Entry.areWellNamed_iff.mp hentries entry hentry)) hwell.2 hself hinside ?_
        rw [hnames, List.append_assoc, List.singleton_append]
    obtain ⟨before, after, hsplit, hothers, hchanged⟩ :=
      Entry.exists_changeAmong_eq hdistinct hentry change below
    rw [hchanged]
    have hparts : ∀ (e : Entry), encountersAmong includeDotNames rules? above
        (before ++ e :: after) = encountersAmong includeDotNames rules? above before ++
          encountersOf includeDotNames rules? above e ++
            encountersAmong includeDotNames rules? above after := by
      intro e
      simp only [encountersAmong_eq_flatMap, List.flatMap_append, List.flatMap_cons,
        List.append_assoc]
    rw [hsplit, hparts, hparts]
    refine hdiffer.extend rfl fun e he => ?_
    rw [hnames]
    have hmembers := Entry.areWellNamed_iff.mp hentries
    rw [hsplit] at hmembers
    rcases List.mem_append.mp he with he | he
    · refine not_isPrefix_of_mem_encountersAmong h (Entry.areWellNamed_iff.mpr ?_) ?_ he
      · exact fun other hother => hmembers other (List.mem_append_left _ hother)
      · exact fun other hother => hothers other (List.mem_append_left _ hother)
    · refine not_isPrefix_of_mem_encountersAmong h (Entry.areWellNamed_iff.mpr ?_) ?_ he
      · exact fun other hother =>
          hmembers other (List.mem_append_right _ (List.mem_cons_of_mem _ hother))
      · exact fun other hother => hothers other (List.mem_append_right _ hother)

end

end

end SourceSnapshot.Traversal
