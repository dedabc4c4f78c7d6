import SourceSnapshot.Proofs.Ignore.SingleRule
import SourceSnapshot.Proofs.Pattern.Literals

/-!
# Taking a directory back in

The line that takes a directory back in by its path speaks about all that is below the directory as
well, and as the last rule that matches there it decides. So whatever the rules before it leave out
below a directory that is not left out itself is taken back in.
-/

namespace SourceSnapshot

open Pattern (Expression IsLiteral textFrom)

namespace Ignore

open FileSystem (IsName)

/-- The line that takes a directory back in by its path. -/
def reinclusion (names : List String) : String := "!/" ++ "/".intercalate names ++ "/"

section

variable {names : List String}

/-- The line is an exclamation mark, a slash and the key of the directory. -/
theorem toList_reinclusion (hne : names ≠ []) :
    (reinclusion names).toList = '!' :: '/' :: textFrom (names.map String.toList) true := by
  have hkey := Key.ofNames_chars hne true
  rw [Key.ofNames, if_pos rfl] at hkey
  rw [reinclusion, String.toList_append, String.toList_append, ← hkey]
  rfl

/-- The names of a path are literal components if their characters are ordinary. -/
theorem isLiteral_of_isName (h : ∀ n ∈ names, IsName n)
    (hordinary : ∀ n ∈ names, ∀ c ∈ n.toList, Pattern.IsOrdinary c) :
    ∀ component ∈ names.map String.toList, IsLiteral component := by
  intro component hcomponent
  obtain ⟨n, hn, rfl⟩ := List.mem_map.mp hcomponent
  exact ⟨fun hempty => (h n hn).1 (String.toList_eq_nil_iff.mp hempty), (h n hn).2.1,
    hordinary n hn⟩

/-- The line starts with no byte order mark. -/
theorem dropWhile_reinclusion (hne : names ≠ []) :
    (reinclusion names).toList.dropWhile (· == Rule.byteOrderMark) =
      '!' :: '/' :: textFrom (names.map String.toList) true := by
  have hmark : (reinclusion names).toList.head? ≠ some Rule.byteOrderMark := by
    rw [toList_reinclusion hne, List.head?_cons]
    decide
  rw [dropWhile_byteOrderMark hmark, toList_reinclusion hne]

/-- The pattern of the line is the path of the directory with a slash in front. -/
theorem bodyOf_reinclusion (hne : names ≠ []) :
    bodyOf (reinclusion names) = '/' :: textFrom (names.map String.toList) true := by
  have hne' : names.map String.toList ≠ [] := by simpa using hne
  rw [bodyOf, dropWhile_reinclusion hne, Rule.body, Pattern.splitNegation,
    Pattern.textFrom_true hne', ← List.cons_append]
  exact Pattern.withoutTrailingBlanks_append_slash _

/-- The line is a negative rule, which matches the key of the directory and of all that is below. -/
theorem ofLine_reinclusion (ignoreCase : Bool)
    (h : ∀ component ∈ names.map String.toList, IsLiteral component) (hne : names ≠ []) :
    ∃ r, Rule.ofLine ignoreCase (reinclusion names) = .ok r ∧ r.source = reinclusion names ∧
      r.negative = true ∧
      ∀ more, r.matchesText (textFrom (names.map String.toList) true ++ more) = true := by
  have hne' : names.map String.toList ≠ [] := by simpa using hne
  have hbody := bodyOf_reinclusion hne
  have hdrop := dropWhile_reinclusion hne
  have hslashes := Pattern.all_slash_textFrom h hne'
  have hread := Pattern.readSegments_textFrom h hne'
  obtain ⟨hdirectory, hcontents⟩ := Pattern.endsWith_textFrom hne'
  rw [← hbody] at hslashes hread hdirectory hcontents
  have hhash : ((reinclusion names).toList.dropWhile (· == Rule.byteOrderMark)).head? ≠
      some '#' := by
    rw [hdrop, List.head?_cons]
    decide
  have hexpression := Expression.ofLine?_of_readSegments hhash hslashes hread
  rw [← bodyOf, hdirectory] at hexpression
  refine ⟨_, Rule.ofLine_eq_ok_iff.mpr ⟨hslashes, _, hexpression,
    Pattern.reversedRange?_directorySegments true, rfl⟩, rfl, ?_, fun more => ?_⟩
  · rw [hdrop, Pattern.splitNegation]
  · refine Rule.matchesText_of_isFound (fun hkeeps => ?_)
      (Pattern.isFound_textFrom_append h hne' more)
    rw [hcontents] at hkeeps
    cases hkeeps

/-- The beginnings of a path that are longer than the path of a directory on it lie below the
directory. -/
theorem Key.exists_ofBeginning_append (hne : names ≠ []) {below : List String} {i : Nat}
    (hi : names.length < i) (hi' : i ≤ (names ++ below).length) (isDir : Bool) :
    ∃ more, (ofBeginning (names ++ below) isDir i).chars = (ofNames names true).chars ++ more := by
  have hbelow : below.take (i - names.length) ≠ [] := by
    rw [Ne, List.take_eq_nil_iff]
    rintro (hzero | rfl)
    · omega
    · rw [List.append_nil] at hi'
      omega
  have htake : (names ++ below).take i = names ++ below.take (i - names.length) := by
    rw [List.take_append, List.take_of_length_le (Nat.le_of_lt hi)]
  rw [ofBeginning, htake, ofNames_append hne hbelow]
  exact ⟨_, rfl⟩

/-- A negative rule that matches all below a directory takes all of it back in, if the rules before
it do not leave out the directory. -/
theorem isIgnored_append_negative {rules : List Rule} {r : Rule} (hnegative : r.negative = true)
    (hmatch : ∀ more, r.matchesText ((Key.ofNames names true).chars ++ more) = true)
    {below : List String} (h : ∀ n ∈ names ++ below, IsName n) (hne : names ≠ [])
    (hdir : isIgnored rules (Key.ofNames names true) = false) (hbelow : below ≠ [])
    (isDir : Bool) : isIgnored (rules ++ [r]) (Key.ofNames (names ++ below) isDir) = false := by
  have hnames : ∀ n ∈ names, IsName n := fun n hn => h n (List.mem_append_left _ hn)
  rw [Bool.eq_false_iff]
  intro hout
  obtain ⟨i, hpos, hi, hi'⟩ :=
    (isIgnored_ofNames h (List.append_ne_nil_of_left_ne_nil hne _) isDir).mp hout
  rw [leavesOut_append_singleton, hnegative] at hi'
  rcases Nat.lt_or_ge names.length i with hlt | hle
  · obtain ⟨more, hchars⟩ := Key.exists_ofBeginning_append hne hlt hi isDir
    rw [hchars, if_pos (hmatch more)] at hi'
    cases hi'
  · -- Up to the directory, what is left out is left out by the rules before.
    rw [Key.ofBeginning_append hle hbelow] at hi'
    split at hi'
    · cases hi'
    · rw [(isIgnored_ofNames hnames hne true).mpr ⟨i, hpos, hle, hi'⟩] at hdir
      cases hdir

end

namespace Engine

variable {names : List String}

/-- An engine that does not leave out a directory, and is given the line that takes it back in,
leaves out nothing below it. So the answer changes for all that the rules left out there before. -/
theorem ignores_below_reinclusion {e : Engine} (he : e.Reachable) (hnames : ∀ n ∈ names, IsName n)
    (hne : names ≠ []) (hordinary : ∀ n ∈ names, ∀ c ∈ n.toList, Pattern.IsOrdinary c)
    (hdir : (e.ignores ("/".intercalate names) true).1 = .ok false) :
    (e.add (.list [some (reinclusion names)])).patterns = e.patterns ++ [reinclusion names] ∧
      ∀ below, (∀ n ∈ below, IsName n) → below ≠ [] → ∀ isDir,
        ((e.add (.list [some (reinclusion names)])).ignores
          ("/".intercalate (names ++ below)) isDir).1 = .ok false := by
  have hliteral := isLiteral_of_isName hnames hordinary
  obtain ⟨r, hr, hsource, hnegative, hmatch⟩ := ofLine_reinclusion e.ignoreCase hliteral hne
  have haccepted : accepted e.ignoreCase [some (reinclusion names)] = [r] := by
    simp [accepted, Rule.ofItem, hr, Except.toOption]
  obtain ⟨hrules, -, hconsistent⟩ := he.consistent.addItems [some (reinclusion names)]
  rw [haccepted] at hrules
  rw [← Key.ofNames_chars hne true] at hmatch
  rw [he.consistent.ignores_intercalate hnames hne] at hdir
  refine ⟨?_, fun below hbelow hne' isDir => ?_⟩
  · have hpatterns : (e.addItems [some (reinclusion names)]).patterns =
        e.patterns ++ [reinclusion names] := by
      rw [patterns, hrules, List.map_append, List.map_singleton, hsource]
      rfl
    exact hpatterns
  · have hall : ∀ n ∈ names ++ below, IsName n := List.forall_mem_append.mpr ⟨hnames, hbelow⟩
    have hanswer := hconsistent.ignores_intercalate hall
      (List.append_ne_nil_of_left_ne_nil hne below) isDir
    rw [hrules, isIgnored_append_negative hnegative hmatch hall hne (Except.ok.inj hdir) hne']
      at hanswer
    exact hanswer

/-- The rule `*.o` leaves out the object files in `src/lib`, and the line `!/src/lib/` takes them
back in. -/
theorem ignores_below_src_lib :
    let e := ofHistory true [.add (.list [some "*.o"])]
    (e.ignores ("/".intercalate ["src", "lib"]) true).1 = .ok false ∧
      (e.ignores ("/".intercalate (["src", "lib"] ++ ["main.o"])) false).1 = .ok true ∧
      ((e.add (.list [some (reinclusion ["src", "lib"])])).ignores
        ("/".intercalate (["src", "lib"] ++ ["main.o"])) false).1 = .ok false := by
  intro e
  have he : e.Reachable := ⟨_, _, rfl⟩
  have hdir : (e.ignores ("/".intercalate ["src", "lib"]) true).1 = .ok false := by decide +kernel
  have hordinary : ∀ n ∈ ["src", "lib"], ∀ c ∈ n.toList, Pattern.IsOrdinary c := by
    simp [Pattern.IsOrdinary]
  have hbelow := (ignores_below_reinclusion he (by decide) (by decide) hordinary hdir).2
  exact ⟨hdir, by decide +kernel, hbelow ["main.o"] (by decide) (by decide) false⟩

/-- The rule `*.log` does not leave out the directory `d` but a file in it, and with the line `!/d/`
behind it not even that. -/
theorem ignores_changes_below_reinclusion :
    let e := (empty true).add (.list [some "*.log"])
    let e' := e.add (.list [some "!/d/"])
    e.patterns = ["*.log"] ∧ e'.patterns = ["*.log", "!/d/"] ∧
      (e.ignores "d" true).1 = .ok false ∧ (e.ignores "d/x.log" false).1 = .ok true ∧
      (e'.ignores "d/x.log" false).1 = .ok false := by
  decide +kernel

end Engine

end Ignore

end SourceSnapshot
