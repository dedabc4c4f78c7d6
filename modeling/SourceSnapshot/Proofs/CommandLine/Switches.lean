import SourceSnapshot.CommandLine.Options

/-!
# Switches in front

A switch that is given in front of the arguments, and not among them, changes what they ask for at
its own place only. Its value is the first to be checked; if it passes, the arguments are accepted
or refused as without it.
-/

namespace SourceSnapshot.CommandLine

open Snapshot (Format)

namespace Arguments

variable {a : Arguments} {given : Given}

/-- The arguments with a switch in front. -/
def give (a : Arguments) (given : Given) : Arguments :=
  { a with switches := given :: a.switches }

/-- The operands are as without the switch in front. -/
@[simp] theorem operands_give (a : Arguments) (given : Given) :
    (a.give given).operands = a.operands := rfl

theorem has_give (a : Arguments) (given : Given) (switch : Switch) :
    (a.give given).has switch = (decide (given.switch = switch) || a.has switch) := by
  rw [has, give, List.any_cons, has]

theorem value?_give_of_ne {switch : Switch} (h : given.switch ≠ switch) :
    (a.give given).value? switch = a.value? switch := by
  rw [value?, give, List.reverse_cons, List.find?_append, value?]
  simp [h]

/-- A switch that is given in front only has the value from there. -/
theorem value?_give_self (h : a.has given.switch = false) :
    (a.give given).value? given.switch = some given.value := by
  have hnone : a.switches.reverse.find? (fun other => other.switch = given.switch) = none := by
    rw [List.find?_eq_none]
    intro other hother
    exact List.any_eq_false.mp h other (List.mem_reverse.mp hother)
  rw [value?, give, List.reverse_cons, List.find?_append, hnone]
  simp

/-- A switch that is given in front only comes first. -/
theorem switchOrder_give (h : a.has given.switch = false) :
    switchOrder (a.give given).switches = given.switch :: switchOrder a.switches := by
  have hnew : ∀ switch ∈ a.switches.map Given.switch, (!switch == given.switch) = true := by
    intro switch hswitch
    obtain ⟨other, hother, rfl⟩ := List.mem_map.mp hswitch
    simpa using List.any_eq_false.mp h other hother
  rw [switchOrder, give, List.map_cons, List.eraseDups_cons, List.filter_eq_self.mpr hnew,
    switchOrder]

end Arguments

/-- Switches are checked alike by checks that agree on each of them. -/
theorem forM_congr {switches : List Switch} {f g : Switch → Except StartFault Unit}
    (h : ∀ switch ∈ switches, f switch = g switch) : switches.forM f = switches.forM g := by
  induction switches with
  | nil => rfl
  | cons switch rest ih =>
    obtain ⟨hswitch, hrest⟩ := List.forall_mem_cons.mp h
    change (f switch >>= fun _ => rest.forM f) = (g switch >>= fun _ => rest.forM g)
    rw [hswitch, ih hrest]

/-- With a switch in front that passes its check, the others are checked as without it. -/
theorem check_give {fs : FileSystem} {a : Arguments} {given : Given}
    (hnew : a.has given.switch = false) (hhelp : given.switch ≠ .help)
    (hvalue : checkValue fs given.switch given.value = .ok ()) :
    check fs (a.give given) = check fs a := by
  have hothers : ∀ switch ∈ switchOrder a.switches,
      checkValue fs switch (((a.give given).value? switch).getD "") =
        checkValue fs switch ((a.value? switch).getD "") := by
    intro switch hswitch
    obtain ⟨other, hother, rfl⟩ := List.mem_map.mp (List.mem_eraseDups.mp hswitch)
    rw [Arguments.value?_give_of_ne fun hsame => List.any_eq_false.mp hnew other hother (by
      rw [hsame, decide_eq_true rfl])]
  have hfirst : checkValue fs given.switch (((a.give given).value? given.switch).getD "") =
      .ok () := by
    rw [Arguments.value?_give_self hnew, Option.getD_some, hvalue]
  have hvalues : ((switchOrder (a.give given).switches).forM fun switch =>
        checkValue fs switch (((a.give given).value? switch).getD "")) =
      (switchOrder a.switches).forM fun switch =>
        checkValue fs switch ((a.value? switch).getD "") := by
    rw [Arguments.switchOrder_give hnew, ← forM_congr hothers]
    change (checkValue fs given.switch _ >>= fun _ => _) = _
    rw [hfirst]
    rfl
  unfold check
  rw [hvalues, Arguments.has_give, decide_eq_false hhelp, Bool.false_or]
  rfl

/-- The arguments ask neither for printing nor for a format. -/
def AsksForNoForm (arguments : List String) : Prop :=
  ∀ a, Arguments.read arguments = .ok a → a.has .print = false ∧ a.has .format = false

section

variable {fs : FileSystem} {environment : List (String × String)} {arguments : List String}

/-- Arguments with a switch in front, which passes its check, ask for what the switch changes. -/
theorem read_give (front : List String) {given : Given}
    (hread : Arguments.read (front ++ arguments) = (Arguments.read arguments).map (·.give given))
    (hnew : ∀ a, Arguments.read arguments = .ok a → a.has given.switch = false)
    (hhelp : given.switch ≠ .help) (hvalue : checkValue fs given.switch given.value = .ok ())
    {change : Options → Options}
    (hchange : ∀ a, Arguments.read arguments = .ok a →
      Options.ofArguments (a.give given) environment = change (.ofArguments a environment)) :
    Options.read fs environment (front ++ arguments) =
      (Options.read fs environment arguments).map change := by
  rw [Options.read, hread, Options.read]
  cases ha : Arguments.read arguments with
  | error fault => rfl
  | ok a =>
    simp only [Except.map, check_give (hnew a ha) hhelp hvalue, hchange a ha]
    cases check fs a <;> rfl

/-- In front of arguments that do not ask for printing, the switch for it asks for that only. -/
theorem read_print (h : AsksForNoForm arguments) :
    Options.read fs environment ("--print" :: arguments) =
      (Options.read fs environment arguments).map ({ · with printOnly := true }) := by
  have hread : Arguments.read ("--print" :: arguments) =
      (Arguments.read arguments).map (·.give ⟨.print, ""⟩) := by rfl
  refine read_give ["--print"] hread (fun a ha => (h a ha).1) (by decide) rfl ?_
  intro a ha
  simp [Options.ofArguments, Arguments.has_give, Arguments.value?_give_of_ne, fromEnvironment]

/-- In front of arguments that ask for no format, the switch for it asks for texts only. -/
theorem read_format (h : AsksForNoForm arguments) :
    Options.read fs environment ("--format" :: "text" :: arguments) =
      (Options.read fs environment arguments).map ({ · with format := .text }) := by
  have hread : Arguments.read ("--format" :: "text" :: arguments) =
      (Arguments.read arguments).map (·.give ⟨.format, "text"⟩) := by rfl
  refine read_give ["--format", "text"] hread (fun a ha => (h a ha).2) (by decide) rfl ?_
  intro a ha
  have hself : (a.give ⟨.format, "text"⟩).value? .format = some "text" :=
    Arguments.value?_give_self (h a ha).2
  simp [Options.ofArguments, Arguments.has_give, Arguments.value?_give_of_ne, fromEnvironment,
    hself, Format.ofName?]

/-- Without the switch for it, nothing asks for printing. -/
theorem printOnly_eq_false (h : AsksForNoForm arguments) {o : Options}
    (ho : Options.read fs environment arguments = .ok o) : o.printOnly = false := by
  rw [Options.read] at ho
  split at ho
  · cases ho
  case h_2 a ha =>
    split at ho
    · cases ho
    · rw [← Except.ok.inj ho, Options.ofArguments, (h a ha).1]

end

end SourceSnapshot.CommandLine
