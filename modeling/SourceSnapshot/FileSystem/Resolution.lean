import SourceSnapshot.FileSystem.Lookup

/-!
# Absolute forms of paths

The absolute form of a path has neither links nor `..` in it; what does not exist is kept. Links are
followed along a trail, the path of where one stands, while the components still to be followed are
kept as they were written. A link that is met again while it is being followed is not resolved: its
own path stands in for it, joined with all that was still to be followed. A rest that starts with a
slash takes the place of what stands before it, as in every join of two paths.
-/

namespace SourceSnapshot.FileSystem

/-- Two paths joined: the second one as seen from the first. -/
def joinText (directory path : String) : String :=
  if startsAtRoot path then path else childPath directory path

/-- Components as they were written behind each other. -/
def writtenSteps (steps : List String) : String := "/".intercalate steps

namespace Path

/-- The path one step further. -/
def child (p : Path) (name : String) : Path := ⟨p.root, p.components ++ [name]⟩

/-- The path one step up. A relative path without a name to take back leads up once more; the root
stays. -/
def up (p : Path) : Path :=
  match p.components.getLast? with
  | none => if p.isAbsolute then p else p.child ".."
  | some last => if last = ".." then p.child ".." else p.parent

end Path

/-- The links that were met, each with the path that it leads to; none while it is being
followed. -/
abbrev MetLinks := List (Path × Option Path)

/-- Where following a path ends: at a path without links, or with a text in which a link stands that
leads back to itself. -/
inductive Reached where
  | settled (path : Path)
  | looped (text : String)

/-- The text that was reached. -/
def Reached.text : Reached → String
  | .settled path => path.text
  | .looped text => text

/-- Why a path has no absolute form. -/
inductive ResolveFault where
  | nulInPath
  | linkLoop (path : String)

/-- What is reported of a path without an absolute form. -/
def ResolveFault.message : ResolveFault → String
  | .nulInPath => AccessFault.nulInPath.message
  | .linkLoop path => "Symlink loop from " ++ Text.quoted path

/-- The location of a trail in which there are no links. -/
def locationOf (fs : FileSystem) (trail : Path) : List String :=
  collapse [] ((if trail.isAbsolute then [] else fs.workingDirectory) ++ trail.components)

/-- The target of the link at a name at the end of a trail, if there is a link. -/
def linkAt? (fs : FileSystem) (trail : Path) (name : String) : Option String :=
  match fs.entryAt? (fs.locationOf trail) name with
  | some (.link _ _ target) => some target
  | _ => none

/-- Where a trail goes on that has met a link, from the directory that holds the link. -/
def trailStart (trail : Path) (target : String) : Path :=
  if startsAtRoot target then ⟨"/", []⟩ else trail

/-- Follows components along a trail. What is to be done at a link that was not met before is left
open: it is asked with the links that were met, this one among them, the trail and the target. -/
def followWith (fs : FileSystem)
    (atLink : MetLinks → Path → String → Except ResolveFault (Reached × MetLinks)) :
    MetLinks → Path → List String → Except ResolveFault (Reached × MetLinks)
  | met, trail, [] => .ok (.settled trail, met)
  | met, trail, step :: rest =>
    if isIdle step.toList then followWith fs atLink met trail rest
    else if step = ".." then followWith fs atLink met trail.up rest
    else if step.toList.contains '\x00' then .error .nulInPath
    else
      let here := trail.child step
      match fs.linkAt? trail step with
      | none => followWith fs atLink met here rest
      | some target =>
        match met.lookup here with
        | some (some path) => followWith fs atLink met path rest
        | some none => .ok (.looped (joinText here.text (writtenSteps rest)), met)
        | none =>
          match atLink ((here, none) :: met) trail target with
          | .error fault => .error fault
          | .ok (.settled path, met) => followWith fs atLink ((here, some path) :: met) path rest
          | .ok (.looped text, met) => .ok (.looped (joinText text (writtenSteps rest)), met)

/-- Follows components along a trail. The depth of links within links is bounded. -/
def follow (fs : FileSystem) :
    Nat → MetLinks → Path → List String → Except ResolveFault (Reached × MetLinks)
  | 0 => followWith fs fun met trail _ => .ok (.looped trail.text, met)
  | depth + 1 => followWith fs fun met trail target =>
    follow fs depth met (trailStart trail target) (steps target)

/-- The depth of links within links up to which a path is resolved. -/
def maxLinkDepth : Nat := 1000

/-- The absolute form of a path text, read off the text alone. -/
def absolute (fs : FileSystem) (path : String) : Path :=
  let full := Path.ofText (joinText (locationText fs.workingDirectory) path)
  ⟨full.root, collapse [] full.components⟩

/-- The absolute form of a path. The path that it leads to is looked up in the end, so that a link
that leads back to itself is found out if it is still there. -/
def resolve (fs : FileSystem) (path : String) : Except ResolveFault Path := do
  let text := (Path.ofText path).text
  let (reached, _) ← fs.follow maxLinkDepth [] (trailStart ⟨"", []⟩ text) (steps text)
  let path := fs.absolute reached.text
  match fs.find .visit path.text with
  | .error .nulInPath => throw .nulInPath
  | .error (.call ⟨.tooManyLinks, _⟩) => throw (.linkLoop path.text)
  | _ => return path

/-- The name of the directory that a path leads to, read off the path alone; the path itself if that
is the root. -/
def rootName (fs : FileSystem) (path : String) : String :=
  (fs.absolute path).components.getLast?.getD path

end SourceSnapshot.FileSystem
