import SourceSnapshot.Log
import SourceSnapshot.Repository.Remote
import SourceSnapshot.Validation.Field

/-!
# Repository information

The repository, branch and commit that a snapshot names. What is given explicitly is taken; the rest
is read off the repository around the directory, or is `local` where there is none.
-/

namespace SourceSnapshot.Repository

open Validation (Checked Reader)

/-- The word for what is not known. -/
def unknown : String := "local"

/-- Repository, branch and commit. -/
structure Info where
  repository : String
  branch : String
  commit : String
  deriving DecidableEq

/-- What is found around a directory. A branch is missing if none is checked out, a commit if there
is none yet. -/
structure Checkout where
  address? : Option String
  workTree? : Option String
  gitDirectory : String
  branch? : Option String
  commit? : Option String
  deriving DecidableEq

/-- What is given explicitly; an empty text counts as not given. -/
structure Explicit where
  repository? : Option String
  branch? : Option String
  commit? : Option String
  deriving DecidableEq

/-- A text that is given and not empty. -/
def given (text? : Option String) : Option String := text?.filter (· != "")

namespace Info

/-- The information where there is no repository. -/
def none : Info := ⟨unknown, unknown, unknown⟩

/-- Reads the information. -/
def read : Reader Info :=
  Validation.record "RepositoryInfo" fun members =>
    Info.mk
      <$> Validation.defaulting members "repository" unknown Validation.text
      <*> Validation.defaulting members "branch" unknown Validation.text
      <*> Validation.defaulting members "commit" unknown Validation.text

/-- The information as data. -/
def toJson (i : Info) : Json :=
  .object [("repository", .string i.repository), ("branch", .string i.branch),
    ("commit", .string i.commit)]

end Info

/-- The name of a repository: owner and name from the address of its remote, or else the name of the
directory of its files. -/
def Checkout.name (c : Checkout) : String :=
  match (given c.address?).bind fun address => ofAddress? address.toList with
  | some found => String.ofList found
  | none => baseName ((given c.workTree?).getD c.gitDirectory)

/-- What is read off the repository around a directory. -/
def Checkout.info (c : Checkout) : Info :=
  ⟨c.name, c.branch?.getD "HEAD", c.commit?.getD unknown⟩

/-- The information about a directory, read off the repository around it. -/
def detect (path : String) : Option Checkout → Info × List Log.Record
  | some checkout => (checkout.info, [])
  | none => (.none, [⟨.debug, .repository, path ++ " is not inside a git repository"⟩])

/-- The information about a directory; what is given explicitly goes before what is found. -/
def resolve (path : String) (checkout? : Option Checkout) (e : Explicit) : Info × List Log.Record :=
  match given e.repository?, given e.branch?, given e.commit? with
  | some repository, some branch, some commit => (⟨repository, branch, commit⟩, [])
  | repository?, branch?, commit? =>
    let (found, log) := detect path checkout?
    (⟨repository?.getD found.repository, branch?.getD found.branch, commit?.getD found.commit⟩, log)

end SourceSnapshot.Repository
