import SourceSnapshot.Text.Quoted

/-!
# Faults of file system calls

The errors a file system call can end in, with their numbers and texts. A fault of a call names the
path as it was passed; a path with a NUL in it is refused before any call is made. While a text is
written, a fault leaves its beginning behind.
-/

namespace SourceSnapshot.FileSystem

/-- The cause of a failed call. -/
inductive Errno where
  | notPermitted
  | noEntry
  | inputOutput
  | accessDenied
  | exists
  | notDirectory
  | isDirectory
  | tooManyOpen
  | noSpace
  | nameTooLong
  | tooManyLinks
  deriving DecidableEq

/-- The number of a cause. -/
def Errno.number : Errno → Nat
  | .notPermitted => 1
  | .noEntry => 2
  | .inputOutput => 5
  | .accessDenied => 13
  | .exists => 17
  | .notDirectory => 20
  | .isDirectory => 21
  | .tooManyOpen => 24
  | .noSpace => 28
  | .nameTooLong => 36
  | .tooManyLinks => 40

/-- The text of a cause. -/
def Errno.text : Errno → String
  | .notPermitted => "Operation not permitted"
  | .noEntry => "No such file or directory"
  | .inputOutput => "Input/output error"
  | .accessDenied => "Permission denied"
  | .exists => "File exists"
  | .notDirectory => "Not a directory"
  | .isDirectory => "Is a directory"
  | .tooManyOpen => "Too many open files"
  | .noSpace => "No space left on device"
  | .nameTooLong => "File name too long"
  | .tooManyLinks => "Too many levels of symbolic links"

/-- Whether the cause is a lack of rights. -/
def Errno.isPermission : Errno → Bool
  | .notPermitted => true
  | .accessDenied => true
  | _ => false

/-- A failed call: its cause and the path as it was passed. -/
structure CallFault where
  errno : Errno
  path : String
  deriving DecidableEq

/-- What is reported of a cause. -/
def Errno.message (e : Errno) : String := "[Errno " ++ toString e.number ++ "] " ++ e.text

/-- What is reported of a failed call. -/
def CallFault.message (f : CallFault) : String := f.errno.message ++ ": " ++ Text.quoted f.path

/-- The cause why nothing can be told of an entry. That nothing is there is no such cause: it tells
that the entry is of no kind. -/
structure EntryFault where
  errno : Errno
  isThere : errno ≠ .noEntry := by decide
  deriving DecidableEq

/-- Why access by a path failed. -/
inductive AccessFault where
  | call (fault : CallFault)
  | nulInPath
  deriving DecidableEq

/-- What is reported of a failed access. -/
def AccessFault.message : AccessFault → String
  | .call fault => fault.message
  | .nulInPath => "embedded null byte"

/-- The cause of a broken write: a failed call, or a text that has no bytes in the encoding. -/
inductive WriteFault.Cause where
  | call (errno : Errno)
  | unencodable (reason : String)
  deriving DecidableEq

/-- What breaks off the writing of a text into a file that was opened. So many bytes stay in the
file. -/
structure WriteFault where
  cause : WriteFault.Cause
  kept : Nat
  deriving DecidableEq

/-- What is reported of a broken write. -/
def WriteFault.message (f : WriteFault) : String :=
  match f.cause with
  | .call errno => errno.message
  | .unencodable reason => reason

end SourceSnapshot.FileSystem
