import SourceSnapshot.FileSystem.Lookup
import SourceSnapshot.Settings

/-!
# The content of a file

A file is taken for binary if a NUL byte stands near its start, unless a test of another kind is
given. The text of a file is refused if it is binary and binary files are not wanted; otherwise the
whole file is read in the encoding of the settings, line breaks as they are.
-/

namespace SourceSnapshot.Scan

open FileSystem (AccessFault FileData)
open Text.Encoding (ReadFault)

/-- The number of bytes that are looked at to tell whether a file is binary. -/
def sniffSize : Nat := 4096

/-- Whether a NUL stands among the first bytes. -/
def looksBinary (data : FileData) (sampleSize : Nat) : Bool :=
  (data.bytes.extract 0 sampleSize).data.contains 0

/-- Why there is no content. The kind of a failed access is left open. -/
inductive ContentFault (ε : Type) where
  | binary
  | access (fault : ε)
  | read (fault : ReadFault)

/-- The whole text of a file whose opening may have failed. -/
def readText {ε : Type} (s : ScanSettings) (opened : Except ε FileData) :
    Except (ContentFault ε) String :=
  match opened with
  | .error fault => .error (.access fault)
  | .ok data => (s.encoding.read data.toList).mapError .read

/-- Whether a file counts as binary; to look into it, it is opened. -/
def isBinary {ε : Type} (s : ScanSettings) (path : String) (opened : Except ε FileData) :
    Except ε Bool :=
  match s.binaryTest with
  | some test => .ok (test path)
  | none => opened.map (looksBinary · sniffSize)

/-- The content of a file whose opening may have failed. -/
def contentOf {ε : Type} (s : ScanSettings) (path : String) (opened : Except ε FileData) :
    Except (ContentFault ε) String :=
  if s.includeBinaryFiles then readText s opened
  else
    match isBinary s path opened with
    | .error fault => .error (.access fault)
    | .ok true => .error .binary
    | .ok false => readText s opened

/-- The content of the file that a path leads to. -/
def openFile (s : ScanSettings) (fs : FileSystem) (path : String) :
    Except (ContentFault AccessFault) String :=
  contentOf s path (fs.openFile path)

/-- What is reported of a binary file whose text was asked for. -/
def binaryMessage (path : String) : String := "Binary file detected: " ++ path

/-- Whether the file that a path leads to is binary by its first bytes, or by all of them. -/
def isBinaryFile (fs : FileSystem) (path : String) (sampleSize? : Option Nat) :
    Except AccessFault Bool :=
  (fs.openFile path).map fun data => looksBinary data (sampleSize?.getD data.size)

end SourceSnapshot.Scan
