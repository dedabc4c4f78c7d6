import SourceSnapshot.FileSystem.Entry
import SourceSnapshot.Json.Parse

/-!
# Descriptions of directories

What a directory holds, written down as data: an object for each entry, with its name under the key
that tells its kind. The content of a file is a run of one byte followed by a text or by bytes in
hexadecimal digits. A fault is written by its customary name.
-/

namespace SourceSnapshot.FileSystem

/-- The cause of this name. -/
def Errno.ofName? : String → Option Errno
  | "EPERM" => some .notPermitted
  | "ENOENT" => some .noEntry
  | "EIO" => some .inputOutput
  | "EACCES" => some .accessDenied
  | "EEXIST" => some .exists
  | "ENOTDIR" => some .notDirectory
  | "EISDIR" => some .isDirectory
  | "ENAMETOOLONG" => some .nameTooLong
  | "EMFILE" => some .tooManyOpen
  | "ENOSPC" => some .noSpace
  | "ELOOP" => some .tooManyLinks
  | _ => none

namespace Entry

/-- The text under a key. -/
def textAt? (members : List (String × Json)) (key : String) : Option String :=
  match Json.member? key members with
  | some (.string s) => some s
  | _ => none

/-- The fault that is named under a key. -/
def faultAt? (members : List (String × Json)) (key : String) : Option Errno :=
  (textAt? members key).bind Errno.ofName?

/-- The bytes written by pairs of hexadecimal digits. -/
def hexBytes : List Char → List UInt8
  | a :: b :: rest =>
    match Json.hexDigit? a, Json.hexDigit? b with
    | some high, some low => UInt8.ofNat (16 * high + low) :: hexBytes rest
    | _, _ => []
  | _ => []

/-- The run of one byte in front of a content. -/
def fillBytes (members : List (String × Json)) : ByteArray :=
  match Json.member? "fill" members with
  | some (.object fill) =>
    match Json.member? "byte" fill, Json.member? "count" fill with
    | some (.int byte), some (.int count) =>
      Nat.fold count.toNat (fun _ _ bytes => bytes.push (UInt8.ofNat byte.toNat)) .empty
    | _, _ => .empty
  | _ => .empty

/-- The content of a file. -/
def contentBytes (members : List (String × Json)) : ByteArray :=
  let behind :=
    match textAt? members "hex" with
    | some digits => (hexBytes digits.toList).toByteArray
    | none => ((textAt? members "text").getD "").toUTF8
  fillBytes members ++ behind

/-- The entry of an object, whose inner entries are known. -/
def ofMembers? (members : List (String × Json)) (inner : List Entry) : Option Entry :=
  let obscure := (faultAt? members "is_dir_error").isSome
  match textAt? members "dir", textAt? members "file", textAt? members "link",
    textAt? members "fifo" with
  | some name, _, _, _ => some (.directory name obscure (faultAt? members "error") inner)
  | _, some name, _, _ =>
    some (.file name obscure
      ⟨contentBytes members, faultAt? members "error", faultAt? members "stat_error"⟩)
  | _, _, some name, _ => some (.link name obscure ((textAt? members "to").getD ""))
  | _, _, _, some name => some (.pipe name obscure)
  | none, none, none, none => none

mutual

/-- The entry that a value describes. -/
def ofJson? : Json → Option Entry
  | .object members => ofMembers? members (innerOf members)
  | _ => none

/-- The entries that are described among the members of an object. -/
def innerOf : List (String × Json) → List Entry
  | [] => []
  | (key, value) :: rest => if key = "entries" then listOf value else innerOf rest

/-- The entries that an array describes. -/
def listOf : Json → List Entry
  | .array items => allOf items
  | _ => []

/-- The entries that several values describe. -/
def allOf : List Json → List Entry
  | [] => []
  | item :: rest =>
    match ofJson? item with
    | some entry => entry :: allOf rest
    | none => allOf rest

end

end Entry

end SourceSnapshot.FileSystem
