import SourceSnapshot.Text.Blank

/-!
# Names of remote repositories

The owner and the name of a repository, read off the address of its remote: the last two segments of
the path, the first of them behind a slash or a colon, without a closing `.git` and a closing slash.
-/

namespace SourceSnapshot.Repository

/-- Whether nothing is left, or a final line break only. -/
def isAtEnd (cs : List Char) : Bool := cs == [] || cs == ['\n']

/-- The text without this beginning, if it has it. -/
def dropBeginning? (beginning cs : List Char) : Option (List Char) :=
  if beginning.isPrefixOf cs then some (cs.drop beginning.length) else none

/-- Whether what is left is at most a slash. -/
def closesSlash (cs : List Char) : Bool :=
  isAtEnd cs || (dropBeginning? ['/'] cs).any isAtEnd

/-- Whether what is left is at most a `.git` and a slash. -/
def closesName (cs : List Char) : Bool :=
  closesSlash cs || (dropBeginning? ".git".toList cs).any closesSlash

/-- The shortest name of at least one character that what follows closes; it has no slash. -/
def nameAt? : List Char → Option (List Char)
  | [] => none
  | c :: rest =>
    if c = '/' then none
    else if closesName rest then some [c]
    else (nameAt? rest).map (c :: ·)

/-- The owner, a slash and the name, if the address goes on with them. -/
def ownerAndName? (cs : List Char) : Option (List Char) :=
  let inSegment := fun c => c != '/' && c != ':'
  let owner := cs.takeWhile inSegment
  if owner.isEmpty then none
  else
    match cs.dropWhile inSegment with
    | '/' :: rest => (nameAt? rest).map fun name => owner ++ '/' :: name
    | _ => none

/-- The owner and the name behind the first slash or colon where they are found. -/
def ofAddress? : List Char → Option (List Char)
  | [] => none
  | c :: rest =>
    if c = '/' || c = ':' then
      match ownerAndName? rest with
      | some found => some found
      | none => ofAddress? rest
    else ofAddress? rest

/-- The part of a path behind its last slash. -/
def baseName (path : String) : String :=
  String.ofList (path.toList.reverse.takeWhile (· != '/')).reverse

end SourceSnapshot.Repository
