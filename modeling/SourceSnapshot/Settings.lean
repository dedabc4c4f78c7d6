import SourceSnapshot.Validation.Field

/-!
# Settings

The options of a scan, of a directory tree and of a whole snapshot, with their defaults. Settings
come in untyped and are checked; an unknown option is refused. The settings of a snapshot yield
those of its scan and of its tree, so that both have the same policy on names that start with a dot.
-/

namespace SourceSnapshot

open Text (Codecs Encoding)
open Validation (Checked Reader)

/-- The size limit unless another is asked for: ten mebibytes. -/
def defaultMaxFileSize : Nat := 10 * 1024 * 1024

/-- The ignore file unless another is asked for. -/
def defaultIgnoreFile : String := ".gitignore"

/-- The options of a scan. A test for binary files, if there is one, is asked with the path of the
file instead of looking into it. It is a function of the path alone that always answers: it sees no
file system and cannot fail. -/
structure ScanSettings where
  maxFileSize : Nat
  includeDotFiles : Bool
  includeBinaryFiles : Bool
  encoding : Encoding.Named
  binaryTest : Option (String → Bool)

/-- The options of a directory tree. Without `maxDepth` a tree has any depth. -/
structure TreeSettings where
  maxDepth : Option Nat
  includeDotFiles : Bool
  includeFiles : Bool
  includeDirectories : Bool
  deriving DecidableEq

/-- The options of a snapshot. -/
structure SnapshotSettings where
  ignorePatterns : List String
  ignoreFile : String
  ignoreCase : Bool
  maxFileSize : Nat
  includeBinaryFiles : Bool
  includeDotFiles : Bool
  encoding : Encoding.Named
  maxDepth : Option Nat

/-- A number that may be missing. -/
def Json.ofNat? : Option Nat → Json
  | some n => .int n
  | none => .null

namespace ScanSettings

/-- The options unless others are asked for. -/
def default : ScanSettings := ⟨defaultMaxFileSize, false, false, .utf8, none⟩

/-- The names of the options. -/
def keys : List String :=
  ["max_file_size", "include_dot_files", "include_binary_files", "encoding", "binary_test"]

/-- A test for binary files cannot come in as data. -/
def noTest : Reader (Option (String → Bool))
  | .null => .valid none
  | _ => .broken .callable

/-- Reads the options of a scan, where these encodings are at hand besides those defined here. -/
def read (codecs : Codecs) (members : List (String × Json)) : Checked ScanSettings :=
  ScanSettings.mk
    <$> Validation.defaulting members "max_file_size" default.maxFileSize Validation.natural
    <*> Validation.defaulting members "include_dot_files" default.includeDotFiles Validation.boolean
    <*> Validation.defaulting members "include_binary_files" default.includeBinaryFiles
      Validation.boolean
    <*> Validation.defaulting members "encoding" default.encoding
      (Validation.encoding codecs)
    <*> Validation.defaulting members "binary_test" none noTest
    <* Validation.only keys members

/-- The options as data, without the test for binary files. -/
def toJson (s : ScanSettings) : Json :=
  .object [
    ("max_file_size", .int s.maxFileSize),
    ("include_dot_files", .bool s.includeDotFiles),
    ("include_binary_files", .bool s.includeBinaryFiles),
    ("encoding", .string s.encoding.name)]

end ScanSettings

namespace TreeSettings

/-- The options unless others are asked for. -/
def default : TreeSettings := ⟨none, false, true, true⟩

/-- The names of the options. -/
def keys : List String := ["max_depth", "include_dot_files", "include_files", "include_directories"]

/-- Reads the options of a directory tree. -/
def read (members : List (String × Json)) : Checked TreeSettings :=
  TreeSettings.mk
    <$> Validation.defaulting members "max_depth" default.maxDepth
      (Validation.optional Validation.natural)
    <*> Validation.defaulting members "include_dot_files" default.includeDotFiles Validation.boolean
    <*> Validation.defaulting members "include_files" default.includeFiles Validation.boolean
    <*> Validation.defaulting members "include_directories" default.includeDirectories
      Validation.boolean
    <* Validation.only keys members

/-- The options as data. -/
def toJson (s : TreeSettings) : Json :=
  .object [
    ("max_depth", .ofNat? s.maxDepth),
    ("include_dot_files", .bool s.includeDotFiles),
    ("include_files", .bool s.includeFiles),
    ("include_directories", .bool s.includeDirectories)]

end TreeSettings

namespace SnapshotSettings

/-- The options unless others are asked for. -/
def default : SnapshotSettings :=
  ⟨[], defaultIgnoreFile, true, defaultMaxFileSize, false, false, .utf8, none⟩

/-- The names of the options. -/
def keys : List String :=
  ["ignore_patterns", "gitignore_path", "ignore_case", "max_file_size", "include_binary_files",
    "include_dot_files", "encoding", "max_depth"]

/-- Reads the options of a snapshot, where these encodings are at hand besides those defined
here. -/
def read (codecs : Codecs) (members : List (String × Json)) : Checked SnapshotSettings :=
  SnapshotSettings.mk
    <$> Validation.defaulting members "ignore_patterns" default.ignorePatterns
      (Validation.list Validation.text)
    <*> Validation.defaulting members "gitignore_path" default.ignoreFile Validation.text
    <*> Validation.defaulting members "ignore_case" default.ignoreCase Validation.boolean
    <*> Validation.defaulting members "max_file_size" default.maxFileSize Validation.natural
    <*> Validation.defaulting members "include_binary_files" default.includeBinaryFiles
      Validation.boolean
    <*> Validation.defaulting members "include_dot_files" default.includeDotFiles Validation.boolean
    <*> Validation.defaulting members "encoding" default.encoding
      (Validation.encoding codecs)
    <*> Validation.defaulting members "max_depth" default.maxDepth
      (Validation.optional Validation.natural)
    <* Validation.only keys members

/-- The options of the scan. -/
def scan (s : SnapshotSettings) : ScanSettings :=
  ⟨s.maxFileSize, s.includeDotFiles, s.includeBinaryFiles, s.encoding, none⟩

/-- The options of the tree. -/
def tree (s : SnapshotSettings) : TreeSettings :=
  ⟨s.maxDepth, s.includeDotFiles, TreeSettings.default.includeFiles,
    TreeSettings.default.includeDirectories⟩

/-- The options as data. -/
def toJson (s : SnapshotSettings) : Json :=
  .object [
    ("ignore_patterns", .array (s.ignorePatterns.map .string)),
    ("gitignore_path", .string s.ignoreFile),
    ("ignore_case", .bool s.ignoreCase),
    ("max_file_size", .int s.maxFileSize),
    ("include_binary_files", .bool s.includeBinaryFiles),
    ("include_dot_files", .bool s.includeDotFiles),
    ("encoding", .string s.encoding.name),
    ("max_depth", .ofNat? s.maxDepth)]

end SnapshotSettings

/-- Whether a name is private: no option has such a name, and settings do not look at it. -/
def isPrivateName (name : String) : Bool := name.toList.head? == some '_'

/-- What comes of setting a name of settings that are in use: their options never change. -/
def setName (name : String) : Checked Unit :=
  if isPrivateName name then .valid () else .invalid [⟨.frozen, [.key name]⟩]

end SourceSnapshot
