import SourceSnapshot.FileText
import SourceSnapshot.Repository.Info
import SourceSnapshot.Scan.Visit
import SourceSnapshot.Tree.Layout

/-!
# Reports

All that a snapshot tells: when and where it was taken, the statistics, the repository, the texts of
the files and the tree of the directory. A report may also come in as data, which is checked.
-/

namespace SourceSnapshot.Snapshot

open Validation (Checked Reader)

/-- The statistics of a snapshot. -/
structure Statistics where
  processed : Int
  skipped : Int
  totalSize : Int
  errors : List Scan.RecordedError
  ignoredPatterns : List String
  deriving DecidableEq

/-- What is told about the snapshot itself. -/
structure Metadata where
  timestamp : String
  directory : String
  executionTime : String
  statistics : Statistics
  repository : Repository.Info
  deriving DecidableEq

/-- A report. -/
structure Report where
  metadata : Metadata
  filesText : String
  files : List FileText
  treeText : String
  tree : Tree.Node

/-- Reads a recorded error. -/
def readError : Reader Scan.RecordedError :=
  Validation.record "FileError" fun members =>
    Scan.RecordedError.mk
      <$> Validation.required members "path" Validation.text
      <*> Validation.required members "error" Validation.text

/-- A recorded error as data. -/
def errorToJson (e : Scan.RecordedError) : Json :=
  .object [("path", .string e.path), ("error", .string e.reason)]

namespace Statistics

/-- The statistics of a scan and the patterns that were in force. -/
def ofScan (stats : Scan.Stats) (patterns : List String) : Statistics :=
  ⟨stats.processed, stats.skipped, stats.totalSize, stats.errors, patterns⟩

/-- Reads statistics. -/
def read : Reader Statistics :=
  Validation.record "DigestStats" fun members =>
    Statistics.mk
      <$> Validation.defaulting members "files_processed" 0 Validation.integer
      <*> Validation.defaulting members "files_skipped" 0 Validation.integer
      <*> Validation.defaulting members "total_size" 0 Validation.integer
      <*> Validation.defaulting members "errors" [] (Validation.list readError)
      <*> Validation.defaulting members "ignored_patterns" [] (Validation.list Validation.text)

/-- The counters and errors as members of an object. -/
def counters (s : Statistics) : List (String × Json) := [
  ("files_processed", .int s.processed),
  ("files_skipped", .int s.skipped),
  ("total_size", .int s.totalSize),
  ("errors", .array (s.errors.map errorToJson))]

/-- Statistics as data. -/
def toJson (s : Statistics) : Json :=
  .object (s.counters ++ [("ignored_patterns", .array (s.ignoredPatterns.map .string))])

end Statistics

namespace Metadata

/-- Reads what is told about a snapshot. -/
def read : Reader Metadata :=
  Validation.record "DigestMetadata" fun members =>
    Metadata.mk
      <$> Validation.required members "timestamp" Validation.text
      <*> Validation.required members "directory" Validation.text
      <*> Validation.required members "execution_time" Validation.text
      <*> Validation.required members "stats" Statistics.read
      <*> Validation.defaulting members "repository" .none Repository.Info.read

/-- What is told about a snapshot as data. -/
def toJson (m : Metadata) : Json :=
  .object [("timestamp", .string m.timestamp), ("directory", .string m.directory),
    ("execution_time", .string m.executionTime), ("stats", m.statistics.toJson),
    ("repository", m.repository.toJson)]

end Metadata

namespace Report

/-- Reads a text and the data that it shows, which may go by another key. -/
def readSection {α : Type} (name other : String) (read : Reader α) : Reader (String × α) :=
  Validation.record name fun members =>
    Prod.mk
      <$> Validation.required members "text" Validation.text
      <*> Validation.requiredAs members "json" other read

/-- Reads a report. -/
def read : Reader Report :=
  Validation.record "DigestResult" fun members =>
    (fun metadata files tree => ⟨metadata, files.1, files.2, tree.1, tree.2⟩)
      <$> Validation.required members "metadata" Metadata.read
      <*> Validation.required members "files"
        (readSection "FilesSection" "entries" (Validation.list FileText.read))
      <*> Validation.required members "tree" (readSection "TreeResult" "root" Tree.Node.read)

/-- A text and the data that it shows, as data. -/
def sectionToJson (text : String) (data : Json) : Json :=
  .object [("text", .string text), ("json", data)]

/-- A report as data. -/
def toJson (r : Report) : Json :=
  .object [("metadata", r.metadata.toJson),
    ("files", sectionToJson r.filesText (.array (r.files.map FileText.toJson))),
    ("tree", sectionToJson r.treeText r.tree.toJson)]

/-- A report as data that is handed out, unless its tree is nested too deep. -/
def toData? (r : Report) : Option Json := r.tree.toData?.map fun _ => r.toJson

end Report

end SourceSnapshot.Snapshot
