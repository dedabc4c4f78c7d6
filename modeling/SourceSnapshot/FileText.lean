import SourceSnapshot.Validation.Field

/-!
# Texts of files

A file of a run: its path as seen from the root of the run, and its text. Several files are shown
one after the other, each under a line with its path.
-/

namespace SourceSnapshot

open Validation (Checked Reader)

/-- A path and the text of the file there. -/
structure FileText where
  path : String
  content : String
  deriving DecidableEq

namespace FileText

/-- The line above the text of a file. -/
def heading (f : FileText) : String := "=== " ++ f.path ++ " ==="

/-- The pieces that show a file; line breaks stand between them. -/
def blocks (f : FileText) : List String := [f.heading, f.content ++ "\n"]

/-- All files, one after the other. -/
def layout (files : List FileText) : String := "\n".intercalate (files.flatMap blocks)

/-- Reads a file. -/
def read : Reader FileText :=
  Validation.record "ScanEntry" fun members =>
    FileText.mk
      <$> Validation.required members "path" Validation.text
      <*> Validation.required members "content" Validation.text

/-- A file as data. -/
def toJson (f : FileText) : Json :=
  .object [("path", .string f.path), ("content", .string f.content)]

end FileText

end SourceSnapshot
