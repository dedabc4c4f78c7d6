import Mathlib.Data.List.DropRight
import SourceSnapshot.FileText
import SourceSnapshot.Proofs.Text.Pieces

/-!
# Reading the texts of files back

The text that shows several files can be cut into the files again, as long as no path has a line
break in it and no line of a content looks like a heading. Then the headings are the only lines that
do, and between two of them stands the content of the file with one line break more. So nothing else
about a path or a content matters: how it ends, which blank lines it has, or whether it is empty.
-/

namespace SourceSnapshot.FileText

/-- Whether a line looks like a heading, which is told from its start. -/
def isHeading (line : List Char) : Bool := "=== ".toList.isPrefixOf line

/-- The path in a heading, which four characters stand before and four behind. -/
def pathOf (heading : List Char) : String := String.ofList ((heading.drop 4).rdrop 4)

/-- The content of a file from the lines behind its heading; the last of them is empty and does not
belong to the content. -/
def contentOf (lines : List (List Char)) : String :=
  String.ofList (List.intercalate ['\n'] lines.dropLast)

/-- Puts a line before what was read of the lines behind it: the lines up to the first heading, and
the files from there on. -/
def addLine (line : List Char) (behind : List (List Char) × List FileText) :
    List (List Char) × List FileText :=
  if isHeading line then ([], ⟨pathOf line, contentOf behind.1⟩ :: behind.2)
  else (line :: behind.1, behind.2)

/-- Reads files from the text that shows them. -/
def ofLayout (text : String) : List FileText :=
  ((Text.splitOn '\n' text.toList).foldr addLine ([], [])).2

/-- The path has no line break in it, and no line of the content looks like a heading. -/
def IsSeparable (f : FileText) : Prop :=
  '\n' ∉ f.path.toList ∧ ∀ line ∈ Text.splitOn '\n' f.content.toList, isHeading line = false

instance : DecidablePred IsSeparable := fun f =>
  inferInstanceAs (Decidable ('\n' ∉ f.path.toList ∧
    ∀ line ∈ Text.splitOn '\n' f.content.toList, isHeading line = false))

/-- The lines that show a file: its heading, those of its content, and an empty one. -/
def lines (f : FileText) : List (List Char) :=
  f.heading.toList :: (Text.splitOn '\n' f.content.toList ++ [[]])

theorem toList_heading (f : FileText) :
    f.heading.toList = "=== ".toList ++ (f.path.toList ++ " ===".toList) := by
  rw [heading, String.toList_append, String.toList_append, List.append_assoc]

theorem isHeading_heading (f : FileText) : isHeading f.heading.toList = true := by
  rw [isHeading, toList_heading, List.isPrefixOf_iff_prefix]
  exact List.prefix_append _ _

/-- The path can be read from a heading. -/
theorem pathOf_heading (f : FileText) : pathOf f.heading.toList = f.path := by
  have hdrop : f.heading.toList.drop 4 = f.path.toList ++ " ===".toList := by
    rw [toList_heading]
    exact List.drop_left' rfl
  have hrdrop : (f.path.toList ++ " ===".toList).rdrop 4 = f.path.toList :=
    List.rdrop_append_length
  rw [pathOf, hdrop, hrdrop, String.ofList_toList]

/-- Behind a heading stand the content and a line break. -/
theorem splitOn_block {f : FileText} (h : '\n' ∉ f.path.toList) (rest : List Char) :
    Text.splitOn '\n' (f.heading.toList ++ '\n' :: (f.content.toList ++ '\n' :: rest)) =
      f.heading.toList :: (Text.splitOn '\n' f.content.toList ++ Text.splitOn '\n' rest) := by
  have hheading : '\n' ∉ f.heading.toList := by
    rw [toList_heading, List.mem_append, List.mem_append]
    rintro (hmem | hmem | hmem)
    · exact absurd hmem (by decide)
    · exact h hmem
    · exact absurd hmem (by decide)
  rw [Text.splitOn_append_cons hheading, Text.splitOn_append]

/-- The lines of the text that shows files, at least one, are the lines of the files. -/
theorem splitOn_layout {files : List FileText} (hne : files ≠ [])
    (h : ∀ f ∈ files, '\n' ∉ f.path.toList) :
    Text.splitOn '\n' (layout files).toList = files.flatMap lines := by
  induction files with
  | nil => exact absurd rfl hne
  | cons f rest ih =>
    obtain ⟨hf, hrest⟩ := List.forall_mem_cons.mp h
    cases rest with
    | nil =>
      have htext : (layout [f]).toList =
          f.heading.toList ++ '\n' :: (f.content.toList ++ '\n' :: []) := by
        simp [layout, blocks]
      rw [htext, splitOn_block hf]
      simp [lines, Text.splitOn]
    | cons g others =>
      have htext : (layout (f :: g :: others)).toList = f.heading.toList ++
          '\n' :: (f.content.toList ++ '\n' :: '\n' :: (layout (g :: others)).toList) := by
        simp [layout, blocks, String.intercalate_cons_cons]
      rw [htext, splitOn_block hf, Text.splitOn_cons_self, ih (List.cons_ne_nil g others) hrest]
      simp [lines]

/-- Lines that do not look like headings are kept for the heading before them. -/
theorem foldr_addLine_of_forall {lines : List (List Char)}
    (h : ∀ line ∈ lines, isHeading line = false) (files : List FileText) :
    lines.foldr addLine ([], files) = (lines, files) := by
  induction lines with
  | nil => rfl
  | cons line rest ih =>
    obtain ⟨hline, hrest⟩ := List.forall_mem_cons.mp h
    rw [List.foldr_cons, ih hrest, addLine, hline, if_neg Bool.false_ne_true]

/-- The lines of a file put before other files are the file. -/
theorem foldr_addLine_lines {f : FileText} (h : f.IsSeparable) (files : List FileText) :
    f.lines.foldr addLine ([], files) = ([], f :: files) := by
  have hbehind : ∀ line ∈ Text.splitOn '\n' f.content.toList ++ [[]], isHeading line = false := by
    intro line hline
    rcases List.mem_append.mp hline with hline | hline
    · exact h.2 line hline
    · rw [List.mem_singleton.mp hline]
      rfl
  have hcontent : contentOf (Text.splitOn '\n' f.content.toList ++ [[]]) = f.content := by
    rw [contentOf, List.dropLast_concat, Text.intercalate_splitOn, String.ofList_toList]
  rw [lines, List.foldr_cons, foldr_addLine_of_forall hbehind, addLine, if_pos f.isHeading_heading,
    f.pathOf_heading, hcontent]

/-- The lines of several files put together are the files. -/
theorem foldr_addLine_flatMap {files : List FileText} (h : ∀ f ∈ files, f.IsSeparable) :
    (files.flatMap lines).foldr addLine ([], []) = ([], files) := by
  induction files with
  | nil => rfl
  | cons f rest ih =>
    obtain ⟨hf, hrest⟩ := List.forall_mem_cons.mp h
    rw [List.flatMap_cons, List.foldr_append, ih hrest, foldr_addLine_lines hf]

/-- Files are read back from the text that shows them, in order and each as often as it is shown, if
no path has a line break in it and no line of a content looks like a heading. -/
theorem ofLayout_layout {files : List FileText} (h : ∀ f ∈ files, f.IsSeparable) :
    ofLayout (layout files) = files := by
  by_cases hne : files = []
  · subst hne
    rfl
  · rw [ofLayout, splitOn_layout hne fun f hf => (h f hf).1, foldr_addLine_flatMap h]

/-- Blank lines, endings, repeated paths and paths that look like headings are told apart. -/
theorem ofLayout_layout_blankLines :
    let files : List FileText := [⟨"=== a ===", ""⟩, ⟨" ", "\n\n"⟩, ⟨"b", "x\r\n\n===\n"⟩,
      ⟨"b", "x\r\n\n ==="⟩, ⟨"b", " === b ===\n\n"⟩]
    (∀ f ∈ files, f.IsSeparable) ∧ ofLayout (layout files) = files := by
  intro files
  have h : ∀ f ∈ files, f.IsSeparable := by decide
  exact ⟨h, ofLayout_layout h⟩

end SourceSnapshot.FileText
