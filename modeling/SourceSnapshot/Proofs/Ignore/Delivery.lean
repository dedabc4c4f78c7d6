import SourceSnapshot.Proofs.Ignore.History
import SourceSnapshot.Proofs.Text.Breaks
import SourceSnapshot.Proofs.Text.Encoding

/-!
# How rules are handed over

Rules can be handed over in one batch or in several, as a list of lines or as one text, and as the
ignore file that holds this text. The engine is the same afterwards, so it has the same rules in the
same order and gives the same answers from then on.
-/

namespace SourceSnapshot.Ignore

open FileSystem (Path)

namespace Engine

theorem accepted_append (ignoreCase : Bool) (xs ys : List (Option String)) :
    accepted ignoreCase (xs ++ ys) = accepted ignoreCase xs ++ accepted ignoreCase ys := by
  simp [accepted]

theorem addItems_congr {e : Engine} {xs ys : List (Option String)}
    (h : accepted e.ignoreCase xs = accepted e.ignoreCase ys) : e.addItems xs = e.addItems ys := by
  rw [addItems, addItems, h]

/-- Two batches are one. What is remembered is forgotten if there is a rule in either of them. -/
theorem addItems_addItems (e : Engine) (xs ys : List (Option String)) :
    (e.addItems xs).addItems ys = e.addItems (xs ++ ys) := by
  by_cases hxs : accepted e.ignoreCase xs = []
  · rw [addItems_of_eq_nil hxs]
    apply addItems_congr
    rw [accepted_append, hxs, List.nil_append]
  · have hall : accepted e.ignoreCase (xs ++ ys) ≠ [] := by
      simp [accepted_append, hxs]
    rw [addItems_of_ne_nil hxs, addItems_of_ne_nil hall, accepted_append, ← List.append_assoc,
      addItems_ofRules]

theorem accepted_singleton_empty (ignoreCase : Bool) :
    accepted ignoreCase [some (String.ofList [])] = [] := by
  cases ignoreCase <;> decide +kernel

/-- The lines of an ignore file with plain breaks hold the rules that its text holds. -/
theorem addItems_fileLines (e : Engine) {text : String} (h : Text.HasPlainBreaks text.toList) :
    e.addItems ((fileLines text).map some) = e.add (.text text) := by
  rw [add]
  apply addItems_congr
  rw [Lines.toItems, fileLines, List.map_map]
  rcases Text.piecesAtBreaks_eq_lines h with hpieces | hpieces
  · rw [hpieces]
    rfl
  · rw [hpieces, List.map_append, accepted_append, List.map_singleton, accepted_singleton_empty,
      List.append_nil]
    rfl

/-- The lines of a file that holds the bytes of a text are those of the text, with a byte order mark
in front or without it. -/
theorem readLines_of_bytes {fs : FileSystem} {path text : String} {data : FileSystem.FileData}
    (hfile : fs.openFile (Path.ofText path).text = .ok data)
    (hhead : text.toList.head? ≠ some '\ufeff')
    (hbytes : data.bytes = text.toUTF8 ∨
      data.bytes = Text.Utf8.mark.toByteArray ++ text.toUTF8) :
    readLines fs path = .ok (some (fileLines text)) := by
  have hread : fileEncoding.read data.toList = .ok text :=
    Text.Encoding.read_eq_ok_of_utf8Marked rfl (hbytes.symm.imp_right fun h => ⟨h, hhead⟩)
  unfold readLines
  rw [hfile]
  dsimp only
  rw [hread]

/-- It does not matter how rules are delivered. Two batches are one; a text is the list of its
pieces between LF and CRLF, and there always is such a list; and where these are the only line
breaks of a text that does not start with a byte order mark, a file that holds the text in UTF-8
delivers what the text delivers. -/
theorem add_delivers (e : Engine) :
    (∀ xs ys, (e.add (.list xs)).add (.list ys) = e.add (.list (xs ++ ys))) ∧
      (∀ text : String, ∃ pieces, Text.IsCut text.toList pieces) ∧
      (∀ (text : String) (pieces : List (List Char)), Text.IsCut text.toList pieces →
        e.add (.text text) = e.add (.list (pieces.map fun piece => some (String.ofList piece)))) ∧
      ∀ (text : String), Text.HasPlainBreaks text.toList → text.toList.head? ≠ some '\ufeff' →
        ∀ (fs : FileSystem) (path : String) (data : FileSystem.FileData),
          fs.openFile (Path.ofText path).text = .ok data →
          (data.bytes = text.toUTF8 ∨
            data.bytes = Text.Utf8.mark.toByteArray ++ text.toUTF8) →
          (e.loadFile fs path).1 = .ok (e.add (.text text)) := by
  refine ⟨fun xs ys => addItems_addItems e xs ys, fun text => ⟨_, Text.isCut_iff.mpr rfl⟩, ?_, ?_⟩
  · intro text pieces hcut
    rw [Text.isCut_iff.mp hcut]
    rfl
  · intro text hbreaks hhead fs path data hfile hbytes
    rw [loadFile_fst, readLines_of_bytes hfile hhead hbytes]
    exact congrArg Except.ok (addItems_fileLines e hbreaks)

/-- A text with both line breaks, a comment, an empty line and a line that is rejected. -/
def deliveredText : String := "# logs\r\n*.log\r\n\n!keep.log\nopen\\\n"

theorem toList_deliveredText :
    deliveredText.toList =
      ['#', ' ', 'l', 'o', 'g', 's', '\r', '\n', '*', '.', 'l', 'o', 'g', '\r', '\n', '\n', '!',
        'k', 'e', 'e', 'p', '.', 'l', 'o', 'g', '\n', 'o', 'p', 'e', 'n', '\\', '\n'] := by
  simp [deliveredText]

/-- A working directory with an ignore file of these bytes. -/
def deliveringSystem (bytes : ByteArray) : FileSystem :=
  .ofWorkingDirectory ["work"] [.file ".gitignore" false ⟨bytes, none, none⟩]

theorem openFile_deliveringSystem (bytes : ByteArray) :
    (deliveringSystem bytes).openFile (Path.ofText ".gitignore").text =
      .ok ⟨bytes, none, none⟩ :=
  rfl

/-- The two rules of a file with a byte order mark are those that its text delivers and those of a
list of lines. -/
theorem add_delivers_deliveredText :
    ((empty true).loadFile
          (deliveringSystem (Text.Utf8.mark.toByteArray ++ deliveredText.toUTF8))
          ".gitignore").1 =
        .ok ((empty true).add (.text deliveredText)) ∧
      (empty true).add (.text deliveredText) =
        (empty true).add (.list [some "# logs", some "*.log", some "", some "!keep.log",
          some "open\\", some ""]) ∧
      ((empty true).add (.text deliveredText)).patterns = ["*.log", "!keep.log"] := by
  obtain ⟨-, -, hpieces, hfile⟩ := add_delivers (empty true)
  have hbreaks : Text.HasPlainBreaks deliveredText.toList := by
    simp [toList_deliveredText, Text.HasPlainBreaks.cons_iff]
  have hhead : deliveredText.toList.head? ≠ some '\ufeff' := by
    simp [toList_deliveredText]
  have hcut : Text.IsCut deliveredText.toList
      ["# logs".toList, "*.log".toList, [], "!keep.log".toList, "open\\".toList, []] := by
    rw [Text.isCut_iff, toList_deliveredText]
    simp [Text.piecesAtBreaks]
  refine ⟨?_, hpieces deliveredText _ hcut, by decide +kernel⟩
  exact hfile deliveredText hbreaks hhead _ _ _ (openFile_deliveringSystem _) (Or.inr rfl)

end Engine

end SourceSnapshot.Ignore
