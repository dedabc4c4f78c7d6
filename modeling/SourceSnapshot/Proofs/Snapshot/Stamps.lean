import Mathlib.Data.List.Nodup
import SourceSnapshot.Proofs.FileSystem.Names
import SourceSnapshot.Snapshot.Output
import SourceSnapshot.Snapshot.Time

/-!
# Time stamps in file names

The text of an instant is written with a fixed number of digits for each part, so the instant can be
read off the text, also when colons and points are replaced in it and the microseconds are left out
where there are none. The files of a report are told apart by the two ends of their names, and those
of reports taken at different instants by the stamps between them.
-/

namespace SourceSnapshot.Snapshot

theorem toList_padded (width n : Nat) :
    (padded width n).toList =
      List.replicate (width - (Nat.toDigits 10 n).length) '0' ++ Nat.toDigits 10 n := by
  rw [padded, String.toList_ofList]

/-- A padded number has digits only. -/
theorem isDigit_of_mem_padded {width n : Nat} {c : Char} (h : c ∈ (padded width n).toList) :
    c.isDigit = true := by
  rw [toList_padded] at h
  rcases List.mem_append.mp h with h | h
  · obtain rfl := List.eq_of_mem_replicate h
    decide
  · exact Nat.isDigit_of_mem_toDigits (by omega) (by omega) h

/-- A character of a time as it stands in file names. -/
def stampChar (c : Char) : Char := if c = ':' || c = '.' then '-' else c

theorem toList_stamp (timestamp : String) :
    (stamp timestamp).toList = timestamp.toList.map stampChar := by
  rw [stamp, String.toList_ofList]
  rfl

/-- Digits stay in a stamp. -/
theorem map_stampChar_padded (width n : Nat) :
    (padded width n).toList.map stampChar = (padded width n).toList := by
  have hkept : ∀ c ∈ (padded width n).toList, stampChar c = id c := by
    intro c hc
    have hdigit := isDigit_of_mem_padded hc
    have hne : ¬(c = ':' ∨ c = '.') := by
      rintro (rfl | rfl) <;> simp at hdigit
    simp [stampChar, hne]
  rw [List.map_congr_left hkept, List.map_id]

/-- An instant whose parts have at most the digits that they are written with. -/
structure Instant.IsInRange (t : Instant) : Prop where
  year : t.year < Nat.pow 10 4
  month : t.month < Nat.pow 10 2
  day : t.day < Nat.pow 10 2
  hour : t.hour < Nat.pow 10 2
  minute : t.minute < Nat.pow 10 2
  second : t.second < Nat.pow 10 2
  microsecond : t.microsecond < Nat.pow 10 6

/-- What stands for the microseconds in a stamp. -/
def stampedFraction (microsecond : Nat) : List Char :=
  if microsecond = 0 then [] else '-' :: (padded 6 microsecond).toList

/-- The characters of the stamp of an instant. -/
theorem toList_stamp_text (t : Instant) :
    (stamp t.text).toList =
      (padded 4 t.year).toList ++ '-' :: ((padded 2 t.month).toList ++
        '-' :: ((padded 2 t.day).toList ++ 'T' :: ((padded 2 t.hour).toList ++
          '-' :: ((padded 2 t.minute).toList ++ '-' :: ((padded 2 t.second).toList ++
            (stampedFraction t.microsecond ++ "+00-00".toList)))))) := by
  have hmarks : "-".toList.map stampChar = ['-'] ∧ ":".toList.map stampChar = ['-'] ∧
      "T".toList.map stampChar = ['T'] ∧ ".".toList.map stampChar = ['-'] ∧
      "+00:00".toList.map stampChar = "+00-00".toList := by decide
  obtain ⟨hdash, hcolon, hletter, hpoint, hzone⟩ := hmarks
  have hfraction : (if t.microsecond = 0 then "" else "." ++ padded 6 t.microsecond).toList.map
      stampChar = stampedFraction t.microsecond := by
    rw [stampedFraction]
    split
    · rfl
    · rw [String.toList_append, List.map_append, map_stampChar_padded, hpoint]
      rfl
  rw [toList_stamp, Instant.text]
  simp only [String.toList_append, List.map_append, map_stampChar_padded, hfraction, hzone, hdash,
    hcolon, hletter, List.append_assoc, List.singleton_append]

/-- What stands before and behind the stamp in the names of the documents of a report. -/
def nameEnds : List (String × String) :=
  [("metadata-", ".json"), ("tree-", ".txt"), ("digest-", ".txt"), ("tree-", ".json"),
    ("digest-", ".json")]

/-- The name of a document with this stamp. -/
def documentName (ends : String × String) (stamp : String) : String := ends.1 ++ stamp ++ ends.2

/-- The documents of a report have some of these names, in their order. -/
theorem map_name_documents_sublist (r : Report) (format : Format) :
    ((documents r format).map Document.name).Sublist
      (nameEnds.map (documentName · (stamp r.metadata.timestamp))) := by
  cases format <;> simp [documents, nameEnds, documentName, Format.writesText, Format.writesJson]

/-- A name starts as what stands before its stamp does, and ends as what stands behind it. -/
theorem ends_toList_documentName {ends : String × String} (h : ends ∈ nameEnds) (stamp : String) :
    (documentName ends stamp).toList.head? = ends.1.toList.head? ∧
      (documentName ends stamp).toList.getLast? = ends.2.toList.getLast? := by
  have hne : ∀ ends ∈ nameEnds, ends.1.toList ≠ [] ∧ ends.2.toList ≠ [] := by decide
  obtain ⟨hfront, hbehind⟩ := hne ends h
  obtain ⟨c, rest, hcons⟩ := List.exists_cons_of_ne_nil hfront
  rw [documentName, String.toList_append, String.toList_append]
  constructor
  · rw [hcons]
    rfl
  · exact List.getLast?_append_of_ne_nil _ hbehind

/-- The ends of a name and its stamp can be read off the name. -/
theorem eq_of_documentName_eq {ends ends' : String × String} (h : ends ∈ nameEnds)
    (h' : ends' ∈ nameEnds) {stamp stamp' : String}
    (heq : documentName ends stamp = documentName ends' stamp') :
    ends = ends' ∧ stamp = stamp' := by
  have hapart : ∀ ends ∈ nameEnds, ∀ ends' ∈ nameEnds,
      ends.1.toList.head? = ends'.1.toList.head? →
        ends.2.toList.getLast? = ends'.2.toList.getLast? → ends = ends' := by decide
  obtain ⟨hfirst, hlast⟩ := ends_toList_documentName h stamp
  obtain ⟨hfirst', hlast'⟩ := ends_toList_documentName h' stamp'
  rw [heq] at hfirst hlast
  obtain rfl := hapart ends h ends' h' (hfirst.symm.trans hfirst') (hlast.symm.trans hlast')
  have hlist := congrArg String.toList heq
  simp only [documentName, String.toList_append] at hlist
  have hcut := List.append_cancel_left (List.append_cancel_right hlist)
  exact ⟨rfl, String.toList_injective hcut⟩

/-- No slash stands in the stamp of an instant. -/
theorem slash_notMem_stamp_text (t : Instant) : '/' ∉ (stamp t.text).toList := by
  have hpadded : ∀ width n, '/' ∉ (padded width n).toList := by
    intro width n h
    have hdigit := isDigit_of_mem_padded h
    simp at hdigit
  have hfraction : '/' ∉ stampedFraction t.microsecond := by
    rw [stampedFraction]
    split
    · exact List.not_mem_nil
    · simpa using hpadded 6 t.microsecond
  rw [toList_stamp_text]
  simp [hpadded, hfraction]

/-- Documents that are named by instants have names that entries can have. -/
theorem isName_documentName {ends : String × String} (h : ends ∈ nameEnds) (t : Instant) :
    FileSystem.IsName (documentName ends (stamp t.text)) := by
  have hplain : ∀ ends ∈ nameEnds, '/' ∉ ends.1.toList ∧ '/' ∉ ends.2.toList ∧
      ends.1.toList.head? ≠ none ∧ ends.1.toList.head? ≠ some '.' := by decide
  obtain ⟨hfront, hbehind, hne, hdot⟩ := hplain ends h
  obtain ⟨hfirst, -⟩ := ends_toList_documentName h (stamp t.text)
  have hother : ∀ name : String, name.toList.head? = none ∨ name.toList.head? = some '.' →
      documentName ends (stamp t.text) ≠ name := by
    rintro name hname rfl
    rw [hfirst] at hname
    exact hname.elim hne hdot
  refine ⟨hother _ (Or.inl rfl), ?_, hother _ (Or.inr rfl), hother _ (Or.inr rfl)⟩
  rw [documentName, String.toList_append, String.toList_append]
  simp [hfront, hbehind, slash_notMem_stamp_text]

/-- The documents of a report that tells an instant have names that entries can have. -/
theorem isName_of_mem_documents {r : Report} {t : Instant} (h : r.metadata.timestamp = t.text)
    {format : Format} {document : Document} (hdocument : document ∈ documents r format) :
    FileSystem.IsName document.name := by
  have hname := (map_name_documents_sublist r format).subset (List.mem_map_of_mem hdocument)
  obtain ⟨ends, hends, heq⟩ := List.mem_map.mp hname
  rw [← heq, h]
  exact isName_documentName hends t

/-- The documents of one report have different names. -/
theorem nodup_names (r : Report) (format : Format) :
    ((documents r format).map Document.name).Nodup := by
  refine (map_name_documents_sublist r format).nodup (List.Nodup.map_on ?_ (by decide))
  intro ends hends ends' hends' heq
  exact (eq_of_documentName_eq hends hends' heq).1

end SourceSnapshot.Snapshot
