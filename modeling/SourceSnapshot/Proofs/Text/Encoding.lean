import Mathlib.Data.List.Basic
import SourceSnapshot.Text.Encoding.Name

/-!
# Texts and their bytes

Reading UTF-8 and Latin-1 loses nothing: the bytes of the text that is read are the bytes it was
read from. For UTF-8 the forms that the reader admits for one character are compared with the form
that the character has: there is just one, and it is the shortest. So the byte sequences that can be
read are those of the texts, and a byte sequence with an overlong form, a surrogate, a value above
U+10FFFF or a character cut off is none of them.
-/

namespace SourceSnapshot.Text

namespace Utf8

/-- The first bytes of characters of each length. -/
theorem width?_eq_some_iff {a : UInt8} {n : Nat} :
    width? a = some n ↔
      n = 1 ∧ a.toNat < 128 ∨ n = 2 ∧ 194 ≤ a.toNat ∧ a.toNat < 224 ∨
        n = 3 ∧ 224 ≤ a.toNat ∧ a.toNat < 240 ∨ n = 4 ∧ 240 ≤ a.toNat ∧ a.toNat < 245 := by
  simp only [width?, UInt8.lt_iff_toNat_lt, UInt8.reduceToNat]
  split_ifs
  · rw [Option.some.injEq]
    omega
  · rw [false_iff]
    omega
  · rw [Option.some.injEq]
    omega
  · rw [Option.some.injEq]
    omega
  · rw [Option.some.injEq]
    omega
  · rw [false_iff]
    omega

theorem isTail_iff {b : UInt8} : isTail b = true ↔ 128 ≤ b.toNat ∧ b.toNat ≤ 191 := by
  simp [isTail, UInt8.le_iff_toNat_le]

/-- A second byte continues a character, and is narrowed behind four of the first bytes. -/
theorem admitsSecond_iff {a b : UInt8} :
    admitsSecond a b = true ↔ (128 ≤ b.toNat ∧ b.toNat ≤ 191) ∧
      (a.toNat = 224 → 160 ≤ b.toNat) ∧ (a.toNat = 237 → b.toNat ≤ 159) ∧
        (a.toNat = 240 → 144 ≤ b.toNat) ∧ (a.toNat = 244 → b.toNat ≤ 143) := by
  simp only [admitsSecond, ← UInt8.toNat_inj, UInt8.reduceToNat, isTail, UInt8.le_iff_toNat_le]
  split_ifs
  all_goals simp only [Bool.and_eq_true, decide_eq_true_eq]; omega

/-- The bytes that the reader admits for one character. -/
inductive Spells : List UInt8 → Char → Prop where
  | one {a : UInt8} (ha : width? a = some 1) : Spells [a] (Char.ofNat a.toNat)
  | two {a b : UInt8} (ha : width? a = some 2) (hb : admitsSecond a b = true) :
    Spells [a, b] (char2 a b)
  | three {a b c : UInt8} (ha : width? a = some 3) (hb : admitsSecond a b = true)
    (hc : isTail c = true) : Spells [a, b, c] (char3 a b c)
  | four {a b c d : UInt8} (ha : width? a = some 4) (hb : admitsSecond a b = true)
    (hc : isTail c = true) (hd : isTail d = true) : Spells [a, b, c, d] (char4 a b c d)

/-- The bytes of the character of a code point. -/
theorem utf8EncodeChar_ofNat {n : Nat} (hn : n.isValidChar) :
    String.utf8EncodeChar (Char.ofNat n) =
      if n ≤ 127 then [UInt8.ofNat n]
      else if n ≤ 2047 then [UInt8.ofNat (n / 64 % 32 + 192), UInt8.ofNat (n % 64 + 128)]
      else if n ≤ 65535 then
        [UInt8.ofNat (n / 4096 % 16 + 224), UInt8.ofNat (n / 64 % 64 + 128),
          UInt8.ofNat (n % 64 + 128)]
      else
        [UInt8.ofNat (n / 262144 % 8 + 240), UInt8.ofNat (n / 4096 % 64 + 128),
          UInt8.ofNat (n / 64 % 64 + 128), UInt8.ofNat (n % 64 + 128)] := by
  have hval : (Char.ofNat n).val.toNat = n := by
    rw [Char.ofNat, dif_pos hn]
    rfl
  rw [String.utf8EncodeChar.eq_def, hval]

theorem ofNat_eq_of_toNat {a : UInt8} {n : Nat} (h : n = a.toNat) : UInt8.ofNat n = a := by
  rw [h, UInt8.ofNat_toNat]

/-- The bytes that the reader admits for a character are the ones that the character has. -/
theorem Spells.eq_utf8EncodeChar {bytes : List UInt8} {c : Char} (h : Spells bytes c) :
    bytes = String.utf8EncodeChar c := by
  cases h with
  | @one a ha =>
    rw [width?_eq_some_iff] at ha
    rw [utf8EncodeChar_ofNat (by omega), if_pos (by omega), UInt8.ofNat_toNat]
  | @two a b ha hb =>
    rw [width?_eq_some_iff] at ha
    rw [admitsSecond_iff] at hb
    rw [char2, payload, utf8EncodeChar_ofNat (by omega), if_neg (by omega), if_pos (by omega),
      ofNat_eq_of_toNat (a := a) (by omega), ofNat_eq_of_toNat (a := b) (by omega)]
  | @three a b c ha hb hc =>
    rw [width?_eq_some_iff] at ha
    rw [admitsSecond_iff] at hb
    rw [isTail_iff] at hc
    rw [char3, payload, payload, utf8EncodeChar_ofNat (by omega), if_neg (by omega),
      if_neg (by omega), if_pos (by omega), ofNat_eq_of_toNat (a := a) (by omega),
      ofNat_eq_of_toNat (a := b) (by omega), ofNat_eq_of_toNat (a := c) (by omega)]
  | @four a b c d ha hb hc hd =>
    rw [width?_eq_some_iff] at ha
    rw [admitsSecond_iff] at hb
    rw [isTail_iff] at hc hd
    rw [char4, payload, payload, payload, utf8EncodeChar_ofNat (by omega), if_neg (by omega),
      if_neg (by omega), if_neg (by omega), ofNat_eq_of_toNat (a := a) (by omega),
      ofNat_eq_of_toNat (a := b) (by omega), ofNat_eq_of_toNat (a := c) (by omega),
      ofNat_eq_of_toNat (a := d) (by omega)]

/-- The bytes of a character are admitted for it. -/
theorem spells_utf8EncodeChar (c : Char) : Spells (String.utf8EncodeChar c) c := by
  have hvalid : c.toNat < 55296 ∨ 57343 < c.toNat ∧ c.toNat < 1114112 := c.valid
  have hbyte : ∀ n < 256, (UInt8.ofNat n).toNat = n := fun n hn => UInt8.toNat_ofNat_of_lt' hn
  have hchar : ∀ n, n = c.toNat → Char.ofNat n = c := by
    rintro n rfl
    exact Char.ofNat_toNat c
  rw [← Char.ofNat_toNat c, utf8EncodeChar_ofNat hvalid, Char.ofNat_toNat]
  split_ifs with hone htwo hthree
  · have ha := hbyte c.toNat (by omega)
    generalize UInt8.ofNat c.toNat = a at ha
    rw [← hchar _ ha]
    exact .one (width?_eq_some_iff.mpr (by omega))
  · have ha := hbyte (c.toNat / 64 % 32 + 192) (by omega)
    have hb := hbyte (c.toNat % 64 + 128) (by omega)
    generalize UInt8.ofNat (c.toNat / 64 % 32 + 192) = a at ha
    generalize UInt8.ofNat (c.toNat % 64 + 128) = b at hb
    have hc : char2 a b = c := hchar _ (by rw [payload]; omega)
    rw [← hc]
    exact .two (width?_eq_some_iff.mpr (by omega)) (admitsSecond_iff.mpr (by omega))
  · have ha := hbyte (c.toNat / 4096 % 16 + 224) (by omega)
    have hb := hbyte (c.toNat / 64 % 64 + 128) (by omega)
    have hd := hbyte (c.toNat % 64 + 128) (by omega)
    generalize UInt8.ofNat (c.toNat / 4096 % 16 + 224) = a at ha
    generalize UInt8.ofNat (c.toNat / 64 % 64 + 128) = b at hb
    generalize UInt8.ofNat (c.toNat % 64 + 128) = d at hd
    have hc : char3 a b d = c := hchar _ (by rw [payload, payload]; omega)
    rw [← hc]
    exact .three (width?_eq_some_iff.mpr (by omega)) (admitsSecond_iff.mpr (by omega))
      (isTail_iff.mpr (by omega))
  · have ha := hbyte (c.toNat / 262144 % 8 + 240) (by omega)
    have hb := hbyte (c.toNat / 4096 % 64 + 128) (by omega)
    have hd := hbyte (c.toNat / 64 % 64 + 128) (by omega)
    have he := hbyte (c.toNat % 64 + 128) (by omega)
    generalize UInt8.ofNat (c.toNat / 262144 % 8 + 240) = a at ha
    generalize UInt8.ofNat (c.toNat / 4096 % 64 + 128) = b at hb
    generalize UInt8.ofNat (c.toNat / 64 % 64 + 128) = d at hd
    generalize UInt8.ofNat (c.toNat % 64 + 128) = e at he
    have hc : char4 a b d e = c := hchar _ (by rw [payload, payload, payload]; omega)
    rw [← hc]
    exact .four (width?_eq_some_iff.mpr (by omega)) (admitsSecond_iff.mpr (by omega))
      (isTail_iff.mpr (by omega)) (isTail_iff.mpr (by omega))

/-- The reader admits for each character the bytes of the character and no others. -/
theorem spells_iff {bytes : List UInt8} {c : Char} :
    Spells bytes c ↔ bytes = String.utf8EncodeChar c :=
  ⟨Spells.eq_utf8EncodeChar, fun h => h ▸ spells_utf8EncodeChar c⟩

/-- Behind bytes that it admits for a character, the reader goes on with that character done. -/
theorem Spells.decodeFrom_append {bytes : List UInt8} {c : Char} (h : Spells bytes c)
    (start : Nat) (done : List Char) (rest : List UInt8) :
    decodeFrom start done (bytes ++ rest) =
      decodeFrom (start + bytes.length) (c :: done) rest := by
  cases h with
  | one ha => simp [decodeFrom, ha]
  | two ha hb => simp [decodeFrom, ha, hb]
  | three ha hb hc => simp [decodeFrom, ha, hb, hc]
  | four ha hb hc hd => simp [decodeFrom, ha, hb, hc, hd]

/-- What stands behind the bytes of one character is read behind that character. -/
theorem Spells.exists_read_append {first rest : List UInt8} {c : Char} (h : Spells first c)
    {done cs : List Char}
    (hrest : ∃ read, cs = (c :: done).reverse ++ read ∧
      rest = read.flatMap String.utf8EncodeChar) :
    ∃ read, cs = done.reverse ++ read ∧ first ++ rest = read.flatMap String.utf8EncodeChar := by
  obtain ⟨read, hcs, hread⟩ := hrest
  refine ⟨c :: read, ?_, ?_⟩
  · rw [hcs, List.reverse_cons, List.append_assoc, List.singleton_append]
  · rw [List.flatMap_cons, ← spells_iff.mp h, hread]

/-- The characters that are read behind those that were done have the bytes that they are read
from. -/
theorem exists_read_of_decodeFrom {start : Nat} {done cs : List Char} {bytes : List UInt8}
    (h : decodeFrom start done bytes = .ok cs) :
    ∃ read, cs = done.reverse ++ read ∧ bytes = read.flatMap String.utf8EncodeChar := by
  fun_induction decodeFrom start done bytes with
  | case1 start done =>
    obtain rfl := Except.ok.inj h
    exact ⟨[], (List.append_nil _).symm, rfl⟩
  | case3 start done a rest ha ih => exact (Spells.one ha).exists_read_append (ih h)
  | case6 start done a b rest hb hone ha ih =>
    rw [Bool.not_eq_true, Bool.not_eq_false'] at hb
    exact (Spells.two ha hb).exists_read_append (ih h)
  | case9 start done a b hb c rest hc hone ha htwo ih =>
    rw [Bool.not_eq_true, Bool.not_eq_false'] at hb hc
    exact (Spells.three ha hb hc).exists_read_append (ih h)
  | case12 start done a n hone ha b hb htwo c hc hthree d rest hd ih =>
    have hfour : n = 4 := by
      have hmore : n ≠ 1 := hone
      rw [width?_eq_some_iff] at ha
      omega
    rw [Bool.not_eq_true, Bool.not_eq_false'] at hb hc hd
    exact (Spells.four (hfour ▸ ha) hb hc hd).exists_read_append (ih h)
  | case2 | case4 | case5 | case7 | case8 | case10 | case11 => cases h

/-- The bytes of characters are read as these characters. -/
theorem decodeFrom_flatMap (start : Nat) (done cs : List Char) :
    decodeFrom start done (cs.flatMap String.utf8EncodeChar) = .ok (done.reverse ++ cs) := by
  induction cs generalizing start done with
  | nil => rw [List.flatMap_nil, decodeFrom, List.append_nil]
  | cons c cs ih =>
    rw [List.flatMap_cons, (spells_utf8EncodeChar c).decodeFrom_append, ih, List.reverse_cons,
      List.append_assoc, List.singleton_append]

/-- Bytes are read as the characters whose bytes they are, and as nothing else. -/
theorem decode_eq_ok_iff {bytes : List UInt8} {cs : List Char} :
    decode bytes = .ok cs ↔ bytes = cs.flatMap String.utf8EncodeChar := by
  rw [decode]
  constructor
  · intro h
    obtain ⟨read, hcs, hbytes⟩ := exists_read_of_decodeFrom h
    rw [List.reverse_nil, List.nil_append] at hcs
    rw [hbytes, hcs]
  · rintro rfl
    exact decodeFrom_flatMap 0 [] cs

theorem mark_eq_utf8EncodeChar : mark = String.utf8EncodeChar '\ufeff' := by
  decide

theorem head?_of_decode_mark_append {rest : List UInt8} {cs : List Char}
    (h : decode (mark ++ rest) = .ok cs) : cs.head? = some '\ufeff' := by
  rw [decode, mark_eq_utf8EncodeChar, (spells_utf8EncodeChar '\ufeff').decodeFrom_append] at h
  obtain ⟨read, rfl, -⟩ := exists_read_of_decodeFrom h
  rfl

/-- A mark in front of the bytes of characters is left out. -/
theorem decodeMarked_mark_append (cs : List Char) :
    decodeMarked (mark ++ cs.flatMap String.utf8EncodeChar) = .ok cs := by
  generalize hbytes : cs.flatMap String.utf8EncodeChar = bytes
  have hlong : decide ((mark ++ bytes).length < 3) = false := by
    simp only [mark, List.length_append, List.length_cons, List.length_nil,
      decide_eq_false_iff_not]
    omega
  have hprefix : mark.isPrefixOf (mark ++ bytes) = true :=
    List.isPrefixOf_iff_prefix.mpr (List.prefix_append mark bytes)
  have hdrop : (mark ++ bytes).drop 3 = bytes := rfl
  simp only [decodeMarked, hlong, hprefix, hdrop, Bool.false_and, Bool.false_eq_true, if_false,
    if_true]
  exact decode_eq_ok_iff.mpr hbytes.symm

/-- The bytes of characters of which the first is not that of the mark are read as they are. -/
theorem decodeMarked_flatMap {cs : List Char} (h : cs.head? ≠ some '\ufeff') :
    decodeMarked (cs.flatMap String.utf8EncodeChar) = .ok cs := by
  have hread : decode (cs.flatMap String.utf8EncodeChar) = .ok cs := decode_eq_ok_iff.mpr rfl
  generalize cs.flatMap String.utf8EncodeChar = bytes at hread
  rw [decodeMarked]
  split
  · -- A mere beginning of the mark is no character, so only no bytes at all are meant.
    rename_i hshort
    simp only [Bool.and_eq_true, decide_eq_true_eq, List.isPrefixOf_iff_prefix] at hshort
    obtain ⟨hlength, hprefix⟩ := hshort
    match bytes, hlength with
    | [], _ => exact hread
    | [a], _ =>
      obtain rfl : a = 0xEF := by simpa [mark] using hprefix
      cases hread
    | [a, b], _ =>
      obtain ⟨rfl, rfl⟩ : a = 0xEF ∧ b = 0xBB := by simpa [mark] using hprefix
      cases hread
  · split
    · rename_i hmark
      obtain ⟨rest, rfl⟩ := List.isPrefixOf_iff_prefix.mp hmark
      exact absurd (head?_of_decode_mark_append hread) h
    · exact hread

end Utf8

/-- The bytes of a text in Latin-1, if each of its characters has one. -/
def latin1Bytes? (text : String) : Option (List UInt8) :=
  text.toList.mapM fun c => if c.toNat < 256 then some (UInt8.ofNat c.toNat) else none

namespace CodePage

theorem char?_latin1 (b : UInt8) : CodePage.latin1.char? b = some (Char.ofNat b.toNat) := by
  rw [char?]
  exact ite_self _

/-- Every byte sequence is read as a text in Latin-1. -/
theorem decode_latin1 (bytes : List UInt8) :
    CodePage.latin1.decode bytes = .ok (bytes.map fun b => Char.ofNat b.toNat) := by
  have hfrom : ∀ (bytes : List UInt8) (start : Nat) (done : List Char),
      CodePage.latin1.decodeFrom start done bytes =
        .ok (done.reverse ++ bytes.map fun b => Char.ofNat b.toNat) := by
    intro bytes
    induction bytes with
    | nil =>
      intro start done
      rw [decodeFrom, List.map_nil, List.append_nil]
    | cons b rest ih =>
      intro start done
      simp only [decodeFrom, char?_latin1]
      rw [ih, List.reverse_cons, List.append_assoc, List.singleton_append, List.map_cons]
  exact hfrom bytes 0 []

end CodePage

/-- The text that is read from bytes in Latin-1 has these bytes. -/
theorem latin1Bytes?_ofList_map (bytes : List UInt8) :
    latin1Bytes? (String.ofList (bytes.map fun b => Char.ofNat b.toNat)) = some bytes := by
  rw [latin1Bytes?, String.toList_ofList]
  induction bytes with
  | nil => rfl
  | cons b rest ih =>
    have hb : b.toNat < 256 := b.toNat_lt
    have hvalid : b.toNat.isValidChar := Or.inl (by omega)
    have hchar : (Char.ofNat b.toNat).toNat = b.toNat := by
      rw [Char.ofNat, dif_pos hvalid]
      rfl
    rw [List.map_cons, List.mapM_cons, hchar, if_pos hb, ih, UInt8.ofNat_toNat]
    rfl

/-- A text has the bytes of its characters, one after the other. -/
theorem toUTF8_eq_iff {text : String} {bytes : ByteArray} :
    text.toUTF8 = bytes ↔ bytes.data.toList = text.toList.flatMap String.utf8EncodeChar := by
  have hbytes : text.toUTF8 = (text.toList.flatMap String.utf8EncodeChar).toByteArray := by
    obtain ⟨cs, rfl⟩ : ∃ cs, text = String.ofList cs := ⟨text.toList, String.ofList_toList.symm⟩
    rw [String.toList_ofList]
    exact String.toByteArray_ofList
  rw [hbytes]
  constructor
  · rintro rfl
    exact List.toList_data_toByteArray
  · intro h
    refine ByteArray.ext (Array.toList_inj.mp ?_)
    rw [h, List.toList_data_toByteArray]

/-- Bytes are well-formed if they are those of a text. -/
theorem isValidUTF8_iff_exists_text {bytes : ByteArray} :
    bytes.IsValidUTF8 ↔ ∃ text : String, text.toUTF8 = bytes := by
  constructor
  · intro h
    exact ⟨String.ofByteArray bytes h, rfl⟩
  · rintro ⟨text, rfl⟩
    exact text.isValidUTF8

namespace Encoding

/-- Bytes that are read in an encoding without a mark of its own are a text if they are read as its
characters. -/
theorem ofPlain_eq_ok_iff {decoded : Except DecodeFault (List Char)} {text : String} :
    ofPlain decoded = .ok text ↔ decoded = .ok text.toList := by
  cases decoded with
  | error fault => exact iff_of_false nofun nofun
  | ok cs =>
    rw [ofPlain, Except.ok.injEq, Except.ok.injEq]
    constructor
    · rintro rfl
      exact String.toList_ofList.symm
    · rintro rfl
      exact String.ofList_toList

variable {e : Named}

/-- In UTF-8 bytes are read as the text whose bytes they are, and as nothing else. -/
theorem read_eq_ok_iff_of_utf8 (he : e.encoding = .utf8) {bytes : ByteArray} {text : String} :
    e.read bytes.data.toList = .ok text ↔ text.toUTF8 = bytes := by
  rw [Named.read, he, ofPlain_eq_ok_iff, Utf8.decode_eq_ok_iff, toUTF8_eq_iff]

/-- In UTF-8 all well-formed byte sequences can be read, and no others. -/
theorem exists_read_eq_ok_iff_of_utf8 (he : e.encoding = .utf8) {bytes : ByteArray} :
    (∃ text, e.read bytes.data.toList = .ok text) ↔ bytes.IsValidUTF8 := by
  rw [isValidUTF8_iff_exists_text]
  exact exists_congr fun _ => read_eq_ok_iff_of_utf8 he

/-- In UTF-8 with a mark, the bytes of a text are read as this text with the mark in front of them,
and also without it if the text does not start with the character of the mark. -/
theorem read_eq_ok_of_utf8Marked (he : e.encoding = .utf8Marked) {bytes : ByteArray} {text : String}
    (h : bytes = Utf8.mark.toByteArray ++ text.toUTF8 ∨
      bytes = text.toUTF8 ∧ text.toList.head? ≠ some '\ufeff') :
    e.read bytes.data.toList = .ok text := by
  rw [Named.read, he, ofPlain_eq_ok_iff]
  have htext := toUTF8_eq_iff.mp (rfl : text.toUTF8 = text.toUTF8)
  rcases h with rfl | ⟨rfl, hhead⟩
  · rw [ByteArray.data_append, Array.toList_append, htext, List.toList_data_toByteArray]
    exact Utf8.decodeMarked_mark_append text.toList
  · rw [htext]
    exact Utf8.decodeMarked_flatMap hhead

/-- In Latin-1 bytes are read as a text that has these bytes. -/
theorem latin1Bytes?_of_read (he : e.encoding = .page .latin1) {bytes : List UInt8} {text : String}
    (h : e.read bytes = .ok text) : latin1Bytes? text = some bytes := by
  have hread : e.read bytes = ofPlain (CodePage.latin1.decode bytes) := by rw [Named.read, he]
  rw [hread, CodePage.decode_latin1] at h
  obtain rfl := Except.ok.inj h
  exact latin1Bytes?_ofList_map bytes

end Encoding

end SourceSnapshot.Text
