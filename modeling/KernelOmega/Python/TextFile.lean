import Mathlib.Data.String.Basic

/-!
# Text mode

Python reads a file in text mode by decoding it and then replacing every line end, `\r\n` or a
lone `\r`, by `\n`. On a POSIX system it writes a text as it is, encoded in UTF-8. Reading is
the inverse of writing exactly for the files without a carriage return.

The encoding `open` assumes when none is given belongs to the locale. Of a locale only this is
used: it makes no carriage return out of other bytes.
-/

namespace Python

/-- Universal newlines: what `read` makes of a decoded text. -/
def universalNewlines : List Char → List Char
  | '\r' :: '\n' :: rest => '\n' :: universalNewlines rest
  | '\r' :: rest => '\n' :: universalNewlines rest
  | c :: rest => c :: universalNewlines rest
  | [] => []

/-- A text read with universal newlines has no carriage return, -/
theorem carriage_notMem_universalNewlines (text : List Char) :
    '\r' ∉ universalNewlines text := by
  fun_induction universalNewlines text with
  | case1 rest ih => simpa using ih
  | case2 rest _ ih => simpa using ih
  | case3 c rest _ other ih =>
    simp only [List.mem_cons, not_or]
    exact ⟨fun same => other same.symm, ih⟩
  | case4 => exact List.not_mem_nil

/-- and is the text that was written exactly when that had none. -/
theorem universalNewlines_eq_self_iff (text : List Char) :
    universalNewlines text = text ↔ '\r' ∉ text := by
  constructor
  · intro same
    rw [← same]
    exact carriage_notMem_universalNewlines text
  · intro none
    fun_induction universalNewlines text with
    | case1 rest _ => exact absurd List.mem_cons_self none
    | case2 rest _ _ => exact absurd List.mem_cons_self none
    | case3 c rest _ _ ih => rw [ih fun mem => none (List.mem_cons_of_mem c mem)]
    | case4 => rfl

/-! ## UTF-8 -/

/-- The strict UTF-8 decoder. -/
def decodeUtf8 (bytes : ByteArray) : Option String := String.fromUTF8? bytes

/-- A text as `write_text(encoding="utf-8")` puts it into a file. -/
def encodeUtf8 (text : String) : ByteArray := text.toByteArray

theorem encodeUtf8_injective {text text' : String} (same : encodeUtf8 text = encodeUtf8 text') :
    text = text' :=
  String.toByteArray_inj.mp same

/-- Bytes are decoded to the text they are the code of. -/
theorem decodeUtf8_eq_some_iff {bytes : ByteArray} {text : String} :
    decodeUtf8 bytes = some text ↔ encodeUtf8 text = bytes := by
  unfold decodeUtf8 String.fromUTF8? encodeUtf8
  constructor
  · intro decodes
    split at decodes
    · rw [← Option.some.inj decodes]
      rfl
    · cases decodes
  · rintro rfl
    rw [dif_pos text.isValidUTF8]
    exact congrArg some (String.toByteArray_inj.mp rfl)

@[simp] theorem decodeUtf8_encodeUtf8 (text : String) : decodeUtf8 (encodeUtf8 text) = some text :=
  decodeUtf8_eq_some_iff.mpr rfl

/-- Of all characters only the carriage return has its byte. -/
theorem carriage_mem_utf8EncodeChar {c : Char} (mem : (13 : UInt8) ∈ String.utf8EncodeChar c) :
    c = '\r' := by
  have byte : ∀ n, (13 : UInt8) = UInt8.ofNat n → n % 256 = 13 := by
    intro n same
    have values := congrArg UInt8.toNat same
    rw [UInt8.toNat_ofNat] at values
    exact values.symm
  have ascii : c.val.toNat = 13 := by
    unfold String.utf8EncodeChar at mem
    dsimp only at mem
    split at mem
    · have value := byte _ (List.mem_singleton.mp mem)
      omega
    split at mem
    · simp only [List.mem_cons, List.not_mem_nil, or_false] at mem
      rcases mem with same | same <;> · have value := byte _ same; omega
    split at mem
    · simp only [List.mem_cons, List.not_mem_nil, or_false] at mem
      rcases mem with same | same | same <;> · have value := byte _ same; omega
    · simp only [List.mem_cons, List.not_mem_nil, or_false] at mem
      rcases mem with same | same | same | same <;> · have value := byte _ same; omega
  exact Char.ext (UInt32.toNat_inj.mp ascii)

/-- The byte of a carriage return stands for one. -/
theorem carriage_mem_encodeUtf8_iff (text : String) :
    (13 : UInt8) ∈ (encodeUtf8 text).data.toList ↔ '\r' ∈ text.toList := by
  have bytes : (encodeUtf8 text).data.toList = text.toList.flatMap String.utf8EncodeChar := by
    rw [encodeUtf8, ← String.utf8Encode_toList, List.utf8Encode, List.toList_data_toByteArray]
  rw [bytes, List.mem_flatMap]
  constructor
  · rintro ⟨c, here, byte⟩
    rwa [carriage_mem_utf8EncodeChar byte] at here
  · exact fun here => ⟨'\r', here, by decide⟩

/-! ## Reading what is to be written back -/

/-- An encoding of texts: what it decodes, with no carriage return that was not in the bytes. -/
structure TextEncoding where
  decode : ByteArray → Option String
  carriage : ∀ {bytes text}, decode bytes = some text → '\r' ∈ text.toList →
    (13 : UInt8) ∈ bytes.data.toList

/-- UTF-8 as an encoding. -/
def utf8 : TextEncoding where
  decode := decodeUtf8
  carriage := by
    intro bytes text decodes mem
    rw [← decodeUtf8_eq_some_iff.mp decodes]
    exact (carriage_mem_encodeUtf8_iff text).mpr mem

theorem utf8_decode_encodeUtf8 (text : String) : utf8.decode (encodeUtf8 text) = some text :=
  decodeUtf8_encodeUtf8 text

/-- `read_text`, or a decoding error. -/
def readText (encoding : TextEncoding) (bytes : ByteArray) : Option String :=
  (encoding.decode bytes).map fun text => String.ofList (universalNewlines text.toList)

theorem readText_of_decodes {encoding : TextEncoding} {bytes : ByteArray} {decoded : String}
    (decodes : encoding.decode bytes = some decoded) :
    readText encoding bytes = some (String.ofList (universalNewlines decoded.toList)) := by
  rw [readText, decodes, Option.map_some]

/-- What was read is what would be stored as these bytes exactly when the bytes decode to their
UTF-8 text and have no carriage return. -/
theorem encodeUtf8_readText_iff (encoding : TextEncoding) {bytes : ByteArray} {text : String}
    (reads : readText encoding bytes = some text) :
    encodeUtf8 text = bytes ↔
      ∃ decoded, encoding.decode bytes = some decoded ∧ encodeUtf8 decoded = bytes ∧
        '\r' ∉ decoded.toList := by
  obtain ⟨decoded, decodes, rfl⟩ := Option.map_eq_some_iff.mp reads
  constructor
  · intro same
    have none : '\r' ∉ decoded.toList := by
      intro mem
      have byte := encoding.carriage decodes mem
      rw [← same] at byte
      have left := (carriage_mem_encodeUtf8_iff _).mp byte
      rw [String.toList_ofList] at left
      exact carriage_notMem_universalNewlines _ left
    rw [(universalNewlines_eq_self_iff _).mpr none, String.ofList_toList] at same
    exact ⟨decoded, decodes, same, none⟩
  · rintro ⟨decoded', decodes', same, none⟩
    obtain rfl := Option.some.inj (decodes.symm.trans decodes')
    rwa [(universalNewlines_eq_self_iff _).mpr none, String.ofList_toList]

end Python
