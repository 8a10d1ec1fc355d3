import Mathlib.Data.List.Basic
import Quorum.Files

/-!
# Texts and their bytes

The UTF-8 form of a text is that of its characters, one after the other, and the text can be
read back from it.  A character takes at least one byte.
-/

namespace Quorum

@[simp]
theorem utf8_ofList (chars : List Char) :
    utf8 (String.ofList chars) = chars.flatMap String.utf8EncodeChar := by
  rw [utf8, String.toList_ofList]

theorem length_le_length_utf8 (chars : List Char) :
    chars.length ≤ (utf8 (String.ofList chars)).length := by
  rw [utf8_ofList]
  induction chars with
  | nil => simp
  | cons c rest ih =>
      have hpos := c.utf8Size_pos
      simp at ih ⊢
      omega

/-- A text is read back from its bytes. -/
theorem ofUtf8?_utf8 (text : String) : ofUtf8? (utf8 text) = some text := by
  have hbytes : (⟨(utf8 text).toArray⟩ : ByteArray) = text.toByteArray := by
    apply ByteArray.ext
    rw [← String.utf8Encode_toList, List.utf8Encode, List.data_toByteArray, utf8]
  rw [ofUtf8?, hbytes, String.fromUTF8?, dif_pos text.isValidUTF8]
  rfl

end Quorum
