/-!
# Text as bytes

The UTF-8 bytes of a text and the text of such bytes. Main statements: the two directions undo
each other, so a text has one form in bytes.
-/
namespace Transducer.Text

/-- The bytes of a text. -/
def utf8 (text : String) : List UInt8 := text.toByteArray.data.toList

/-- The text with these bytes, if they form one. -/
def ofUtf8? (bytes : List UInt8) : Option String := String.fromUTF8? ⟨bytes.toArray⟩

theorem ofUtf8?_utf8 (text : String) : ofUtf8? (utf8 text) = some text := by
  simp only [ofUtf8?, utf8, Array.toArray_toList, String.fromUTF8?]
  exact dif_pos text.isValidUTF8

theorem utf8_of_ofUtf8? {bytes : List UInt8} {text : String} (h : ofUtf8? bytes = some text) :
    utf8 text = bytes := by
  simp only [ofUtf8?, String.fromUTF8?] at h
  split at h
  · cases h; simp [utf8, String.fromUTF8]
  · cases h

end Transducer.Text
