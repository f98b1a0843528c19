import Mathlib.Tactic.Common

/-!
# Strings as bytes

A string is the sequence of bytes of its UTF-8 encoding.
-/

namespace Library

/-- The UTF-8 bytes of a string. -/
def utf8 (s : String) : List UInt8 := s.toUTF8.data.toList

/-- The string that the bytes encode, if they are valid UTF-8. -/
def ofUtf8 (bytes : List UInt8) : Option String := String.fromUTF8? ⟨bytes.toArray⟩

theorem utf8_injective : Function.Injective utf8 := by
  intro s t h
  apply String.toByteArray_inj.1
  have hdata : s.toUTF8.data = t.toUTF8.data := Array.toList_inj.1 h
  exact ByteArray.ext hdata

theorem ofUtf8_utf8 (s : String) : ofUtf8 (utf8 s) = some s := by
  have hbytes : (⟨(utf8 s).toArray⟩ : ByteArray) = s.toByteArray := by
    apply ByteArray.ext
    simp [utf8]
  rw [ofUtf8, hbytes, String.fromUTF8?, dif_pos s.isValidUTF8]
  rfl

theorem utf8_of_ofUtf8 {bytes : List UInt8} {s : String} (h : ofUtf8 bytes = some s) :
    utf8 s = bytes := by
  rw [ofUtf8, String.fromUTF8?] at h
  split at h
  · cases h
    simp [utf8, String.fromUTF8]
  · cases h

end Library
