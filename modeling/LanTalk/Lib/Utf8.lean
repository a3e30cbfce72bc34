/-
  LanTalk.Lib.Utf8 — text in UTF-8, cut after some bytes.

  Proved: `validUtf8_take_iff`, the first bytes of such text are such text if and only if the
  byte behind the cut, if there is one, is the first of a character.
-/

import LanTalk.Lib.Bytes

namespace LanTalk.Lib

def ValidUtf8 (s : Bytes) : Prop := s.toByteArray.IsValidUTF8

instance (s : Bytes) : Decidable (ValidUtf8 s) := inferInstanceAs (Decidable s.toByteArray.IsValidUTF8)

theorem validUtf8_append {s r : Bytes} (hs : ValidUtf8 s) (hr : ValidUtf8 r) : ValidUtf8 (s ++ r) := by
  rw [ValidUtf8, List.toByteArray_append]
  exact hs.append hr

theorem toByteArray_take (s : Bytes) (n : Nat) : (s.take n).toByteArray = s.toByteArray.extract 0 n := by
  apply ByteArray.ext
  rw [List.data_toByteArray, ByteArray.data_extract, List.data_toByteArray, List.extract_toArray,
    List.extract_eq_take_drop]
  simp

theorem validUtf8_take_iff {s : Bytes} (hs : ValidUtf8 s) (n : Nat) :
    ValidUtf8 (s.take n) ↔ ∀ b, s[n]? = some b → b.IsUTF8FirstByte := by
  by_cases hn : n < s.length
  · -- the cut is a position in the text
    let text : String := .ofByteArray s.toByteArray hs
    have hsize : text.rawEndPos.byteIdx = s.length := by
      rw [String.byteIdx_rawEndPos, ← String.size_toByteArray]
      exact List.size_toByteArray
    have hlt : (⟨n⟩ : String.Pos.Raw) < text.rawEndPos := by
      rw [String.Pos.Raw.lt_iff, hsize]
      exact hn
    have hne : (⟨n⟩ : String.Pos.Raw) ≠ text.rawEndPos := fun e =>
      absurd (e ▸ hlt) (by simp [String.Pos.Raw.lt_iff])
    have hbyte : text.getUTF8Byte ⟨n⟩ hlt = s[n] := List.getElem_toByteArray
    calc ValidUtf8 (s.take n)
        ↔ String.Pos.Raw.IsValid text ⟨n⟩ := by
          rw [String.Pos.Raw.isValid_iff_isValidUTF8_extract_zero, ValidUtf8, toByteArray_take]
          exact ⟨fun h => ⟨String.Pos.Raw.le_of_lt hlt, h⟩, fun h => h.2⟩
      _ ↔ (text.getUTF8Byte ⟨n⟩ hlt).IsUTF8FirstByte := by
          rw [String.Pos.Raw.isValid_iff_isUTF8FirstByte]
          exact ⟨fun h => (h.resolve_left hne).2, fun h => Or.inr ⟨hlt, h⟩⟩
      _ ↔ ∀ b, s[n]? = some b → b.IsUTF8FirstByte := by
          rw [hbyte, List.getElem?_eq_getElem hn]
          exact ⟨fun h b hb => Option.some.inj hb ▸ h, fun h => h _ rfl⟩
  · have hle := Nat.not_lt.mp hn
    rw [List.take_of_length_le hle, List.getElem?_eq_none hle]
    exact ⟨fun _ b hb => (by cases hb), fun _ => hs⟩

end LanTalk.Lib
