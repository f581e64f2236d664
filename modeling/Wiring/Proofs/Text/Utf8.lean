import Mathlib.Data.List.Basic
import Wiring.Text.Utf8

/-!
Texts and their bytes. Bytes are those of one text at most, and bytes that follow those of a text
are again those of a text, so that a text begins with another one if its bytes do.
-/
namespace Wiring.Text

variable {s t : String}

theorem toList_loop_eq (b : ByteArray) (i : Nat) (front : List UInt8) :
    ByteArray.toList.loop b i front = front.reverse ++ b.data.toList.drop i := by
  rw [ByteArray.toList.loop]
  split
  · next inside =>
      rw [toList_loop_eq b (i + 1)]
      have inside' : i < b.data.toList.length := by simpa using inside
      rw [List.drop_eq_getElem_cons inside', List.reverse_cons, List.append_assoc,
        List.singleton_append]
      congr 2
      exact getElem!_pos b.data i (by simpa using inside)
  · next outside =>
      rw [List.drop_eq_nil_of_le (by simpa using outside), List.append_nil]
termination_by b.size - i

theorem encode_eq (s : String) : encode s = s.toByteArray.data.toList :=
  (toList_loop_eq _ 0 []).trans (by rw [List.drop_zero]; rfl)

/-- Texts of the same bytes are the same. -/
theorem encode_injective (h : encode s = encode t) : s = t := by
  rw [encode_eq, encode_eq] at h
  exact String.toByteArray_inj.1 (ByteArray.ext (Array.toList_inj.1 h))

theorem encode_append (s t : String) : encode (s ++ t) = encode s ++ encode t := by
  simp [encode_eq]

theorem isValidUTF8_utf8Encode_append_iff (cs : List Char) {b : ByteArray} :
    (cs.utf8Encode ++ b).IsValidUTF8 ↔ b.IsValidUTF8 := by
  induction cs with
  | nil => simp
  | cons c cs ih =>
      rw [← List.singleton_append, List.utf8Encode_append, ByteArray.append_assoc,
        ByteArray.isValidUTF8_utf8Encode_singleton_append_iff, ih]

/-- A text begins with another one if its bytes do. -/
theorem isPrefix_of_encode (h : encode s <+: encode t) : s.toList <+: t.toList := by
  obtain ⟨rest, h⟩ := h
  have bytes : s.toByteArray ++ ⟨rest.toArray⟩ = t.toByteArray := by
    rw [encode_eq, encode_eq] at h
    exact ByteArray.ext (Array.toList_inj.1 (by simpa using h))
  have valid : (s.toByteArray ++ ⟨rest.toArray⟩).IsValidUTF8 := bytes ▸ t.isValidUTF8
  rw [← s.ofList_toList, String.toByteArray_ofList, isValidUTF8_utf8Encode_append_iff] at valid
  have whole : t = s ++ String.fromUTF8 _ valid :=
    String.toByteArray_inj.1 (by rw [String.toByteArray_append, ← bytes]; rfl)
  rw [whole, String.toList_append]
  exact List.prefix_append ..

/-- Bytes say the text that they are the bytes of. -/
theorem decode?_eq_some_iff {bytes : List UInt8} : decode? bytes = some s ↔ bytes = encode s := by
  rw [decode?, String.fromUTF8?, encode_eq]
  constructor
  · intro h
    split at h
    · obtain rfl := Option.some.inj h
      rfl
    · cases h
  · rintro rfl
    have valid : (⟨s.toByteArray.data.toList.toArray⟩ : ByteArray).IsValidUTF8 := by
      simpa using s.isValidUTF8
    rw [dif_pos valid]
    exact congrArg some (String.toByteArray_inj.1 (ByteArray.ext (by simp [String.fromUTF8])))

@[simp] theorem decode?_encode (s : String) : decode? (encode s) = some s :=
  decode?_eq_some_iff.2 rfl

end Wiring.Text
