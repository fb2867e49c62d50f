import LegalEntity.Text.Utf8

namespace LegalEntity.Text

def bytes (cs : List Char) : List UInt8 := cs.flatMap String.utf8EncodeChar

section

variable {c : Char} {b : UInt8}

@[simp] theorem bytes_nil : bytes [] = [] := rfl

theorem bytes_cons (c : Char) (cs : List Char) :
    bytes (c :: cs) = String.utf8EncodeChar c ++ bytes cs := rfl

@[simp] theorem bytes_append (cs ds : List Char) : bytes (cs ++ ds) = bytes cs ++ bytes ds :=
  List.flatMap_append

theorem utf8_ofList (cs : List Char) : utf8 (String.ofList cs) = bytes cs := by
  rw [utf8, String.toUTF8_eq_toByteArray, String.toByteArray_ofList]
  exact List.toList_data_toByteArray

@[simp] theorem ofUtf8?_utf8 (s : String) : ofUtf8? (utf8 s) = some s := by
  have hbytes : (⟨(utf8 s).toArray⟩ : ByteArray) = s.toByteArray := rfl
  rw [ofUtf8?, hbytes, String.fromUTF8?, dif_pos s.isValidUTF8]
  rfl

@[simp] theorem ofUtf8?_bytes (cs : List Char) : ofUtf8? (bytes cs) = some (String.ofList cs) := by
  rw [← utf8_ofList, ofUtf8?_utf8]

theorem length_le_bytes (cs : List Char) : cs.length ≤ (bytes cs).length := by
  induction cs with
  | nil => exact Nat.le_refl 0
  | cons c cs ih =>
    have hsize := c.utf8Size_pos
    rw [bytes_cons, List.length_append, String.length_utf8EncodeChar, List.length_cons]
    omega

theorem utf8EncodeChar_of_lt (h : c.toNat < 0x80) :
    String.utf8EncodeChar c = [c.toNat.toUInt8] := by
  have hc : c.val.toNat ≤ 127 := Nat.le_of_lt_succ h
  simp only [String.utf8EncodeChar]
  rw [if_pos hc]
  rfl

theorem le_of_mem_utf8EncodeChar (h : 0x80 ≤ c.toNat) (hb : b ∈ String.utf8EncodeChar c) :
    0x80 ≤ b.toNat := by
  have hc : ¬c.val.toNat ≤ 127 := Nat.not_le.2 h
  simp only [String.utf8EncodeChar] at hb
  rw [if_neg hc] at hb
  have hfirst (n low : Nat) (hlow : 0x80 ≤ low) (hn : n + low < 256) :
      0x80 ≤ (UInt8.ofNat (n + low)).toNat := by
    rw [UInt8.toNat_ofNat', Nat.mod_eq_of_lt hn]
    omega
  split at hb
  · simp only [List.mem_cons, List.not_mem_nil, or_false] at hb
    rcases hb with rfl | rfl <;> exact hfirst _ _ (by decide) (by omega)
  · split at hb
    · simp only [List.mem_cons, List.not_mem_nil, or_false] at hb
      rcases hb with rfl | rfl | rfl <;> exact hfirst _ _ (by decide) (by omega)
    · simp only [List.mem_cons, List.not_mem_nil, or_false] at hb
      rcases hb with rfl | rfl | rfl | rfl <;> exact hfirst _ _ (by decide) (by omega)

end

end LegalEntity.Text
