import LegalEntity.Cache.Directory

namespace LegalEntity

namespace Digest

theorem length_bigEndian (n value : Nat) : (bigEndian n value).length = n := by
  simp [bigEndian]

theorem length_sha256 (s : List UInt8) : (sha256 s).length = 32 := by
  simp [sha256, State.toList, length_bigEndian]

theorem toList_hex (s : List UInt8) : (hex s).toList =
    s.flatMap fun b => [Nat.digitChar (b.toNat / 16), Nat.digitChar (b.toNat % 16)] := by
  rw [hex, String.toList_ofList]

theorem length_hex (s : List UInt8) : (hex s).toList.length = 2 * s.length := by
  rw [toList_hex]
  induction s with
  | nil => rfl
  | cons b s ih =>
    rw [List.flatMap_cons, List.length_append, ih, List.length_cons]
    simp only [List.length_cons, List.length_nil]
    omega

theorem digitChar_inj : ∀ m < 16, ∀ n < 16, Nat.digitChar m = Nat.digitChar n → m = n := by decide

theorem hex_injective {s t : List UInt8} (h : hex s = hex t) : s = t := by
  have hchars := congrArg String.toList h
  rw [toList_hex, toList_hex] at hchars
  clear h
  induction s generalizing t with
  | nil =>
    cases t with
    | nil => rfl
    | cons c t => cases hchars
  | cons b s ih =>
    cases t with
    | nil => cases hchars
    | cons c t =>
      simp only [List.flatMap_cons, List.cons_append, List.nil_append, List.cons.injEq] at hchars
      obtain ⟨hhigh, hlow, hrest⟩ := hchars
      have hb := b.toNat_lt
      have hc := c.toNat_lt
      have hhigh := digitChar_inj _ (by omega) _ (by omega) hhigh
      have hlow := digitChar_inj _ (by omega) _ (by omega) hlow
      have hbyte : b = c := UInt8.toNat_inj.1 (by omega)
      rw [hbyte, ih hrest]

end Digest

namespace Cache.Directory

theorem length_stem (key : String) : (stem key).toList.length = 64 := by
  rw [stem, Digest.length_hex, Digest.length_sha256]

def stagingEnding (entropy : UInt64) : String :=
  "." ++ Digest.hex (Digest.bigEndian 8 entropy.toNat) ++ ".tmp"

theorem stagingName_eq (key : String) (entropy : UInt64) :
    stagingName key entropy = stem key ++ stagingEnding entropy := by
  simp [stagingName, stagingEnding, String.append_assoc]

theorem stem_append_inj {key other a b : String} (h : stem key ++ a = stem other ++ b) :
    stem key = stem other ∧ a = b := by
  have hchars := congrArg String.toList h
  rw [String.toList_append, String.toList_append] at hchars
  have hlength := (length_stem key).trans (length_stem other).symm
  obtain ⟨hstem, hrest⟩ := List.append_inj hchars hlength
  exact ⟨String.toList_inj.1 hstem, String.toList_inj.1 hrest⟩

theorem stagingEnding_ne (entropy : UInt64) : stagingEnding entropy ≠ ".json" := by
  intro h
  have hlast := congrArg (fun s : String => s.toList.getLast?) h
  simp only [stagingEnding, String.toList_append, List.getLast?_append] at hlast
  exact absurd hlast (by simp)

end Cache.Directory

end LegalEntity
