import LegalEntity.Proofs.Doubles.Rounding
import LegalEntity.Random.ChaCha

namespace LegalEntity.Random

open Doubles Float.Model Float.Model.UnpackedFloat

theorem hasValue_spread : HasValue spread (dyadic (2 ^ 52 + 1) (-51)) :=
  hasValue_of_unpack (s := .positive) (by decide) rfl
    ⟨by decide, by decide, .inl (by decide)⟩ (by decide)

theorem hasValue_ofBits {n : Nat} (hn : n < 2 ^ 52) {b : UInt64}
    (hb : b.toNat = 2 ^ 52 * 1023 + n) : HasValue (Float.ofBits b) (dyadic (2 ^ 52 + n) (-52)) := by
  have hpos : 0 < 2 ^ 52 + n := by omega
  have hreduced : IsReduced (2 ^ 52 + n) (-52) := ⟨by omega, by decide, .inl (by omega)⟩
  have hbits : b.toBitVec.toNat = 2 ^ 52 * 1023 + n := hb
  have hsign : signOf b.toBitVec.toNat = .positive := if_neg (by omega)
  have hunpack := (unpacks_toNat b.toBitVec).eq_normal (by omega) (by omega) (d := -52) hpos
    (by omega) (by omega)
  rw [hsign] at hunpack
  have hpacked : (Float.ofBits b).toModel.unpack =
      (Float.Model.pack (UnpackedFloat.unpack Format.binary64 b.toBitVec)).unpack := rfl
  rw [hunpack, unpack_pack_reduced .positive hpos hreduced (by decide)] at hpacked
  exact hasValue_of_unpack hpos hpacked hreduced (by decide)

theorem toNat_fraction (w : UInt64) :
    ((0x3FF0000000000000 : UInt64) ||| (w >>> 12)).toNat = 2 ^ 52 * 1023 + w.toNat / 2 ^ 12 := by
  have hw := w.toNat_lt
  have hlt : w.toNat / 2 ^ 12 < 2 ^ 52 := by omega
  rw [UInt64.toNat_or, UInt64.toNat_shiftRight, Nat.two_pow_add_eq_or_of_lt hlt]
  simp [Nat.shiftRight_eq_div_pow]

theorem draw_between (seed : UInt64) (i : Nat) : ∃ r, HasValue (draw seed i) r ∧ -1 ≤ r ∧ r ≤ 1 := by
  obtain ⟨n, hn, hbits⟩ : ∃ n < 2 ^ 52,
      ((0x3FF0000000000000 : UInt64) ||| (word seed i >>> 12)).toNat = 2 ^ 52 * 1023 + n :=
    ⟨_, by have := (word seed i).toNat_lt; omega, toNat_fraction _⟩
  have hstart := hasValue_ofBits hn hbits
  have hlast : HasValue (Float.ofBits 0x3FEFFFFFFFFFFFFE) (dyadic (2 ^ 53 - 2) (-53)) :=
    hasValue_of_unpack (s := .positive) (by decide) rfl
      ⟨by decide, by decide, .inl (by decide)⟩ (by decide)
  have hfraction : 0 ≤ dyadic (2 ^ 52 + n) (-52) - 1 ∧
      dyadic (2 ^ 52 + n) (-52) - 1 ≤ dyadic (2 ^ 53 - 2) (-53) := by
    have hcast : ((n + 1 : Nat) : Rat) ≤ (2 ^ 52 : Nat) := Nat.cast_le.2 hn
    have hpos : (0 : Rat) ≤ n := Nat.cast_nonneg n
    push_cast at hcast
    norm_num [dyadic]
    constructor <;> linarith
  have hspread : 0 ≤ dyadic (2 ^ 52 + 1) (-51) := dyadic_nonneg _ _
  -- What rounding adds to the factor is what the fractions lack of one.
  have hwidest : dyadic (2 ^ 53 - 2) (-53) * dyadic (2 ^ 52 + 1) (-51) ≤ 2 := by norm_num [dyadic]
  obtain ⟨u, hu, hu0, hu1⟩ :=
    (isRounded_sub hstart hasValue_one).between hasValue_zero hlast hfraction.1 hfraction.2
  obtain ⟨v, hv, hv0, hv1⟩ := (isRounded_mul hu hasValue_spread).between hasValue_zero hasValue_two
    (mul_nonneg hu0 hspread) ((mul_le_mul_of_nonneg_right hu1 hspread).trans hwidest)
  exact (isRounded_add hv hasValue_one.neg).between hasValue_one.neg hasValue_one (by linarith)
    (by linarith)

end LegalEntity.Random
