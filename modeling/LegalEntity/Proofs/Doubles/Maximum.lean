import LegalEntity.Proofs.Doubles.Numbers
/-!
The larger of doubles does not depend on their order if none is the negative zero, which equals the
positive one and is yet another double. No difference to one and no product of a hundred is it,
unless a factor is.
-/

namespace LegalEntity.Doubles

open Float.Model Float.Model.UnpackedFloat Scalar

theorem toNat_toBits_negativeZero : (-0.0 : Float).toBits.toNat = 2 ^ 63 := by decide +kernel

theorem eq_of_place_eq {x y : Float} (hx : x ≠ -0.0) (hy : y ≠ -0.0) (h : place x = place y) :
    x = y := by
  have hne {z : Float} (hz : z ≠ -0.0) : z.toBits.toNat ≠ 2 ^ 63 := fun heq =>
    hz (Float.toBits_inj.1 (UInt64.toNat_inj.1 (heq.trans toNat_toBits_negativeZero.symm)))
  have hx := hne hx
  have hy := hne hy
  have hx' := x.toBits.toNat_lt
  have hy' := y.toBits.toNat_lt
  apply Float.toBits_inj.1
  apply UInt64.toNat_inj.1
  simp only [place, magnitude, isNegative, decide_eq_true_eq] at h
  split at h <;> split at h <;> omega

def rank (x : Float) : WithBot Int := if x = Float.nan then ⊥ else (place x : WithBot Int)

theorem eq_of_rank_eq {x y : Float} (hx : x ≠ -0.0) (hy : y ≠ -0.0) (h : rank x = rank y) :
    x = y := by
  simp only [rank] at h
  split at h <;> split at h
  · rename_i hx hy
    exact hx.trans hy.symm
  · cases h
  · cases h
  · exact eq_of_place_eq hx hy (WithBot.coe_inj.1 h)

theorem lt_iff_rank_lt {x y : Float} (hx : x ≠ Float.nan) : x < y ↔ rank x < rank y := by
  rw [lt_iff, rank, rank, if_neg hx]
  by_cases hy : y = Float.nan
  · simp [hy]
  · rw [if_neg hy, WithBot.coe_lt_coe]
    exact ⟨fun h => h.2.2, fun h => ⟨hx, hy, h⟩⟩

theorem rank_larger (x y : Float) : rank (larger x y) = max (rank x) (rank y) := by
  rw [larger]
  by_cases hy : y = Float.nan
  · have hbot : rank y = ⊥ := if_pos hy
    have hnot : ¬y < x := fun hlt => (lt_iff.1 hlt).1 hy
    have hself : ¬(y == y) = true := fun heq => (beq_iff.1 heq).1 hy
    rw [if_neg hnot, if_neg hself, hbot, max_bot_right]
  · rw [if_pos (Float.beq_self_iff.2 hy)]
    split
    · rename_i hlt
      exact (max_eq_left_of_lt ((lt_iff_rank_lt hy).1 hlt)).symm
    · rename_i hnot
      exact (max_eq_right (not_lt.1 (mt (lt_iff_rank_lt hy).2 hnot))).symm

theorem larger_ne_negativeZero {x y : Float} (hx : x ≠ -0.0) (hy : y ≠ -0.0) :
    larger x y ≠ -0.0 := by
  rw [larger]
  split
  · exact hx
  · split
    · exact hy
    · exact hx

theorem larger_right_comm {x y z : Float} (hx : x ≠ -0.0) (hy : y ≠ -0.0) (hz : z ≠ -0.0) :
    larger (larger x y) z = larger (larger x z) y := by
  apply eq_of_rank_eq
  · exact larger_ne_negativeZero (larger_ne_negativeZero hx hy) hz
  · exact larger_ne_negativeZero (larger_ne_negativeZero hx hz) hy
  · rw [rank_larger, rank_larger, rank_larger, rank_larger, max_right_comm]

def IsUnsigned : UnpackedFloat → Prop
  | .zero s => s = .positive
  | .finite _ m e _ => m < 2 ^ 53 ∧ -1074 ≤ e
  | _ => True

theorem unpack_pack_zero (s : Sign) : (Float.Model.pack (.zero s)).unpack = .zero s := by
  have h := unpacks_packComponents s 0#11 0#52
  rw [unpack_pack]
  generalize hf : UnpackedFloat.unpack Format.binary64 _ = f at h
  cases h with
  | zero => exact hf
  | subnormal hm => cases hm
  | normal he => cases he

theorem IsUnsigned.unpack_pack_ne {f : UnpackedFloat} (h : IsUnsigned f) :
    (Float.Model.pack f).unpack ≠ .zero .negative := by
  cases f with
  | notANumber => exact nofun
  | infinity s =>
    rw [unpack_pack_infinity]
    exact nofun
  | zero s =>
    rw [show s = .positive from h, unpack_pack_zero]
    exact nofun
  | finite s m e hm =>
    rcases unpack_pack_finite s hm h.1 h.2 with hpack | ⟨n, d, hn, hpack⟩ <;> rw [hpack] <;>
      exact nofun

theorem IsUnsigned.ofModel_pack_ne {f : UnpackedFloat} (h : IsUnsigned f) :
    Float.ofModel (.pack f) ≠ -0.0 := fun heq =>
  h.unpack_pack_ne (congrArg (·.toModel.unpack) heq)

theorem ofModel_pack_unpack (x : Float) : Float.ofModel (.pack x.toModel.unpack) = x := by
  have hpack := pack_unpack_of_valid x.toModel.valid
  apply Float.toBits_inj.1
  exact congrArg UInt64.ofBitVec hpack

theorem Stands.isUnsigned {f : UnpackedFloat} {z : Int} (h : Stands f z)
    (hf : f ≠ .zero .negative) : IsUnsigned f := by
  cases h with
  | infinity s => trivial
  | zero s =>
    cases s with
    | positive => rfl
    | negative => exact absurd rfl hf
  | finite s m e hm hm' he he' h => exact ⟨hm', he⟩

theorem isUnsigned_unpack {x : Float} (hx : x ≠ -0.0) : IsUnsigned x.toModel.unpack := by
  rcases notANumber_or_stands x with h | h
  · rw [h]
    trivial
  · apply h.isUnsigned
    intro hzero
    have hpack := ofModel_pack_unpack x
    rw [hzero] at hpack
    exact hx hpack.symm

theorem isUnsigned_roundWithAccuracy (s : Sign) {m : Nat} {e : Int} (hm : 0 < m)
    (h : -1074 ≤ m.log2 + e) : IsUnsigned (roundWithAccuracy Format.binary64 s m e .exact) := by
  obtain ⟨n, d, hn, hround, hlt, hle⟩ := roundWithAccuracy_eq_finite s hm h .exact
  rw [hround]
  exact ⟨hlt, hle⟩

theorem isUnsigned_round (s : Sign) {m : Nat} {e : Int} (hm : 0 < m) (he : -1074 ≤ e) :
    IsUnsigned (UnpackedFloat.round Format.binary64 s m e) := by
  have htarget : -1074 ≤ Format.binary64.targetExponent (totalExponent m e) := Int.le_max_right ..
  have hshift : 0 < m <<< (e - Format.binary64.targetExponent (totalExponent m e)).toNat := by
    rw [Nat.shiftLeft_eq]
    exact Nat.mul_pos hm (Nat.two_pow_pos _)
  exact isUnsigned_roundWithAccuracy s hshift (by omega)

theorem isUnsigned_normalize (m : Int) {e : Int} (he : -1074 ≤ e) :
    IsUnsigned (UnpackedFloat.normalize Format.binary64 m e .positive) := by
  rw [UnpackedFloat.normalize]
  split
  · rename_i hlt
    have hlt := Int.compare_eq_lt.1 hlt
    exact isUnsigned_round _ (by omega) he
  · rfl
  · rename_i hgt
    have hgt := Int.compare_eq_gt.1 hgt
    exact isUnsigned_round _ (by omega) he

theorem one_sub_ne_negativeZero (x : Float) : 1.0 - x ≠ -0.0 := by
  apply IsUnsigned.ofModel_pack_ne
  have hone : (1.0 : Float).toModel.unpack = .finite .positive (2 ^ 52) (-52) (by decide) := rfl
  have hstands := notANumber_or_stands x
  rw [hone]
  cases hunpack : x.toModel.unpack with
  | notANumber | infinity s => trivial
  | zero s => exact ⟨by decide, by decide⟩
  | finite s m e hm =>
    rw [hunpack] at hstands
    rcases hstands with h | h
    · cases h
    · exact isUnsigned_normalize _ (Int.le_min.2 ⟨by decide, h.exponent⟩)

theorem mul_hundred_ne_negativeZero {x : Float} (hx : x ≠ -0.0) : x * 100.0 ≠ -0.0 := by
  apply IsUnsigned.ofModel_pack_ne
  have hhundred : (100.0 : Float).toModel.unpack =
      .finite .positive (25 * 2 ^ 48) (-46) (by decide) := rfl
  have hunsigned := isUnsigned_unpack hx
  rw [hhundred]
  cases hunpack : x.toModel.unpack with
  | notANumber | infinity s => trivial
  | zero s =>
    rw [hunpack] at hunsigned
    rw [show s = .positive from hunsigned]
    rfl
  | finite s m e hm =>
    rw [hunpack] at hunsigned
    have hlog : 52 ≤ (m * (25 * 2 ^ 48)).log2 := (Nat.le_log2 (by omega)).2 (by omega)
    exact isUnsigned_roundWithAccuracy _ (by omega) (by have := hunsigned.2; omega)

end LegalEntity.Doubles
