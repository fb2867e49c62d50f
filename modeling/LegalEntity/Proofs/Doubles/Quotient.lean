import LegalEntity.Proofs.Doubles.Infinity

namespace LegalEntity.Doubles

open Float.Model Float.Model.UnpackedFloat

theorem cut_div (m : Nat) {n : Nat} (hn : 0 < n) (e : Int) :
    Cut (m / n) e (accuracyOfFraction (m % n) n) (dyadic m e / n) := by
  have hn' : (0 : Rat) < n := Nat.cast_pos.2 hn
  have hdivide := Nat.div_add_mod m n
  have hscale {l : Nat} : dyadic l e * n = dyadic (l * n) e := by
    rw [dyadic, dyadic]
    push_cast
    ring
  rw [accuracyOfFraction]
  split
  · rename_i hzero
    rw [hzero, add_zero, mul_comm] at hdivide
    have heq : dyadic m e / n = dyadic (m / n) e := by
      rw [div_eq_iff hn'.ne', hscale, hdivide]
    rw [heq]
    exact .exact
  · rename_i hrest
    have hlt := Nat.mod_lt m hn
    have hlow : m / n * n < m := by
      rw [mul_comm]
      omega
    have hhigh : m < (m / n + 1) * n := by
      rw [add_mul, mul_comm, one_mul]
      omega
    refine .inexact ?_ ?_
    · rw [lt_div_iff₀ hn', hscale, ← not_le, dyadic_le_dyadic]
      exact not_le.2 hlow
    · rw [div_lt_iff₀ hn', hscale, ← not_le, dyadic_le_dyadic]
      exact not_le.2 hhigh

theorem signed_div_signed (s t : Sign) (p q : Rat) :
    signed s p / signed t q = signed (s / t) (p / q) := by
  cases s <;> cases t
  · exact neg_div_neg_eq p q
  · exact neg_div q p
  · exact div_neg p
  · rfl

/-- The numerator is made long enough for the quotient to have all the bits of a double. -/
theorem full_or_low {m n : Nat} {e d E : Int} (hm : 0 < m) (hn : 0 < n)
    (hE : E = min (e - d) (max (m.log2 + 1 + e - (n.log2 + 1 + d) - 53) (-1074))) :
    E ≤ max (((m <<< (e - d - E).toNat / n).log2 : Int) + E - 52) (-1074) := by
  by_cases hlow : E ≤ -1074
  · omega
  · generalize hk : (e - d - E).toNat = k
    have hbits : 52 + (n.log2 + 1) ≤ m.log2 + k := by omega
    have hfull : 2 ^ 52 ≤ m <<< k / n := by
      rw [Nat.le_div_iff_mul_le hn, Nat.shiftLeft_eq]
      calc 2 ^ 52 * n ≤ 2 ^ 52 * 2 ^ (n.log2 + 1) := Nat.mul_le_mul_left _ Nat.lt_log2_self.le
        _ = 2 ^ (52 + (n.log2 + 1)) := (pow_add 2 52 _).symm
        _ ≤ 2 ^ (m.log2 + k) := Nat.pow_le_pow_right (by decide) hbits
        _ = 2 ^ m.log2 * 2 ^ k := pow_add 2 _ _
        _ ≤ m * 2 ^ k := Nat.mul_le_mul_right _ (Nat.log2_self_le hm.ne')
    have hlog := (Nat.le_log2 (by omega)).2 hfull
    omega

theorem isRounded_div {x y : Float} {p q : Rat} (hx : HasValue x p) (hy : HasValue y q)
    (hq : q ≠ 0) : IsRounded (p / q) (x / y) := by
  change IsRounded _
    (.ofModel (.pack (UnpackedFloat.div Format.binary64 x.toModel.unpack y.toModel.unpack)))
  rw [HasValue] at hx hy
  generalize x.toModel.unpack = f at hx
  generalize y.toModel.unpack = g at hy
  cases hy with
  | zero t => exact absurd rfl hq
  | @finite t n d hn h' hd =>
    cases hx with
    | zero s =>
      rw [zero_div]
      exact isRounded_zero _
    | @finite s m e hm h he =>
      obtain ⟨E, hE⟩ : ∃ E, E = min (e - d)
          (max (m.log2 + 1 + e - (n.log2 + 1 + d) - 53) (-1074)) := ⟨_, rfl⟩
      have hdiv : UnpackedFloat.div Format.binary64 (.finite s m e hm) (.finite t n d hn) =
          roundWithAccuracy Format.binary64 (s / t) (m <<< (e - d - E).toNat / n) E
            (accuracyOfFraction (m <<< (e - d - E).toNat % n) n) := by
        rw [hE]
        rfl
      have hexponent : E + ((e - d - E).toNat : Int) = e - d := by omega
      have hvalue : dyadic m e / dyadic n d = dyadic (m <<< (e - d - E).toNat) E / n := by
        rw [Nat.shiftLeft_eq, dyadic_mul_pow, hexponent, dyadic, dyadic, dyadic,
          zpow_sub₀ two_ne_zero]
        field_simp
      rw [hdiv, signed_div_signed, hvalue]
      exact (cut_div _ hn E).isRounded (full_or_low hm hn hE) _

theorem exists_hasValue_div {x y : Float} {p q : Rat} (hx : HasValue x p) (hp : 0 ≤ p)
    (hy : HasValue y q) (hq : 1 ≤ q) : ∃ v, HasValue (x / y) v ∧ 0 ≤ v := by
  have hpos : 0 < q := one_pos.trans_le hq
  have hle : p / q ≤ p := div_le_self hp hq
  obtain ⟨v, hv, hv', -⟩ :=
    (isRounded_div hx hy hpos.ne').between hasValue_zero hx (div_nonneg hp hpos.le) hle
  exact ⟨v, hv, hv'⟩

end LegalEntity.Doubles
