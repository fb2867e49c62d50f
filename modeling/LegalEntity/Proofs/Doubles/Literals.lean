import LegalEntity.Decimal.Literal
import LegalEntity.Proofs.Doubles.Quotient

namespace LegalEntity

namespace Doubles

open Decimal Float.Model Float.Model.UnpackedFloat

theorem isFinite_iff {x : Float} : x.isFinite = true ↔ ∃ q, HasValue x q := by
  change x.toModel.unpack.isFinite = true ↔ _
  constructor
  · intro h
    rcases nan_or_infinite_or_hasValue x with hx | ⟨s, hx⟩ | hx
    · rw [eq_nan_iff.1 hx] at h
      cases h
    · rw [hx] at h
      cases h
    · exact hx
  · rintro ⟨q, hx⟩
    rw [HasValue] at hx
    generalize x.toModel.unpack = f at hx
    cases hx <;> rfl

def IsAmount (x : Float) : Prop := ∃ q, HasValue x q ∧ 0 ≤ q

theorem IsAmount.isFinite {x : Float} (h : IsAmount x) : x.isFinite = true := by
  obtain ⟨q, hx, -⟩ := h
  exact isFinite_iff.2 ⟨q, hx⟩

theorem isFinite_neg {x : Float} (h : x.isFinite = true) : (-x).isFinite = true := by
  obtain ⟨q, hx⟩ := isFinite_iff.1 h
  exact isFinite_iff.2 ⟨-q, hx.neg⟩

theorem hasValue_words : HasValue (Float.ofBits 0x43F0000000000000) (2 ^ (64 : Int)) :=
  hasValue_pow (e := 12) rfl (by decide) (by decide)

theorem isAmount_toFloat (n : UInt64) : IsAmount n.toFloat := by
  have hround : IsRounded (((n.toNat : Int) : Rat) * 2 ^ (0 : Int)) n.toFloat :=
    isRounded_normalize n.toNat 0
  rw [zpow_zero, mul_one, Int.cast_natCast] at hround
  have hle : (n.toNat : Rat) ≤ 2 ^ (64 : Int) := by
    have hlt := n.toNat_lt
    exact_mod_cast hlt.le
  obtain ⟨v, hv, hv', -⟩ :=
    hround.between hasValue_zero hasValue_words (Nat.cast_nonneg _) hle
  exact ⟨v, hv, hv'⟩

theorem hasValue_greatest :
    HasValue (Float.ofBits 0x7FEFFFFFFFFFFFFF) (dyadic (2 ^ 53 - 1) 971) :=
  hasValue_of_unpack (s := .positive) (by decide) rfl ⟨by decide, by decide, .inl (by decide)⟩
    le_rfl

theorem isRounded_tenTo {n : Nat} (h : 22 < n) (h' : n ≤ maxPower) :
    IsRounded (10 ^ n) (tenTo n) := by
  have hmodel : UnpackedFloat.ofScientific Format.binary64 1 n =
      roundWithAccuracy Format.binary64 .positive (1 <<< 53 * 10 ^ n) (-53 + 0) .exact := by
    have hlarge : ¬(n : Int) > 2 ^ Format.binary64.exponentBits := by
      change ¬(n : Int) > 2 ^ 11
      rw [maxPower] at h'
      omega
    have hsmall : ¬(n : Int) < -(2 ^ Format.binary64.exponentBits + (1 : Nat).log2) := by
      change ¬(n : Int) < -(2 ^ 11 + (1 : Nat).log2)
      omega
    rw [UnpackedFloat.ofScientific, dif_neg one_ne_zero, if_neg hlarge, if_neg hsmall,
      if_pos (Int.natCast_nonneg n)]
    rfl
  have hfloat : tenTo n = .ofModel (.pack (UnpackedFloat.ofScientific Format.binary64 1 n)) := by
    rw [tenTo, Float.ofScientific, dif_neg (by omega)]
    rfl
  have hvalue : dyadic (1 <<< 53 * 10 ^ n) (-53 + 0) = 10 ^ n := by
    rw [Nat.shiftLeft_eq, one_mul, mul_comm, dyadic_mul_pow, dyadic]
    norm_num
  have hlog : 53 ≤ (1 <<< 53 * 10 ^ n).log2 := by
    have hpos : 0 < 10 ^ n := Nat.pow_pos (by decide)
    rw [Nat.shiftLeft_eq, one_mul, Nat.le_log2 (by positivity)]
    exact Nat.le_mul_of_pos_right _ hpos
  rw [hfloat, hmodel, ← hvalue]
  exact Cut.exact.isRounded (by omega) .positive

theorem exists_hasValue_tenTo {n : Nat} (h : n ≤ maxPower) :
    ∃ q, HasValue (tenTo n) q ∧ 1 ≤ q := by
  by_cases hsmall : n ≤ 22
  · have hbounds : ∀ n ≤ 22, 1.0 ≤ tenTo n ∧ tenTo n ≤ Float.ofBits 0x7FEFFFFFFFFFFFFF := by
      decide +kernel
    obtain ⟨hlow, hhigh⟩ := hbounds n hsmall
    obtain ⟨q, hq, hone, -⟩ := exists_hasValue_between hasValue_one hasValue_greatest hlow hhigh
    exact ⟨q, hq, hone⟩
  · have hgreatest : (10 : Rat) ^ n ≤ dyadic (2 ^ 53 - 1) 971 := by
      have hmax : 10 ^ 308 ≤ (2 ^ 53 - 1) * 2 ^ 971 := by decide +kernel
      refine (pow_le_pow_right₀ (by norm_num) h).trans ?_
      rw [dyadic, maxPower]
      exact_mod_cast hmax
    obtain ⟨q, hq, hone, -⟩ := (isRounded_tenTo (not_le.1 hsmall) h).between hasValue_one
      hasValue_greatest (one_le_pow₀ (by norm_num)) hgreatest
    exact ⟨q, hq, hone⟩

theorem IsAmount.div_tenTo {x : Float} (hx : IsAmount x) {n : Nat} (h : n ≤ maxPower) :
    IsAmount (x / tenTo n) := by
  obtain ⟨p, hp, hp'⟩ := hx
  obtain ⟨q, hq, hone⟩ := exists_hasValue_tenTo h
  exact exists_hasValue_div hp hp' hq hone

theorem isAmount_shrink {x : Float} (hx : IsAmount x) (n : Nat) : IsAmount (shrink x n) := by
  fun_induction shrink x n with
  | case1 x n hle => exact hx.div_tenTo hle
  | case2 x n hlt hzero => exact hx
  | case3 x n hlt hzero ih => exact ih (hx.div_tenTo (Nat.le_refl _))

theorem isFinite_mul {x y : Float} (hx : IsAmount x) (hy : IsAmount y)
    (h : (x * y).isInf = false) : (x * y).isFinite = true := by
  obtain ⟨p, hp, -⟩ := hx
  obtain ⟨q, hq, -⟩ := hy
  rcases nan_or_infinite_or_hasValue (x * y) with hnan | ⟨s, hinf⟩ | hvalue
  · exact absurd hnan (isRounded_mul hp hq).ne_nan
  · change (x * y).toModel.unpack.isInf = false at h
    rw [hinf] at h
    cases h
  · exact isFinite_iff.2 hvalue

theorem isFinite_of_shift? {value : Nat} {n : Int} {x : Float} (h : shift? value n = some x) :
    x.isFinite = true := by
  have hvalue : IsAmount value.toUInt64.toFloat := isAmount_toFloat _
  simp only [shift?] at h
  split at h
  · cases h
    exact (isAmount_shrink hvalue _).isFinite
  · split at h
    · split at h
      · cases h
        exact hvalue.isFinite
      · cases h
    · rename_i hpower
      obtain ⟨q, hq, hone⟩ := exists_hasValue_tenTo (not_lt.1 hpower)
      split at h
      · cases h
      · rename_i hinf
        cases h
        exact isFinite_mul hvalue ⟨q, hq, zero_le_one.trans hone⟩ (Bool.not_eq_true _ ▸ hinf)

theorem isFinite_double? {l : Literal} {x : Float} (h : l.double? = some x) : x.isFinite = true := by
  simp only [Literal.double?, Option.map_eq_some_iff] at h
  obtain ⟨y, hy, rfl⟩ := h
  have hmagnitude : y.isFinite = true := by
    split at hy
    · exact isFinite_of_shift? hy
    · split at hy
      · split at hy
        · cases hy
        · cases hy
          rfl
      · exact isFinite_of_shift? hy
  split
  · exact isFinite_neg hmagnitude
  · exact hmagnitude

theorem isFinite_toFloat (n : Int) : (Number.int n).toFloat.isFinite = true := by
  rw [Number.toFloat]
  split
  · exact (isAmount_toFloat _).isFinite
  · exact isFinite_neg (isAmount_toFloat _).isFinite

theorem isFinite_number? {l : Literal} {n : Number} (h : l.number? = some n) :
    n.toFloat.isFinite = true := by
  simp only [Literal.number?] at h
  split at h
  · cases h
    exact isFinite_toFloat _
  · split at h
    · cases h
      exact isFinite_toFloat _
    · obtain ⟨x, hx, rfl⟩ := Option.map_eq_some_iff.1 h
      exact isFinite_double? hx

end Doubles

end LegalEntity
