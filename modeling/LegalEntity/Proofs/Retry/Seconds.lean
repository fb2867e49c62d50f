import LegalEntity.Duration
import LegalEntity.Proofs.Doubles.Rounding

namespace LegalEntity.Decimal

open Doubles Float.Model

def nearest (q : Rat) : Nat :=
  if q - ⌊q⌋₊ < 1 / 2 then ⌊q⌋₊
  else if 1 / 2 < q - ⌊q⌋₊ then ⌊q⌋₊ + 1
  else ⌊q⌋₊ + ⌊q⌋₊ % 2

theorem floor_le_nearest (q : Rat) : ⌊q⌋₊ ≤ nearest q := by
  rw [nearest]
  split_ifs <;> omega

theorem nearest_le_succ_floor (q : Rat) : nearest q ≤ ⌊q⌋₊ + 1 := by
  rw [nearest]
  split_ifs <;> omega

theorem nearest_mono {q r : Rat} (h : q ≤ r) : nearest q ≤ nearest r := by
  rcases (Nat.floor_le_floor h).lt_or_eq with hlt | heq
  · exact (nearest_le_succ_floor q).trans (hlt.trans_le (floor_le_nearest r))
  · rw [nearest, nearest, heq]
    have hfraction : q - ⌊r⌋₊ ≤ r - ⌊r⌋₊ := sub_le_sub_right h _
    split_ifs <;> first | omega | linarith

theorem roundDiv_eq_nearest (num : Nat) {den : Nat} (hden : 0 < den) :
    roundDiv num den = nearest (num / den) := by
  have hpos : (0 : Rat) < den := Nat.cast_pos.2 hden
  have hdivision : ((den * (num / den) + num % den : Nat) : Rat) = num :=
    congrArg Nat.cast (Nat.div_add_mod num den)
  have hfraction : (num : Rat) / den - (num / den : Nat) = (num % den : Nat) / den := by
    rw [div_sub' hpos.ne', ← hdivision]
    push_cast
    ring
  have hlow : (num : Rat) / den - (num / den : Nat) < 1 / 2 ↔ 2 * (num % den) < den := by
    rw [hfraction, div_lt_div_iff₀ hpos two_pos, one_mul, mul_comm, ← Nat.cast_ofNat, ← Nat.cast_mul,
      Nat.cast_lt]
  have hhigh : 1 / 2 < (num : Rat) / den - (num / den : Nat) ↔ den < 2 * (num % den) := by
    rw [hfraction, div_lt_div_iff₀ two_pos hpos, one_mul, mul_comm, ← Nat.cast_ofNat, ← Nat.cast_mul,
      Nat.cast_lt]
  rw [roundDiv, nearest, Nat.floor_div_eq_div]
  simp only [hlow, hhigh]

theorem scaled_eq (m : Nat) (e : Int) :
    0 < (scaled m e).2 ∧ ((scaled m e).1 : Rat) / (scaled m e).2 = dyadic m e := by
  rw [scaled, dyadic]
  split
  · rename_i hnonneg
    obtain ⟨n, rfl⟩ := Int.eq_ofNat_of_zero_le hnonneg
    refine ⟨Nat.one_pos, ?_⟩
    change ((m * 2 ^ n : Nat) : Rat) / ((1 : Nat) : Rat) = _
    push_cast
    rw [div_one, zpow_natCast]
  · rename_i hneg
    obtain ⟨n, rfl⟩ := Int.eq_negSucc_of_lt_zero (not_le.1 hneg)
    refine ⟨Nat.two_pow_pos _, ?_⟩
    change (m : Rat) / ((2 ^ (n + 1) : Nat) : Rat) = _
    push_cast
    rw [zpow_negSucc, div_eq_mul_inv]

theorem roundDiv_scaled (m : Nat) (e : Int) (k : Nat) :
    roundDiv ((scaled m e).1 * k) (scaled m e).2 = nearest (dyadic m e * k) := by
  obtain ⟨hden, hvalue⟩ := scaled_eq m e
  rw [roundDiv_eq_nearest _ hden, ← hvalue, Nat.cast_mul, div_mul_eq_mul_div]

theorem dyadic_parts {x : Float} {q : Rat} (h : HasValue x q) :
    dyadic (parts x).significand (parts x).exponent = |q| := by
  have hunpacks := unpacks_toBits x
  have hparts : dyadic (parts x).significand (parts x).exponent =
      dyadic (if x.toBits.toNat / 2 ^ 52 % 2 ^ 11 = 0 then x.toBits.toNat % 2 ^ 52
        else x.toBits.toNat % 2 ^ 52 + 2 ^ 52)
        ((max (x.toBits.toNat / 2 ^ 52 % 2 ^ 11) 1 : Nat) - 1075) := rfl
  rw [hparts]
  rw [HasValue] at h
  generalize x.toBits.toNat / 2 ^ 52 % 2 ^ 11 = e at *
  generalize x.toBits.toNat % 2 ^ 52 = m at *
  generalize signOf x.toBits.toNat = s at *
  generalize x.toModel.unpack = f at *
  cases hunpacks with
  | infinity => cases h
  | notANumber hm => cases h
  | zero =>
    cases h
    simp [dyadic]
  | subnormal hm =>
    cases h
    rw [if_pos rfl, abs_signed_dyadic]
    rfl
  | normal he he' hm =>
    cases h
    rw [if_neg he.ne', abs_signed_dyadic, max_eq_left he, add_comm]

end LegalEntity.Decimal

namespace LegalEntity.Duration

open Doubles

theorem ofSeconds?_eq {x : Float} {q : Rat} (h : HasValue x q) (hq : 0 ≤ q) (hlt : q < 2 ^ 64) :
    ofSeconds? x = some ⟨Decimal.nearest (q * perSecond)⟩ := by
  have hlimit : HasValue 18446744073709551616.0 (2 ^ ((64 : Nat) : Int)) :=
    hasValue_pow (e := 12) rfl (by decide) (by decide)
  rw [zpow_natCast] at hlimit
  have hnonneg : ¬x < 0.0 := mt (h.lt_iff hasValue_zero).1 (not_lt.2 hq)
  have hbound : ¬18446744073709551616.0 ≤ x := mt (hlimit.le_iff h).1 (not_le.2 hlt)
  have hvalue := Decimal.dyadic_parts h
  rw [abs_of_nonneg hq] at hvalue
  rw [← hvalue, ← Decimal.roundDiv_scaled]
  simp [ofSeconds?, h.ne_nan, hnonneg, hbound]

end LegalEntity.Duration
