import LegalEntity.Proofs.Doubles.Rounding

namespace LegalEntity.Doubles

open Float.Model Float.Model.UnpackedFloat Scalar

section

variable {x y low high : Float} {p q : Rat}

theorem unpack_inf : Float.inf.toModel.unpack = .infinity .positive := rfl

theorem eq_inf_iff : x = Float.inf ↔ x.toModel.unpack = .infinity .positive := by
  constructor
  · rintro rfl
    exact unpack_inf
  · intro h
    rw [← ofModel_pack_unpack x, ← ofModel_pack_unpack Float.inf, h, unpack_inf]

theorem inf_ne_nan : Float.inf ≠ Float.nan := by
  rw [ne_eq, eq_nan_iff, unpack_inf]
  exact nofun

theorem HasValue.ne_inf (h : HasValue x q) : x ≠ Float.inf := by
  rintro rfl
  rw [HasValue, unpack_inf] at h
  cases h

theorem HasValue.eq (h : HasValue x p) (h' : HasValue x q) : p = q :=
  le_antisymm ((h.le_iff h').1 ((h.le_iff h).2 le_rfl)) ((h'.le_iff h).1 ((h.le_iff h).2 le_rfl))

theorem place_inf : place Float.inf = infinite := by
  have hstands := stands inf_ne_nan
  rw [unpack_inf] at hstands
  generalize place Float.inf = k at hstands
  cases hstands
  rfl

theorem HasValue.lt_inf (h : HasValue x q) : x < Float.inf :=
  Doubles.lt_iff.2 ⟨h.ne_nan, inf_ne_nan, place_inf ▸ (abs_lt.1 h.abs_place_lt).2⟩

theorem eq_inf_or_hasValue (h : 0.0 ≤ x) : x = Float.inf ∨ ∃ q, HasValue x q ∧ 0 ≤ q := by
  obtain ⟨-, hne, hplace⟩ := Doubles.le_iff.1 h
  rcases nan_or_infinite_or_hasValue x with hx | ⟨s, hx⟩ | ⟨q, hx⟩
  · exact absurd hx hne
  · left
    cases s with
    | positive => exact eq_inf_iff.2 hx
    | negative =>
      have hstands := stands hne
      rw [hx] at hstands
      generalize place x = k at *
      cases hstands
      exact absurd (abs_lt.1 hasValue_zero.abs_place_lt).1 (not_lt.2 hplace)
  · exact .inr ⟨q, hx, (hasValue_zero.le_iff hx).1 h⟩

theorem eq_inf_of_inf_le (h : Float.inf ≤ x) : x = Float.inf := by
  have hzero : (0.0 : Float) ≤ x := le_of_lt (lt_of_lt_of_le hasValue_zero.lt_inf h)
  refine (eq_inf_or_hasValue hzero).resolve_right ?_
  rintro ⟨q, hx, -⟩
  exact (not_lt_iff hx.ne_nan inf_ne_nan).2 h hx.lt_inf

theorem Packs.hasValue_or_eq_inf (h : Packs q x) (hq : 0 ≤ q) :
    HasValue x q ∨ 2 ^ 1024 ≤ q ∧ x = Float.inf := by
  have hpos : (0 : Rat) < 2 ^ 1024 := by positivity
  cases h with
  | value h => exact .inl h
  | large hlarge hx => exact .inr ⟨hlarge, Doubles.eq_inf_iff.2 hx⟩
  | small hsmall => exact absurd (hq.trans hsmall) (not_le.2 (neg_lt_zero.2 hpos))

theorem Packs.eq_inf_iff (h : Packs q x) (hq : 0 ≤ q) : x = Float.inf ↔ 2 ^ 1024 ≤ q := by
  rcases h.hasValue_or_eq_inf hq with h | ⟨hlarge, hx⟩
  · exact iff_of_false h.ne_inf (not_le.2 ((le_abs_self q).trans_lt h.abs_lt))
  · exact iff_of_true hx hlarge

theorem Packs.zero_le (h : Packs q x) (hq : 0 ≤ q) : 0.0 ≤ x := by
  rcases h.hasValue_or_eq_inf hq with h | ⟨-, rfl⟩
  · exact (hasValue_zero.le_iff h).2 hq
  · exact le_of_lt hasValue_zero.lt_inf

theorem packs_inf : Packs (2 ^ 1024) Float.inf := .large le_rfl unpack_inf

theorem exists_packs (h : 0.0 ≤ x) : ∃ q, 0 ≤ q ∧ Packs q x := by
  rcases eq_inf_or_hasValue h with rfl | ⟨q, hx, hq⟩
  · exact ⟨_, by positivity, packs_inf⟩
  · exact ⟨q, hq, .value hx⟩

theorem Fits.mul_two (h : Fits q) : Fits (q * 2) := by
  obtain ⟨m, e, hm, he, h⟩ := h
  refine ⟨m, e + 1, hm, by omega, ?_⟩
  have htwo := dyadic_mul_pow m 1 e
  rw [Nat.cast_one] at htwo
  rw [abs_mul, h, ← htwo, dyadic, dyadic]
  push_cast
  norm_num
  ring

theorem unpack_inf_mul (h : HasValue y q) : (Float.inf * y).toModel.unpack =
    if 0 < q then .infinity .positive else if q < 0 then .infinity .negative else .notANumber := by
  change (Float.Model.pack (UnpackedFloat.mul Format.binary64 (.infinity .positive)
    y.toModel.unpack)).unpack = _
  rw [HasValue] at h
  generalize y.toModel.unpack = g at h
  cases h with
  | zero s =>
    rw [if_neg (lt_irrefl 0), if_neg (lt_irrefl 0)]
    change (Float.Model.pack .notANumber).unpack = _
    rfl
  | @finite s m e hm h he =>
    have hpos : 0 < dyadic m e := by
      rw [dyadic]
      positivity
    cases s with
    | positive =>
      rw [signed, if_pos hpos]
      exact unpack_pack_infinity .positive
    | negative =>
      rw [signed, if_neg (by linarith), if_pos (by linarith)]
      exact unpack_pack_infinity .negative

theorem inf_mul (h : HasValue y q) (hq : 0 < q) : Float.inf * y = Float.inf :=
  eq_inf_iff.2 ((unpack_inf_mul h).trans (if_pos hq))

theorem Packs.mul_two (h : Packs q x) (hq : 0 ≤ q) : Packs (q * 2) (x * 2.0) := by
  rcases h.hasValue_or_eq_inf hq with h | ⟨hlarge, rfl⟩
  · obtain ⟨v, hv, hx⟩ := isRounded_mul h hasValue_two
    rwa [hv.eq h.fits.mul_two] at hx
  · rw [inf_mul hasValue_two two_pos]
    exact .large (hlarge.trans (le_mul_of_one_le_right hq (by norm_num))) unpack_inf

theorem inf_add (h : HasValue y q) : Float.inf + y = Float.inf := by
  rw [eq_inf_iff]
  change (Float.Model.pack (UnpackedFloat.add Format.binary64 (.infinity .positive)
    y.toModel.unpack)).unpack = _
  rw [HasValue] at h
  generalize y.toModel.unpack = g at h
  cases h <;> exact unpack_pack_infinity .positive

theorem inf_add_inf_mul (h : HasValue y q) :
    Float.inf + Float.inf * y = if 0 < q then Float.inf else Float.nan := by
  have hunpack := unpack_inf_mul h
  have hsum : (Float.inf + Float.inf * y).toModel.unpack = (Float.Model.pack
      (UnpackedFloat.add Format.binary64 (.infinity .positive)
        (Float.inf * y).toModel.unpack)).unpack := rfl
  rw [hunpack] at hsum
  split
  · rename_i hpos
    rw [if_pos hpos] at hsum
    exact eq_inf_iff.2 hsum
  · rename_i hpos
    rw [if_neg hpos] at hsum
    rw [eq_nan_iff, hsum]
    split <;> rfl

theorem le_self (h : x ≠ Float.nan) : x ≤ x := le_iff.2 ⟨h, h, le_rfl⟩

theorem larger_zero (x : Float) : larger x 0.0 = if 0.0 < x then x else 0.0 := by
  rw [larger, if_pos (Float.beq_self_iff.2 hasValue_zero.ne_nan)]

theorem zero_le_larger (x : Float) : 0.0 ≤ larger x 0.0 := by
  rw [larger_zero]
  split
  · rename_i hlt
    exact le_of_lt hlt
  · exact le_self hasValue_zero.ne_nan

theorem larger_zero_eq_inf_iff : larger x 0.0 = Float.inf ↔ x = Float.inf := by
  rw [larger_zero]
  split
  · rfl
  · rename_i hnot
    refine iff_of_false hasValue_zero.ne_inf ?_
    rintro rfl
    exact hnot hasValue_zero.lt_inf

theorem zero_le_smaller (hx : 0.0 ≤ x) (hy : 0.0 ≤ y) : 0.0 ≤ smaller x y := by
  rw [smaller]
  split
  · exact hy
  · split
    · exact hx
    · exact hy

theorem smaller_le (hx : x ≠ Float.nan) (hy : y ≠ Float.nan) : smaller x y ≤ y := by
  rw [smaller, if_pos (Float.beq_self_iff.2 hx)]
  split
  · exact le_self hy
  · rename_i hnot
    exact (not_lt_iff hy hx).1 hnot

theorem smaller_inf (h : 0.0 ≤ x) : smaller x Float.inf = x := by
  rw [smaller, if_pos (Float.beq_self_iff.2 (le_iff.1 h).2.1)]
  split
  · rename_i hlt
    exact (eq_inf_of_inf_le (le_of_lt hlt)).symm
  · rfl

theorem clamp_nan (low high : Float) : clamp low high Float.nan = Float.nan := by
  have hlow : ¬Float.nan < low := fun h => (lt_iff.1 h).1 rfl
  have hhigh : ¬high < Float.nan := fun h => (lt_iff.1 h).2.1 rfl
  rw [clamp, if_neg hlow, if_neg hhigh]

theorem clamp_between (hx : x ≠ Float.nan) (h : low ≤ high) :
    low ≤ clamp low high x ∧ clamp low high x ≤ high := by
  obtain ⟨hlow, hhigh, hplace⟩ := le_iff.1 h
  rw [clamp]
  split
  · rw [if_neg ((not_lt_iff hhigh hlow).2 h)]
    exact ⟨le_self hlow, h⟩
  · rename_i hnot
    split
    · exact ⟨h, le_self hhigh⟩
    · rename_i hnot'
      exact ⟨(not_lt_iff hx hlow).1 hnot, (not_lt_iff hhigh hx).1 hnot'⟩

theorem clamp_eq_nan_iff (h : low ≤ high) : clamp low high x = Float.nan ↔ x = Float.nan := by
  constructor
  · intro hclamp
    by_contra hx
    exact (le_iff.1 (clamp_between hx h).1).2.1 hclamp
  · rintro rfl
    exact clamp_nan low high

end

end LegalEntity.Doubles
