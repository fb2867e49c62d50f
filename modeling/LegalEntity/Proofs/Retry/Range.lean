import LegalEntity.Proofs.Doubles.Infinity
import LegalEntity.Proofs.Random.Draws
import LegalEntity.Proofs.Retry.Envelope
import LegalEntity.Proofs.Settings.Delays

namespace LegalEntity.Retry

open Doubles Scalar

section

variable {base cap jitter : Float} {draw : Nat → Float} {i : Nat}

theorem unshaken_between (base cap : Float) (i : Nat) :
    0.0 ≤ unshaken base cap i ∧ unshaken base cap i ≤ larger cap 0.0 := by
  have hcap := zero_le_larger cap
  have hstep {x : Float} (hx : 0.0 ≤ x) :
      0.0 ≤ smaller x (larger cap 0.0) ∧ smaller x (larger cap 0.0) ≤ larger cap 0.0 :=
    ⟨zero_le_smaller hx hcap, smaller_le (le_iff.1 hx).2.1 (le_iff.1 hcap).2.1⟩
  induction i with
  | zero => exact hstep (zero_le_larger base)
  | succ i ih =>
    obtain ⟨q, hq, hpacks⟩ := exists_packs ih.1
    exact hstep ((hpacks.mul_two hq).zero_le (by linarith))

/-- Doubled so often, the base is larger than all doubles. -/
def Overflows (base : Float) (i : Nat) : Prop :=
  base = Float.inf ∨ ∃ b, HasValue base b ∧ 2 ^ 1024 ≤ b * 2 ^ i

theorem overflows_iff {b : Rat} (h : HasValue base b) : Overflows base i ↔ 2 ^ 1024 ≤ b * 2 ^ i := by
  constructor
  · rintro (rfl | ⟨b', h', hle⟩)
    · exact absurd rfl h.ne_inf
    · rwa [h.eq h']
  · exact fun hle => .inr ⟨b, h, hle⟩

theorem Overflows.pos (h : Overflows base i) : 0.0 < base := by
  obtain rfl | ⟨b, hbase, hle⟩ := h
  · exact hasValue_zero.lt_inf
  · have hpow : (0 : Rat) < 2 ^ 1024 := by positivity
    exact (hasValue_zero.lt_iff hbase).2 (pos_of_mul_pos_left (hpow.trans_le hle) (by positivity))

theorem packs_unshaken {b : Rat} (hb : 0 ≤ b) (h : Packs b (larger base 0.0)) (i : Nat) :
    Packs (b * 2 ^ i) (unshaken base Float.inf i) := by
  have hcap : larger Float.inf 0.0 = Float.inf := larger_zero_eq_inf_iff.2 rfl
  induction i with
  | zero => rwa [unshaken, hcap, smaller_inf (zero_le_larger base), pow_zero, mul_one]
  | succ i ih =>
    have hnonneg : 0 ≤ b * 2 ^ i := by positivity
    have hdouble := ih.mul_two hnonneg
    rwa [unshaken, hcap, smaller_inf (hdouble.zero_le (by linarith)), pow_succ, ← mul_assoc]

theorem unshaken_inf_eq_inf_iff (base : Float) (i : Nat) :
    unshaken base Float.inf i = Float.inf ↔ Overflows base i := by
  have hlarger := larger_zero base
  by_cases hpos : 0.0 < base
  · rw [if_pos hpos] at hlarger
    rcases eq_inf_or_hasValue (le_of_lt hpos) with rfl | ⟨b, hbase, hb⟩
    · have hpacks := packs_unshaken (by positivity) (hlarger ▸ packs_inf) i
      have hlarge : (2 : Rat) ^ 1024 ≤ 2 ^ 1024 * 2 ^ i :=
        le_mul_of_one_le_right (by positivity) (one_le_pow₀ one_le_two)
      exact iff_of_true ((hpacks.eq_inf_iff (by positivity)).2 hlarge) (.inl rfl)
    · have hpacks := packs_unshaken hb (.value (hlarger ▸ hbase)) i
      rw [hpacks.eq_inf_iff (by positivity), overflows_iff hbase]
  · rw [if_neg hpos] at hlarger
    have hpacks := packs_unshaken le_rfl (.value (hlarger ▸ hasValue_zero)) i
    rw [hpacks.eq_inf_iff (by positivity), zero_mul]
    exact iff_of_false (not_le.2 (by positivity)) fun h => hpos h.pos

theorem unshaken_eq_inf_iff :
    unshaken base cap i = Float.inf ↔ cap = Float.inf ∧ Overflows base i := by
  constructor
  · intro h
    have hle := (unshaken_between base cap i).2
    rw [h] at hle
    obtain rfl := larger_zero_eq_inf_iff.1 (eq_inf_of_inf_le hle)
    exact ⟨rfl, (unshaken_inf_eq_inf_iff base i).1 h⟩
  · rintro ⟨rfl, h⟩
    exact (unshaken_inf_eq_inf_iff base i).2 h

theorem unit_bounds : (0.0 : Float) < 1.0 := (hasValue_zero.lt_iff hasValue_one).2 one_pos

theorem zero_lt_clamp_iff : 0.0 < clamp 0.0 1.0 jitter ↔ 0.0 < jitter := by
  have hself : ¬(0.0 : Float) < 0.0 := mt (hasValue_zero.lt_iff hasValue_zero).1 (lt_irrefl 0)
  rw [clamp]
  split
  · rename_i hlt
    exact iff_of_false hself fun h => (lt_iff.1 h).2.2.not_gt (lt_iff.1 hlt).2.2
  · split
    · rename_i hlt
      exact iff_of_true unit_bounds (lt_of_le_of_lt (le_of_lt unit_bounds) hlt)
    · rfl

theorem hasValue_clamp (h : 0.0 < jitter) :
    ∃ p, HasValue (clamp 0.0 1.0 jitter) p ∧ 0 < p ∧ p ≤ 1 := by
  obtain ⟨hlow, hhigh⟩ := clamp_between (lt_iff.1 h).2.1 (le_of_lt unit_bounds)
  obtain ⟨p, hp, -, hp1⟩ := exists_hasValue_between hasValue_zero hasValue_one hlow hhigh
  exact ⟨p, hp, (hasValue_zero.lt_iff hp).1 (zero_lt_clamp_iff.2 h), hp1⟩

/-- Only an infinite delay is shaken to what is no number, by a draw that is not positive. -/
theorem add_swing_eq_nan_iff {delay r : Float} {q : Rat} (hdelay : 0.0 ≤ delay) (hr : HasValue r q)
    (hlow : -1 ≤ q) (hhigh : q ≤ 1) : delay + swing (clamp 0.0 1.0 jitter) r delay = Float.nan ↔
      delay = Float.inf ∧ 0.0 < jitter ∧ r ≤ 0.0 := by
  simp only [swing, zero_lt_clamp_iff]
  by_cases hjitter : 0.0 < jitter
  · obtain ⟨p, hp, hp0, hp1⟩ := hasValue_clamp hjitter
    rw [if_pos hjitter]
    rcases eq_inf_or_hasValue hdelay with rfl | ⟨d, hd, hd0⟩
    · rw [inf_mul hp hp0, inf_add_inf_mul hr, hr.le_iff hasValue_zero]
      split
      · rename_i hpos
        exact iff_of_false inf_ne_nan fun h => not_le.2 hpos h.2.2
      · rename_i hnot
        exact iff_of_true rfl ⟨rfl, hjitter, not_lt.1 hnot⟩
    · -- Neither the share nor what is drawn of it is larger than the delay.
      obtain ⟨s, hs, hs0, hs1⟩ := (isRounded_mul hd hp).between hasValue_zero hd
        (mul_nonneg hd0 hp0.le) (mul_le_of_le_one_right hd0 hp1)
      obtain ⟨t, ht, -, -⟩ := (isRounded_mul hs hr).between hd.neg hd (by nlinarith) (by nlinarith)
      exact iff_of_false (isRounded_add hd ht).ne_nan fun h => hd.ne_inf h.1
  · rw [if_neg hjitter]
    refine iff_of_false ?_ fun h => hjitter h.2.1
    rcases eq_inf_or_hasValue hdelay with rfl | ⟨d, hd, -⟩
    · exact (inf_add hasValue_zero).symm ▸ inf_ne_nan
    · exact (isRounded_add hd hasValue_zero).ne_nan

theorem waited_eq_nan_iff (hdraw : ∃ r, HasValue (draw i) r ∧ -1 ≤ r ∧ r ≤ 1) :
    waited base cap jitter draw i = Float.nan ↔
      cap = Float.inf ∧ 0.0 < jitter ∧ Overflows base i ∧ draw i ≤ 0.0 := by
  obtain ⟨r, hr, hlow, hhigh⟩ := hdraw
  rw [waited, clamp_eq_nan_iff (zero_le_larger cap),
    add_swing_eq_nan_iff (unshaken_between base cap i).1 hr hlow hhigh, unshaken_eq_inf_iff]
  tauto

theorem waited_between (h : waited base cap jitter draw i ≠ Float.nan) :
    0.0 ≤ waited base cap jitter draw i ∧ waited base cap jitter draw i ≤ larger cap 0.0 :=
  clamp_between (mt (clamp_eq_nan_iff (zero_le_larger cap)).2 h) (zero_le_larger cap)

end

/-- As many delays as attempts, for all doubles and every seed. Each is a number that is not below zero
and not above the cap, or zero where that is lower or no number, unless the cap is infinite and the
delay has become so and is shaken, but not upwards. -/
theorem delays_in_range (attempts : Nat) (base cap jitter : Float) (seed : UInt64) :
    ∃ delays, backoffDelays? attempts base cap jitter (Random.draw seed) = some delays ∧
      backoffDelays attempts base cap jitter (Random.draw seed) = delays ∧
      delays.length = attempts ∧
      ∀ i v, delays[i]? = some v →
        (v = Float.nan ↔
          cap = Float.inf ∧ 0.0 < jitter ∧ Overflows base i ∧ Random.draw seed i ≤ 0.0) ∧
        (v ≠ Float.nan → 0.0 ≤ v ∧ v ≤ if 0.0 < cap then cap else 0.0) := by
  have hzero : ((0.0 : Float) == 0.0) = true := Float.beq_self_iff.2 hasValue_zero.ne_nan
  have hone : areBounds (0.0 : Float) 1.0 = true := by simp [areBounds, unit_bounds]
  refine ⟨_, backoffDelays?_eq hzero hone .., rfl, ?_, ?_⟩
  · rw [backoffDelays_eq_map, List.length_map, List.length_range]
  · intro i v h
    rw [backoffDelays_eq_map, List.getElem?_map, Option.map_eq_some_iff] at h
    obtain ⟨k, hk, rfl⟩ := h
    obtain ⟨-, rfl⟩ := List.getElem?_eq_some_iff.1 hk
    rw [List.getElem_range, ← larger_zero]
    exact ⟨waited_eq_nan_iff (Random.draw_between seed i), waited_between⟩

/-- What an infinite base gives below an infinite cap and below a finite one. -/
theorem delays_in_range_infinite :
    backoffDelays 1 Float.inf Float.inf 0.1 (Random.draw 7) = [Float.nan] ∧
    ∃ v, backoffDelays 1 Float.inf 2.0 0.1 (Random.draw 7) = [v] ∧ 0.0 ≤ v ∧ v ≤ 2.0 := by
  obtain ⟨delays, -, hdelays, hlength, hvalues⟩ := delays_in_range 1 Float.inf Float.inf 0.1 7
  obtain ⟨delays', -, hdelays', hlength', hvalues'⟩ := delays_in_range 1 Float.inf 2.0 0.1 7
  obtain ⟨v, rfl⟩ := List.length_eq_one_iff.1 hlength
  obtain ⟨v', rfl⟩ := List.length_eq_one_iff.1 hlength'
  constructor
  · have hdraw : (0.0 : Float) < 0.1 ∧ Random.draw 7 0 ≤ 0.0 := by decide +kernel
    have hnan := (hvalues 0 v rfl).1.2 ⟨rfl, hdraw.1, .inl rfl, hdraw.2⟩
    rw [hdelays, hnan]
  · have hnumber : v' ≠ Float.nan := fun h => hasValue_two.ne_inf ((hvalues' 0 v' rfl).1.1 h).1
    have hrange := (hvalues' 0 v' rfl).2 hnumber
    rw [if_pos ((hasValue_zero.lt_iff hasValue_two).2 two_pos)] at hrange
    exact ⟨v', hdelays', hrange⟩

end LegalEntity.Retry
