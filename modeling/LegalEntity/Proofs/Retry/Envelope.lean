import LegalEntity.Proofs.Names.Distance
import LegalEntity.Retry.Backoff
import Mathlib.Tactic.Ring

namespace LegalEntity.Scalar

theorem smaller_eq_min (x y : Rat) : smaller x y = min x y := by
  rw [smaller, if_pos (beq_self_eq_true x), min_def]
  split
  · rename_i hlt
    rw [if_neg (not_le.2 hlt)]
  · rename_i hnot
    rw [if_pos (not_lt.1 hnot)]

theorem clamp_eq {low high : Rat} (h : low ≤ high) (x : Rat) :
    clamp low high x = max low (min high x) := by
  rw [clamp]
  split
  · rename_i hlt
    rw [if_neg (not_lt.2 h), min_eq_right (hlt.le.trans h), max_eq_left hlt.le]
  · rename_i hnot
    split
    · rename_i hlt
      rw [min_eq_left hlt.le, max_eq_right h]
    · rename_i hnot'
      rw [min_eq_right (not_lt.1 hnot'), max_eq_right (not_lt.1 hnot)]

end LegalEntity.Scalar

namespace LegalEntity.Retry

open Scalar

section

variable {α : Type} [Scalar α]

def unshaken (base cap : α) : Nat → α
  | 0 => smaller (larger base 0.0) (larger cap 0.0)
  | i + 1 => smaller (unshaken base cap i * 2.0) (larger cap 0.0)

def swing (jitter draw delay : α) : α := if (0.0 : α) < jitter then delay * jitter * draw else 0.0

def waited (base cap jitter : α) (draw : Nat → α) (i : Nat) : α :=
  clamp 0.0 (larger cap 0.0)
    (unshaken base cap i + swing (clamp 0.0 1.0 jitter) (draw i) (unshaken base cap i))

theorem backoffDelays_eq_map (attempts : Nat) (base cap jitter : α) (draw : Nat → α) :
    backoffDelays attempts base cap jitter draw =
      (List.range attempts).map (waited base cap jitter draw) := by
  have hfrom (n i : Nat) : delaysFrom (larger cap 0.0) (clamp 0.0 1.0 jitter) draw n i
      (unshaken base cap i) = (List.range' i n).map (waited base cap jitter draw) := by
    induction n generalizing i with
    | zero => rfl
    | succ n ih =>
      rw [delaysFrom, ← unshaken, ih, List.range'_succ, List.map_cons]
      rfl
  rw [List.range_eq_range', ← hfrom]
  rfl

end

section

variable {base cap jitter : Rat} {draw : Nat → Rat}

def nominal (base cap : Rat) (i : Nat) : Rat := min (max base 0 * 2 ^ i) (max cap 0)

def share (jitter : Rat) : Rat := max 0 (min jitter 1)

def shaken (base cap jitter : Rat) (draw : Nat → Rat) (i : Nat) : Rat :=
  max 0 (min (max cap 0) (nominal base cap i + nominal base cap i * share jitter * draw i))

theorem nominal_nonneg (base cap : Rat) (i : Nat) : 0 ≤ nominal base cap i :=
  le_min (mul_nonneg (le_max_right _ _) (by positivity)) (le_max_right _ _)

theorem nominal_le_cap (base cap : Rat) (i : Nat) : nominal base cap i ≤ max cap 0 := min_le_right _ _

theorem nominal_succ (base cap : Rat) (i : Nat) :
    nominal base cap (i + 1) = min (nominal base cap i * 2) (max cap 0) := by
  have hcap : max cap 0 ≤ max cap 0 * 2 := le_mul_of_one_le_right (le_max_right _ _) (by norm_num)
  rw [nominal, nominal, min_mul_of_nonneg _ _ (by norm_num), min_assoc, min_eq_right hcap, pow_succ,
    mul_assoc]

theorem nominal_le_succ (base cap : Rat) (i : Nat) :
    nominal base cap i ≤ nominal base cap (i + 1) := by
  have hnonneg := nominal_nonneg base cap i
  rw [nominal_succ]
  exact le_min (by linarith) (nominal_le_cap base cap i)

theorem share_nonneg (jitter : Rat) : 0 ≤ share jitter := le_max_left _ _

theorem share_of_nonpos (h : jitter ≤ 0) : share jitter = 0 := max_eq_left ((min_le_left _ _).trans h)

theorem zero_eq : (0.0 : Rat) = 0 := by norm_num

theorem one_eq : (1.0 : Rat) = 1 := by norm_num

theorem two_eq : (2.0 : Rat) = 2 := by norm_num

theorem larger_zero_eq (x : Rat) : larger x 0.0 = max x 0 := by
  rw [Name.larger_eq_max, zero_eq]

theorem unshaken_eq_nominal (base cap : Rat) (i : Nat) : unshaken base cap i = nominal base cap i := by
  induction i with
  | zero => rw [unshaken, larger_zero_eq, larger_zero_eq, smaller_eq_min, nominal, pow_zero, mul_one]
  | succ i ih => rw [unshaken, ih, larger_zero_eq, smaller_eq_min, nominal_succ, two_eq]

theorem clamp_eq_share (jitter : Rat) : clamp 0.0 1.0 jitter = share jitter := by
  rw [zero_eq, one_eq, clamp_eq zero_le_one, min_comm, share]

theorem swing_share (jitter r delay : Rat) : swing (share jitter) r delay = delay * share jitter * r := by
  rw [swing, zero_eq]
  split
  · rfl
  · rename_i hnot
    rw [le_antisymm (not_lt.1 hnot) (share_nonneg jitter), mul_zero, zero_mul]

theorem waited_eq_shaken (base cap jitter : Rat) (draw : Nat → Rat) (i : Nat) :
    waited base cap jitter draw i = shaken base cap jitter draw i := by
  rw [waited, unshaken_eq_nominal, clamp_eq_share, swing_share, larger_zero_eq, zero_eq,
    clamp_eq (le_max_right cap 0), shaken]

theorem backoffDelays_eq (attempts : Nat) (base cap jitter : Rat) (draw : Nat → Rat) :
    backoffDelays attempts base cap jitter draw =
      (List.range attempts).map (shaken base cap jitter draw) := by
  rw [backoffDelays_eq_map]
  exact List.map_congr_left fun i _ => waited_eq_shaken base cap jitter draw i

theorem le_shaken {i : Nat} (hdraw : -1 ≤ draw i) :
    nominal base cap i * (1 - share jitter) ≤ shaken base cap jitter draw i := by
  have hnonneg := nominal_nonneg base cap i
  have hswing := mul_nonneg hnonneg (share_nonneg jitter)
  apply le_max_of_le_right
  apply le_min
  · exact (mul_le_of_le_one_right hnonneg (by linarith [share_nonneg jitter])).trans
      (nominal_le_cap base cap i)
  · nlinarith only [hswing, hdraw]

theorem shaken_le {i : Nat} (hdraw : draw i ≤ 1) :
    shaken base cap jitter draw i ≤ min (nominal base cap i * (1 + share jitter)) (max cap 0) := by
  have hnonneg := nominal_nonneg base cap i
  have hswing := mul_nonneg hnonneg (share_nonneg jitter)
  apply max_le
  · exact le_min (mul_nonneg hnonneg (by linarith [share_nonneg jitter])) (le_max_right _ _)
  · rw [min_comm]
    apply min_le_min_right
    nlinarith only [hswing, hdraw]

theorem shaken_of_nonpos (h : jitter ≤ 0) (i : Nat) :
    shaken base cap jitter draw i = nominal base cap i := by
  rw [shaken, share_of_nonpos h, mul_zero, zero_mul, add_zero,
    min_eq_right (nominal_le_cap base cap i), max_eq_right (nominal_nonneg base cap i)]

end

/-- The delays in closed form: each is shaken by a share of its nominal delay, within this share and the
cap, and no draw reaches the next. Without jitter they are the nominal delays, which double until
they are at the cap. -/
theorem delays_in_envelope (attempts : Nat) (base cap jitter : Rat) (draw : Nat → Rat) :
    backoffDelays attempts base cap jitter draw =
      (List.range attempts).map (shaken base cap jitter draw) ∧
    (∀ i, -1 ≤ draw i → draw i ≤ 1 →
      nominal base cap i * (1 - share jitter) ≤ shaken base cap jitter draw i ∧
      shaken base cap jitter draw i ≤ min (nominal base cap i * (1 + share jitter)) (max cap 0)) ∧
    (jitter ≤ 0 → backoffDelays attempts base cap jitter draw =
      (List.range attempts).map (nominal base cap)) ∧
    ∀ i, nominal base cap i ≤ nominal base cap (i + 1) ∧
      nominal base cap (i + 1) = min (nominal base cap i * 2) (max cap 0) := by
  refine ⟨backoffDelays_eq attempts base cap jitter draw,
    fun i hlow hhigh => ⟨le_shaken hlow, shaken_le hhigh⟩, fun hjitter => ?_,
    fun i => ⟨nominal_le_succ base cap i, nominal_succ base cap i⟩⟩
  rw [backoffDelays_eq]
  exact List.map_congr_left fun i _ => shaken_of_nonpos hjitter i

theorem delays_in_envelope_alternating :
    backoffDelays 4 1 5 (1 / 2) (fun i => (-1 : Rat) ^ i) = [3 / 2, 1, 5, 5 / 2] ∧
    (∀ i, nominal 1 5 i * (1 - share (1 / 2)) ≤ shaken 1 5 (1 / 2) (fun i => (-1) ^ i) i) ∧
    backoffDelays 4 1 5 (-1) (fun i => (-1 : Rat) ^ i) = [1, 2, 4, 5] := by
  obtain ⟨hclosed, henvelope, -, -⟩ := delays_in_envelope 4 1 5 (1 / 2) fun i => (-1) ^ i
  obtain ⟨-, -, hplain, -⟩ := delays_in_envelope 4 1 5 (-1) fun i => (-1) ^ i
  have hdraw (i : Nat) : (-1 : Rat) ≤ (-1) ^ i ∧ (-1 : Rat) ^ i ≤ 1 := by
    rcases neg_one_pow_eq_or Rat i with h | h <;> rw [h] <;> norm_num
  refine ⟨?_, fun i => (henvelope i (hdraw i).1 (hdraw i).2).1, ?_⟩
  · rw [hclosed]
    decide +kernel
  · rw [hplain (by norm_num)]
    decide +kernel

end LegalEntity.Retry
