import LegalEntity.Proofs.Retry.Range
import LegalEntity.Proofs.Retry.Seconds

namespace LegalEntity.Retry.Policy

open Doubles Scalar

/-- The longest delay of a policy in seconds. A cap that is no number leaves none. -/
def ceiling (p : Policy) : Float := if p.cap = Float.nan then 0.0 else clamp 0.0 maxCap p.cap

def seconds (p : Policy) (entropy : UInt64) : List Float :=
  backoffDelays (min p.attempts maxAttempts) p.base (clamp 0.0 maxCap p.cap) p.jitter
    (Random.draw (p.seed.getD entropy))

theorem backoff_eq (p : Policy) (entropy : UInt64) : p.backoff entropy =
    (p.seconds entropy).map fun s => (Duration.ofSeconds? s).getD (.ofSeconds 3600) := rfl

theorem hasValue_maxCap : HasValue maxCap 3600 := by
  have hvalue : HasValue maxCap (signed .positive (dyadic (3600 * 2 ^ 41) (-41))) :=
    hasValue_of_unpack (by decide) rfl ⟨by decide, by decide, .inl (by decide)⟩ (by decide)
  norm_num [signed, dyadic] at hvalue
  exact hvalue

theorem zero_le_maxCap : 0.0 ≤ maxCap := (hasValue_zero.le_iff hasValue_maxCap).2 (by norm_num)

theorem exists_ceiling (p : Policy) : ∃ c, HasValue p.ceiling c ∧ 0 ≤ c ∧ c ≤ 3600 := by
  rw [ceiling]
  split
  · exact ⟨0, hasValue_zero, le_rfl, by norm_num⟩
  · rename_i hcap
    obtain ⟨hlow, hhigh⟩ := clamp_between hcap zero_le_maxCap
    exact exists_hasValue_between hasValue_zero hasValue_maxCap hlow hhigh

theorem larger_clamp (p : Policy) : larger (clamp 0.0 maxCap p.cap) 0.0 ≤ p.ceiling := by
  rw [larger_zero, ceiling]
  split
  · rename_i hpos
    have hcap : p.cap ≠ Float.nan := by
      intro hcap
      rw [hcap, clamp_nan] at hpos
      exact (lt_iff.1 hpos).2.1 rfl
    rw [if_neg hcap]
    exact le_self (lt_iff.1 hpos).2.1
  · split
    · exact le_self hasValue_zero.ne_nan
    · rename_i hcap
      exact (clamp_between hcap zero_le_maxCap).1

theorem clamp_ne_inf (p : Policy) : clamp 0.0 maxCap p.cap ≠ Float.inf := by
  intro h
  obtain ⟨c, hc, -, -⟩ := p.exists_ceiling
  have hle := p.larger_clamp
  rw [larger_zero_eq_inf_iff.2 h] at hle
  exact hc.ne_inf (eq_inf_of_inf_le hle)

theorem hasValue_of_mem_seconds {p : Policy} {entropy : UInt64} {c : Rat} (hc : HasValue p.ceiling c)
    {s : Float} (h : s ∈ p.seconds entropy) : ∃ q, HasValue s q ∧ 0 ≤ q ∧ q ≤ c := by
  rw [seconds, backoffDelays_eq_map] at h
  obtain ⟨i, -, rfl⟩ := List.mem_map.1 h
  have hnumber : waited p.base (clamp 0.0 maxCap p.cap) p.jitter
      (Random.draw (p.seed.getD entropy)) i ≠ Float.nan := fun hnan =>
    p.clamp_ne_inf ((waited_eq_nan_iff (Random.draw_between _ i)).1 hnan).1
  obtain ⟨hlow, hhigh⟩ := waited_between hnumber
  obtain ⟨c', hc', -, hle⟩ :=
    exists_hasValue_between hasValue_zero hc (zero_le_larger _) p.larger_clamp
  obtain ⟨q, hq, hq0, hqc⟩ := exists_hasValue_between hasValue_zero hc' hlow hhigh
  exact ⟨q, hq, hq0, hqc.trans hle⟩

def Spans (c : Rat) (s : Float) (d : Duration) : Prop :=
  Duration.ofSeconds? s = some d ∧ ∃ q, HasValue s q ∧ 0 ≤ q ∧ q ≤ c ∧
    d.nanoseconds = Decimal.nearest (q * Duration.perSecond)

theorem Spans.le {c : Rat} {s : Float} {d : Duration} (h : Spans c s d) :
    d.nanoseconds ≤ Decimal.nearest (c * Duration.perSecond) := by
  obtain ⟨-, q, -, -, hqc, hd⟩ := h
  rw [hd]
  exact Decimal.nearest_mono (mul_le_mul_of_nonneg_right hqc (Nat.cast_nonneg _))

theorem forall₂_spans (p : Policy) (entropy : UInt64) {c : Rat} (hc : HasValue p.ceiling c)
    (hc' : c ≤ 3600) : List.Forall₂ (Spans c) (p.seconds entropy) (p.backoff entropy) := by
  rw [backoff_eq, List.forall₂_map_right_iff, List.forall₂_same]
  intro s hs
  obtain ⟨q, hq, hq0, hqc⟩ := hasValue_of_mem_seconds hc hs
  have hspan := Duration.ofSeconds?_eq hq hq0 (hqc.trans_lt (hc'.trans_lt (by norm_num)))
  rw [hspan]
  exact ⟨hspan, q, hq, hq0, hqc, rfl⟩

/-- Every policy has a schedule: nothing before the first attempt, then one span for each delay in
seconds, rounded to nanoseconds and none longer than the ceiling. -/
theorem schedule_usable (p : Policy) (entropy : UInt64) :
    ∃ delays c, p.schedule? entropy = some (.zero :: delays) ∧
      p.schedule entropy = .zero :: delays ∧
      delays.length = min p.attempts 32 ∧
      HasValue p.ceiling c ∧ 0 ≤ c ∧ c ≤ 3600 ∧
      List.Forall₂ (Spans c) (p.seconds entropy) delays ∧
      ∀ d ∈ delays, d.nanoseconds ≤ Decimal.nearest (c * Duration.perSecond) := by
  obtain ⟨c, hc, hc0, hc1⟩ := p.exists_ceiling
  have hspans := p.forall₂_spans entropy hc hc1
  refine ⟨p.backoff entropy, c, p.schedule?_eq entropy, rfl, ?_, hc, hc0, hc1, hspans, ?_⟩
  · rw [← hspans.length_eq, seconds, backoffDelays_eq_map, List.length_map, List.length_range]
    rfl
  · intro d hd
    obtain ⟨i, hi, rfl⟩ := List.getElem_of_mem hd
    exact (hspans.get (hspans.length_eq ▸ hi) hi).le

end LegalEntity.Retry.Policy
