import LegalEntity.Scalar
/-!
Delays that double from a base up to a cap, each shaken by a share of itself. What is shaken off
one delay does not reach the next.
-/

namespace LegalEntity.Retry

open Scalar

variable {α : Type} [Scalar α]

def delaysFrom (cap jitter : α) (draw : Nat → α) : Nat → Nat → α → List α
  | 0, _, _ => []
  | n + 1, i, delay =>
    let swing : α := if (0.0 : α) < jitter then delay * jitter * draw i else 0.0
    clamp 0.0 cap (delay + swing)
      :: delaysFrom cap jitter draw n (i + 1) (smaller (delay * 2.0) cap)

def backoffDelays (attempts : Nat) (base cap jitter : α) (draw : Nat → α) : List α :=
  let cap := larger cap 0.0
  delaysFrom cap (clamp 0.0 1.0 jitter) draw attempts 0 (smaller (larger base 0.0) cap)

@[simp] theorem length_delaysFrom (cap jitter : α) (draw : Nat → α) (n i : Nat) (delay : α) :
    (delaysFrom cap jitter draw n i delay).length = n := by
  induction n generalizing i delay with
  | zero => rfl
  | succ n ih => simp [delaysFrom, ih]

end LegalEntity.Retry
