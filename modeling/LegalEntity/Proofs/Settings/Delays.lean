import LegalEntity.Retry.Policy

namespace LegalEntity.Scalar

variable {α : Type} [Scalar α]

def areBounds (low high : α) : Bool := low < high || low == high

def clamp? (low high x : α) : Option α := if areBounds low high then some (clamp low high x) else none

theorem clamp?_eq {low high : α} (h : areBounds low high = true) (x : α) :
    clamp? low high x = some (clamp low high x) := if_pos h

theorem areBounds_larger (hzero : ((0.0 : α) == 0.0) = true) (x : α) :
    areBounds 0.0 (larger x 0.0) = true := by
  rw [larger, areBounds]
  split
  · rename_i hlarger
    simp [hlarger]
  · simp [hzero]

end LegalEntity.Scalar

namespace LegalEntity.Retry

open Scalar

section

variable {α : Type} [Scalar α]

def delaysFrom? (cap jitter : α) (draw : Nat → α) : Nat → Nat → α → Option (List α)
  | 0, _, _ => some []
  | n + 1, i, delay => do
    let swing : α := if (0.0 : α) < jitter then delay * jitter * draw i else 0.0
    let first ← clamp? 0.0 cap (delay + swing)
    let rest ← delaysFrom? cap jitter draw n (i + 1) (smaller (delay * 2.0) cap)
    return first :: rest

def backoffDelays? (attempts : Nat) (base cap jitter : α) (draw : Nat → α) : Option (List α) := do
  let cap := larger cap 0.0
  let jitter ← clamp? 0.0 1.0 jitter
  delaysFrom? cap jitter draw attempts 0 (smaller (larger base 0.0) cap)

theorem delaysFrom?_eq {cap : α} (hcap : areBounds 0.0 cap = true) (jitter : α) (draw : Nat → α)
    (n i : Nat) (delay : α) :
    delaysFrom? cap jitter draw n i delay = some (delaysFrom cap jitter draw n i delay) := by
  induction n generalizing i delay with
  | zero => rfl
  | succ n ih =>
    rw [delaysFrom?, clamp?_eq hcap, ih]
    rfl

theorem backoffDelays?_eq (hzero : ((0.0 : α) == 0.0) = true)
    (hone : areBounds (0.0 : α) 1.0 = true) (attempts : Nat) (base cap jitter : α) (draw : Nat → α) :
    backoffDelays? attempts base cap jitter draw =
      some (backoffDelays attempts base cap jitter draw) := by
  rw [backoffDelays?, clamp?_eq hone]
  exact delaysFrom?_eq (areBounds_larger hzero cap) ..

end

namespace Policy

/-- The delays before the retries, with every step checked: a value is put between two bounds only
if these are numbers in their order, and only spans that there are are taken for one. -/
def backoff? (p : Policy) (entropy : UInt64) : Option (List Duration) := do
  let cap ← clamp? 0.0 maxCap p.cap
  let longest ← Duration.ofSeconds? maxCap
  let delays ← backoffDelays? (min p.attempts maxAttempts) p.base cap p.jitter
    (Random.draw (p.seed.getD entropy))
  return delays.map fun s => (Duration.ofSeconds? s).getD longest

def schedule? (p : Policy) (entropy : UInt64) : Option (List Duration) :=
  (p.backoff? entropy).map (.zero :: ·)

theorem ofSeconds?_maxCap : Duration.ofSeconds? maxCap = some (.ofSeconds 3600) := by decide +kernel

theorem backoff?_eq (p : Policy) (entropy : UInt64) : p.backoff? entropy = some (p.backoff entropy) := by
  have hzero : ((0.0 : Float) == 0.0) = true := by decide +kernel
  have hone : areBounds (0.0 : Float) 1.0 = true := by decide +kernel
  have hcap : areBounds 0.0 maxCap = true := by decide +kernel
  rw [backoff?, clamp?_eq hcap, ofSeconds?_maxCap]
  simp only [Option.bind_eq_bind, Option.bind_some, backoffDelays?_eq hzero hone]
  rfl

theorem schedule?_eq (p : Policy) (entropy : UInt64) :
    p.schedule? entropy = some (p.schedule entropy) := by
  rw [schedule?, backoff?_eq]
  rfl

end Policy

end LegalEntity.Retry
