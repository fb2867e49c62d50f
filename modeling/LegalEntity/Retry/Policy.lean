import LegalEntity.Duration
import LegalEntity.Random.ChaCha
import LegalEntity.Retry.Backoff

namespace LegalEntity.Retry

structure Policy where
  attempts : Nat
  base : Float
  cap : Float
  jitter : Float
  /-- Without a seed every schedule draws one of its own. -/
  seed : Option UInt64
  deriving DecidableEq

namespace Policy

def default : Policy := ⟨5, 1.0, 64.0, 0.1, none⟩

instance : Inhabited Policy := ⟨default⟩

def never : Policy := { default with attempts := 0 }

def maxAttempts : Nat := 32

def maxCap : Float := 3600.0

def backoff (p : Policy) (entropy : UInt64) : List Duration :=
  (backoffDelays (min p.attempts maxAttempts) p.base (Scalar.clamp 0.0 maxCap p.cap) p.jitter
    (Random.draw (p.seed.getD entropy))).map
    fun s => (Duration.ofSeconds? s).getD (.ofSeconds 3600)

def schedule (p : Policy) (entropy : UInt64) : List Duration := .zero :: p.backoff entropy

end Policy

end LegalEntity.Retry
