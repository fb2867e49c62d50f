import LegalEntity.Duration
import LegalEntity.Error
import LegalEntity.Json.Decoder
import LegalEntity.Timestamp
/-!
Stores of JSON values by key. Their faults end no search: a value that cannot be read counts as
absent, and one that cannot be written is dropped.
-/

namespace LegalEntity.Cache

structure Moment where
  now : Timestamp
  entropy : UInt64

class Store (σ : Type) where
  get : Moment → String → σ → Except Error (Option Json) × σ
  put : Moment → String → Json → σ → Except Error Unit × σ
  /-- How often a caller lets others go first before a key is read. -/
  getRests : String → σ → Nat := fun _ _ => 0
  putRests : String → σ → Nat := fun _ _ => 0

def isExpired (lifetime : Option Duration) (written now : Int) : Bool :=
  lifetime.any fun d => written ≤ now && d.nanoseconds ≤ now - written

def decoded? (d : Json.Decoder α) : Except Error (Option Json) → Option α
  | .ok (some v) => d v.toDocument
  | _ => none

end LegalEntity.Cache
