namespace LegalEntity

class Scalar (α : Type) extends Add α, Sub α, Mul α, Div α, OfScientific α, BEq α, LT α where
  ofNat : Nat → α
  decidableLT : DecidableLT α
  totalLE : α → α → Bool

instance Scalar.instDecidableLT [s : Scalar α] : DecidableLT α := s.decidableLT

/-- The bits of a double as an integer that grows with it: NaN, -∞, …, -0, 0, …, ∞, NaN. -/
def totalKey (x : Float) : Int :=
  let bits := x.toBits.toNat
  if bits < Nat.pow 2 63 then bits else (Nat.pow 2 63 : Nat) - 1 - bits

instance : Scalar Float where
  ofNat := Float.ofNat
  decidableLT := inferInstance
  totalLE x y := totalKey x ≤ totalKey y

instance : Scalar Rat where
  ofNat n := n
  decidableLT := inferInstance
  totalLE x y := x ≤ y

namespace Scalar

variable [Scalar α]

/-- The larger number, of equal ones the second. A value that is no number gives way. -/
def larger (x y : α) : α := if y < x then x else if y == y then y else x

def smaller (x y : α) : α := if y < x then y else if x == x then x else y

def clamp (low high x : α) : α :=
  let x := if x < low then low else x
  if high < x then high else x

end Scalar

end LegalEntity
