namespace LegalEntity.Decimal

structure Parts where
  negative : Bool
  significand : Nat
  exponent : Int
  deriving DecidableEq

def parts (x : Float) : Parts :=
  let bits := x.toBits.toNat
  let fraction := bits % Nat.pow 2 52
  let biased := bits / Nat.pow 2 52 % Nat.pow 2 11
  { negative := Nat.pow 2 63 ≤ bits
    significand := if biased = 0 then fraction else fraction + Nat.pow 2 52
    exponent := (max biased 1 : Nat) - 1075 }

/-- The integer nearest to `num / den`, the even one of two. -/
def roundDiv (num den : Nat) : Nat :=
  let q := num / den
  let r := num % den
  if 2 * r < den then q else if den < 2 * r then q + 1 else q + q % 2

def scaled (m : Nat) (e : Int) : Nat × Nat :=
  if 0 ≤ e then (m * Nat.pow 2 e.toNat, 1) else (m, Nat.pow 2 (-e).toNat)

end LegalEntity.Decimal
