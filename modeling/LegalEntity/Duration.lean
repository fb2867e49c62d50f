import LegalEntity.Decimal.Double

namespace LegalEntity

structure Duration where
  nanoseconds : Nat
  deriving DecidableEq

namespace Duration

def zero : Duration := ⟨0⟩

def perSecond : Nat := 1000000000

def ofSeconds (n : Nat) : Duration := ⟨n * perSecond⟩

/-- The nearest span, the even one of two. There is none for NaN, for negative numbers and from
`2 ^ 64` seconds on. -/
def ofSeconds? (x : Float) : Option Duration :=
  if x.isNaN || x < 0.0 || 18446744073709551616.0 ≤ x then none
  else
    let p := Decimal.parts x
    let (num, den) := Decimal.scaled p.significand p.exponent
    some ⟨Decimal.roundDiv (num * perSecond) den⟩

def wholeSeconds (d : Duration) : Nat := d.nanoseconds / perSecond

def milliseconds (d : Duration) : Nat := (d.nanoseconds + 999999) / 1000000

end Duration

end LegalEntity
