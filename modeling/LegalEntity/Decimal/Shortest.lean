import LegalEntity.Decimal.Double
/-!
The shortest decimal that reads back as a given double, and of those the nearest to it.
-/

namespace LegalEntity.Decimal

structure Interval where
  low : Nat
  middle : Nat
  high : Nat
  den : Nat
  closed : Bool

/-- A power of two has only half the room below it. -/
def interval (p : Parts) : Interval :=
  let below := if p.significand = Nat.pow 2 52 ∧ -1074 < p.exponent then 1 else 2
  let (_, den) := scaled 1 (p.exponent - 2)
  let (unit, _) := scaled 1 (p.exponent - 2)
  { low := (4 * p.significand - below) * unit
    middle := 4 * p.significand * unit
    high := (4 * p.significand + 2) * unit
    den
    closed := p.significand % 2 = 0 }

def Interval.contains (i : Interval) (num den : Nat) : Bool :=
  let x := num * i.den
  if i.closed then i.low * den ≤ x && x ≤ i.high * den else i.low * den < x && x < i.high * den

def Interval.onGrid? (i : Interval) (e : Int) : Option Nat :=
  let (num, den) := if 0 ≤ e then (Nat.pow 10 e.toNat, 1) else (1, Nat.pow 10 (-e).toNat)
  let k := i.middle * den / (i.den * num)
  let lower := i.contains (k * num) den
  let upper := i.contains ((k + 1) * num) den
  if lower && upper then some (roundDiv (i.middle * den) (i.den * num))
  else if lower then some k
  else if upper then some (k + 1)
  else none

def leadingPlace (num den : Nat) : Int :=
  if den ≤ num then ((Nat.toDigits 10 (num / den)).length : Int) - 1
  else
    let n := (Nat.toDigits 10 (den / num)).length
    if den ≤ num * Nat.pow 10 (n - 1) then -((n : Int) - 1) else -(n : Int)

def search (i : Interval) (place : Int) : Nat → Nat → Nat × Int
  | 0, _ => (0, 0)
  | tries + 1, digits =>
    let e := place - digits
    match i.onGrid? e with
    | some k => (k, e)
    | none => search i place tries (digits + 1)

def normalize : Nat → Nat → Int → Nat × Int
  | 0, k, e => (k, e)
  | n + 1, k, e => if k ≠ 0 ∧ k % 10 = 0 then normalize n (k / 10) (e + 1) else (k, e)

def shortest (x : Float) : Nat × Int :=
  let i := interval (parts x)
  let (k, e) := search i (leadingPlace i.middle i.den) 18 0
  normalize 20 k e

end LegalEntity.Decimal
