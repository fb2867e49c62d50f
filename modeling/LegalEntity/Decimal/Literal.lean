/-!
Decimal literals and the numbers they stand for. A literal without fraction and exponent is an
integer if 64 bits hold it; every other one is a double. Of the digits of a double, as many leading
ones count as fit into 64 bits; the others only shift. The double of those digits is then
multiplied or divided by a power of ten.
-/

namespace LegalEntity.Decimal

inductive Number
  | int (n : Int)
  | double (x : Float)
  deriving DecidableEq

def Number.toFloat : Number → Float
  | .int n => if 0 ≤ n then n.toNat.toUInt64.toFloat else -(n.natAbs.toUInt64.toFloat)
  | .double x => x

structure Literal where
  negative : Bool
  whole : List Nat
  fraction : List Nat
  exponent : Option (Bool × List Nat)
  deriving DecidableEq

def valueOf (digits : List Nat) : Nat := digits.foldl (fun n d => 10 * n + d) 0

def maxWord : Nat := Nat.pow 2 64 - 1

/-- Takes in leading digits as long as the value fits into 64 bits. The second result counts the
digits that are left. -/
def gather (value : Nat) : List Nat → Nat × Nat
  | [] => (value, 0)
  | d :: ds =>
    if 10 * value + d ≤ maxWord then gather (10 * value + d) ds else (value, ds.length + 1)

def tenTo (n : Nat) : Float := Float.ofScientific 1 false n

def maxPower : Nat := 308

def shrink (x : Float) (n : Nat) : Float :=
  if n ≤ maxPower then x / tenTo n
  else if x == 0.0 then x
  else shrink (x / tenTo maxPower) (n - maxPower)
termination_by n
decreasing_by simp [maxPower] at *; omega

def shift? (value : Nat) (n : Int) : Option Float :=
  let x := value.toUInt64.toFloat
  if n < 0 then some (shrink x n.natAbs)
  else if maxPower < n.natAbs then if x == 0.0 then some x else none
  else
    let y := x * tenTo n.natAbs
    if y.isInf then none else some y

namespace Literal

def isPlain (l : Literal) : Bool := l.fraction.isEmpty && l.exponent.isNone

def double? (l : Literal) : Option Float :=
  let (wholePart, dropped) := gather 0 l.whole
  let (value, left) := gather wholePart l.fraction
  let point : Int := (dropped : Int) - (l.fraction.length - left : Nat)
  let magnitude := match l.exponent with
    | none => shift? value point
    | some (negative, digits) =>
      let e := valueOf digits
      if Nat.pow 2 31 ≤ e then if value ≠ 0 && !negative then none else some 0.0
      else shift? value (if negative then point - e else point + e)
  magnitude.map fun x => if l.negative then -x else x

def number? (l : Literal) : Option Number :=
  let n := valueOf l.whole
  if l.isPlain && !l.negative && n ≤ maxWord then some (.int n)
  else if l.isPlain && l.negative && 0 < n && n ≤ Nat.pow 2 63 then some (.int (-n))
  else l.double?.map .double

end Literal

end LegalEntity.Decimal
