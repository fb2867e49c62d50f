import LegalEntity.Decimal.Shortest
import LegalEntity.Json.Basic

namespace LegalEntity.Json

open Decimal (Number)

def decimalDigits (n : Nat) : List Char := Nat.toDigits 10 n

/-- Doubles from `10 ^ -5` up to `10 ^ 16` are written with a point and a digit on each side of it,
others with an exponent. -/
def positiveText (x : Float) : List Char :=
  let (k, e) := Decimal.shortest x
  let ds := decimalDigits k
  let place : Int := ds.length + e
  if 0 ≤ e ∧ place ≤ 16 then ds ++ List.replicate e.toNat '0' ++ ".0".toList
  else if 0 < place ∧ place ≤ 16 then ds.take place.toNat ++ '.' :: ds.drop place.toNat
  else if -5 < place ∧ place ≤ 0 then "0.".toList ++ List.replicate (-place).toNat '0' ++ ds
  else
    let mantissa := match ds with
      | [] => []
      | [d] => [d]
      | d :: ds => d :: '.' :: ds
    let power := place - 1
    mantissa ++ 'e' :: (if power < 0 then '-' else '+') :: decimalDigits power.natAbs

def floatText (x : Float) : List Char :=
  let sign := if (Decimal.parts x).negative then ['-'] else []
  if !x.isFinite then "null".toList
  else if x == 0.0 then sign ++ "0.0".toList
  else sign ++ positiveText x.abs

def numberText : Number → List Char
  | .int n => if n < 0 then '-' :: decimalDigits n.natAbs else decimalDigits n.natAbs
  | .double x => floatText x

def hexChar (n : Nat) : Char := Nat.digitChar n

def escapeChar (c : Char) : List Char :=
  if c = '"' then ['\\', '"']
  else if c = '\\' then ['\\', '\\']
  else if c.toNat = 0x08 then ['\\', 'b']
  else if c.toNat = 0x09 then ['\\', 't']
  else if c.toNat = 0x0A then ['\\', 'n']
  else if c.toNat = 0x0C then ['\\', 'f']
  else if c.toNat = 0x0D then ['\\', 'r']
  else if c.toNat < 0x20 then ['\\', 'u', '0', '0', hexChar (c.toNat / 16), hexChar (c.toNat % 16)]
  else [c]

def stringText (s : String) : List Char := '"' :: s.toList.flatMap escapeChar ++ ['"']

mutual

def print : Json → List Char
  | .null => "null".toList
  | .bool b => (if b then "true" else "false").toList
  | .number n => numberText n
  | .string s => stringText s
  | .array items => '[' :: printItems items
  | .object members => '\x7b' :: printMembers members

def printItems : List Json → List Char
  | [] => [']']
  | [v] => v.print ++ [']']
  | v :: w :: vs => v.print ++ ',' :: printItems (w :: vs)

def printMembers : List (String × Json) → List Char
  | [] => ['\x7d']
  | [(name, v)] => stringText name ++ ':' :: v.print ++ ['\x7d']
  | (name, v) :: m :: ms => stringText name ++ ':' :: v.print ++ ',' :: printMembers (m :: ms)

end

def render (v : Json) : String := String.ofList v.print

end LegalEntity.Json
