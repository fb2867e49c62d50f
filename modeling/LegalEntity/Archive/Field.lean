namespace LegalEntity.Archive

abbrev Bytes := Array UInt8

def slice? (s : Bytes) (place n : Nat) : Option (List UInt8) :=
  let bs := s.extract place (place + n)
  if bs.size = n then some bs.toList else none

def numberOf (s : List UInt8) : Nat := s.foldr (fun b m => 256 * m + b.toNat) 0

def field? (s : Bytes) (place n : Nat) : Option Nat := (slice? s place n).map numberOf

def hasMark (s : Bytes) (mark place : Nat) : Bool := field? s place 4 == some mark

def marks (s : Bytes) (mark start stop : Nat) : List Nat :=
  ((List.range (stop - start - 3)).map (start + ·)).filter (hasMark s mark)

end LegalEntity.Archive
