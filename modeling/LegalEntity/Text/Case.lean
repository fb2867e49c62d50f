import LegalEntity.Text.CaseTable
/-!
Upper and lower case. Upper-casing maps each character by itself, whatever stands around it, and
may lengthen a text: `ß` becomes `SS`.
-/

namespace LegalEntity.Text

def shiftIn : List (Nat × Nat × Nat × Int) → Nat → Int
  | [], _ => 0
  | (first, last, step, shift) :: rest, n =>
    if n < first then 0
    else if n ≤ last then if (n - first) % step = 0 then shift else shiftIn rest n
    else shiftIn rest n

def shiftBy (runs : List (Nat × Nat × Nat × Int)) (c : Char) : Char :=
  let shift := shiftIn runs c.toNat
  if shift = 0 then c else Char.ofNat (c.toNat + shift).toNat

def upper (c : Char) : List Char :=
  match upperExpansions.lookup c.toNat with
  | some ns => ns.map Char.ofNat
  | none => [shiftBy upperRuns c]

def lowerFirst (c : Char) : Char := shiftBy lowerRuns c

def uppercase (s : List Char) : List Char := s.flatMap upper

@[simp] theorem uppercase_append (s t : List Char) :
    uppercase (s ++ t) = uppercase s ++ uppercase t := by
  simp [uppercase]

end LegalEntity.Text
