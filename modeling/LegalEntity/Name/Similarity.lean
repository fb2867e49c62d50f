import LegalEntity.Name.EditDistance
import LegalEntity.Name.NormalForm
import LegalEntity.Scalar
/-!
Similarity of names from 0 to 100: the best of several views of the two normal forms. Names of
about one length are compared as wholes, with their words sorted, and as sets of words; otherwise
the shorter is laid over every window of the longer, at a discount.
-/

namespace LegalEntity.Name

open Text Scalar

variable {α : Type} [Scalar α]

def ratio (s t : List Char) : α :=
  if s.isEmpty && t.isEmpty then 1.0 * 100.0
  else (1.0 - ofNat (editDistance s t) / ofNat (max s.length t.length)) * 100.0

def sortWords (ws : List (List Char)) : List (List Char) :=
  ws.mergeSort fun v w => !decide (w < v)

def sorted (s : List Char) : List Char := unwords (sortWords (words s))

def sortedRatio (s t : List Char) : α := ratio (sorted s) (sorted t)

def wordSet (s : List Char) : List (List Char) := sortWords (words s).eraseDups

def joined (s t : List Char) : List Char :=
  if s.isEmpty then t else if t.isEmpty then s else s ++ ' ' :: t

def wordSetRatio (s t : List Char) : α :=
  let common := unwords ((wordSet s).filter (wordSet t).contains)
  let onlyLeft := unwords ((wordSet s).filter (!(wordSet t).contains ·))
  let onlyRight := unwords ((wordSet t).filter (!(wordSet s).contains ·))
  if !common.isEmpty && (onlyLeft.isEmpty || onlyRight.isEmpty) then 100.0
  else
    let left := joined common onlyLeft
    let right := joined common onlyRight
    let whole : α := ratio left right
    if common.isEmpty then whole
    else larger (larger whole (ratio common left)) (ratio common right)

def windows (n : Nat) : List Char → List (List Char)
  | [] => []
  | c :: cs => if n ≤ cs.length + 1 then (c :: cs).take n :: windows n cs else []

def windowRatio (s t : List Char) : α :=
  let (short, long) := if s.length ≤ t.length then (s, t) else (t, s)
  if short.isEmpty then 0.0
  else ((windows short.length long).map (ratio short)).foldl larger 0.0

def normalSimilarity (s t : List Char) : α :=
  if s.isEmpty || t.isEmpty then 0.0
  else
    let proportion : α := ofNat (max s.length t.length) / ofNat (min s.length t.length)
    let whole : α := ratio s t
    if proportion < 1.5 then
      larger (larger whole (sortedRatio s t * 0.95)) (wordSetRatio s t * 0.95)
    else
      let discount : α := if proportion < 8.0 then 0.9 else 0.6
      larger (larger whole (windowRatio s t * discount))
        (windowRatio (sorted s) (sorted t) * 0.95 * discount)

def similarity (s t : String) : α :=
  normalSimilarity (normalForm s.toList) (normalForm t.toList)

end LegalEntity.Name
