namespace LegalEntity.Name

/-- From the distances of a text to every suffix of `t`, longest first, those of the text with `c`
in front. -/
def nextRow (c : Char) : List Char → List Nat → List Nat
  | d :: ds, x :: y :: row =>
    let rest := nextRow c ds (y :: row)
    min (if c = d then y else y + 1) (min (x + 1) (rest.headD 0 + 1)) :: rest
  | _, row => row.map (· + 1)

def firstRow : List Char → List Nat
  | [] => [0]
  | _ :: ds => (ds.length + 1) :: firstRow ds

def editDistance (s t : List Char) : Nat :=
  (s.foldr (fun c row => nextRow c t row) (firstRow t)).headD 0

end LegalEntity.Name
