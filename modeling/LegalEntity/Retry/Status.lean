namespace LegalEntity.Retry

inductive StatusClass
  | success
  | transient
  | final
  deriving DecidableEq

def isSuccess (status : Nat) : Bool := 200 ≤ status && status < 300

def transientStatuses : List Nat := [429, 502, 503, 504]

def StatusClass.of (status : Nat) : StatusClass :=
  if isSuccess status then .success
  else if transientStatuses.contains status then .transient
  else .final

end LegalEntity.Retry
