import LegalEntity.Error

namespace LegalEntity.Registry

abbrev Parameters := List (String × String)

structure Reply where
  status : Nat
  body : List UInt8
  deriving DecidableEq

/-- Nothing but a failure to reach the registry is an error. -/
abbrev Outcome := Except Error Reply

end LegalEntity.Registry
