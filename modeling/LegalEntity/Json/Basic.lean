import LegalEntity.Decimal.Literal
import LegalEntity.Table
/-!
JSON values. The members of an object are in ascending order of their names, each name once.
-/

namespace LegalEntity

open Decimal (Number)

inductive Json
  | null
  | bool (b : Bool)
  | number (n : Number)
  | string (s : String)
  | array (items : List Json)
  | object (members : List (String × Json))
  deriving Inhabited

namespace Json

def ofTable (t : Table Json) : Json := .object t.entries

def ofMembers (members : List (String × Json)) : Json := ofTable (Table.ofList members)

def ofNat (n : Nat) : Json := .number (.int n)

/-- A value that is no finite number is `null`. -/
def ofFloat (x : Float) : Json := if x.isFinite then .number (.double x) else .null

def ofOption (f : α → Json) : Option α → Json
  | none => .null
  | some a => f a

def strings (t : Table String) : Json := .object (t.entries.map fun e => (e.1, .string e.2))

end Json

end LegalEntity
