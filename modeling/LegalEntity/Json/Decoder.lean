import LegalEntity.Json.Document
/-!
Typed readings of JSON documents. A record is an object that holds none of its fields twice, other
members being passed over, or an array of its fields in order.
-/

namespace LegalEntity.Json

abbrev Decoder (α : Type) := Document → Option α

namespace Decoder

def string : Decoder String
  | .string s => s
  | _ => none

def double : Decoder Float
  | .number n => n.map (·.toFloat)
  | _ => none

def word : Decoder Nat
  | .number (some (.int n)) => if 0 ≤ n ∧ n ≤ Decimal.maxWord then some n.toNat else none
  | _ => none

def optional (d : Decoder α) : Decoder (Option α)
  | .null => some none
  | v => (d v).map some

def list (d : Decoder α) : Decoder (List α)
  | .array items => items.mapM d
  | _ => none

def table (d : Decoder α) : Decoder (Table α)
  | .object members => do
    return Table.ofList (← members.mapM fun m => do return (← m.1, ← d m.2))
  | _ => none

end Decoder

def maxDepth : Nat := 127

structure Fields where
  positional : Bool
  values : List (String × Document)

namespace Fields

def repeated : List String → Bool
  | [] => false
  | n :: ns => ns.contains n || repeated ns

def of? (names : List String) : Document → Option Fields
  | .array items =>
    if items.length ≤ names.length then some ⟨true, names.zip items⟩ else none
  | .object members => do
    let members ← members.mapM fun m => m.1.map (·, m.2)
    let known := members.filter fun m => names.contains m.1
    if repeated (known.map (·.1)) then none else some ⟨false, known⟩
  | _ => none

def get? (f : Fields) (name : String) : Option Document := f.values.lookup name

def required (f : Fields) (name : String) (d : Decoder α) : Option α := (f.get? name).bind d

def optional (f : Fields) (name : String) (d : Decoder α) : Option (Option α) :=
  match f.get? name with
  | some v => Decoder.optional d v
  | none => if f.positional then none else some none

def withDefault (f : Fields) (name : String) (default : α) (d : Decoder α) : Option α :=
  match f.get? name with
  | some v => d v
  | none => some default

end Fields

end LegalEntity.Json
