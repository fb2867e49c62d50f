import LegalEntity.Json.Basic
/-!
JSON documents as they were written: members in their order, with repetitions. A string that
stands for no text and a number that is too great are kept as `none`; they do harm only where their
value is asked for.
-/

namespace LegalEntity.Json

open Decimal (Number)

inductive Document
  | null
  | bool (b : Bool)
  | number (n : Option Number)
  | string (s : Option String)
  | array (items : List Document)
  | object (members : List (Option String × Document))
  deriving Inhabited

mutual

def Document.value? : Nat → Document → Option Json
  | _, .null => some .null
  | _, .bool b => some (.bool b)
  | _, .number n => n.map .number
  | _, .string s => s.map .string
  | 0, .array _ => none
  | 0, .object _ => none
  | depth + 1, .array items => (values? depth items).map .array
  | depth + 1, .object members => (memberValues? depth members).map ofMembers

def values? : Nat → List Document → Option (List Json)
  | _, [] => some []
  | depth, d :: ds => do return (← d.value? depth) :: (← values? depth ds)

def memberValues? : Nat → List (Option String × Document) → Option (List (String × Json))
  | _, [] => some []
  | depth, (name, d) :: ms => do
    return (← name, ← d.value? depth) :: (← memberValues? depth ms)

end

mutual

def toDocument : Json → Document
  | .null => .null
  | .bool b => .bool b
  | .number n => .number (some n)
  | .string s => .string (some s)
  | .array items => .array (toDocuments items)
  | .object members => .object (toMembers members)

def toDocuments : List Json → List Document
  | [] => []
  | v :: vs => v.toDocument :: toDocuments vs

def toMembers : List (String × Json) → List (Option String × Document)
  | [] => []
  | (name, v) :: ms => (some name, v.toDocument) :: toMembers ms

end

end LegalEntity.Json
