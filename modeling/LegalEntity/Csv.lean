/-!
Records of comma-separated values. A field in quotes may hold commas, line breaks and, doubled,
quotes; what follows its closing quote is added to it. Empty lines are no records.
-/

namespace LegalEntity.Csv

abbrev Record := List (List UInt8)

def comma : UInt8 := 0x2C

def quote : UInt8 := 0x22

def isBreak (b : UInt8) : Bool := b == 0x0A || b == 0x0D

inductive Place
  | outside
  | start
  | plain
  | quoted
  | closing
  deriving DecidableEq

inductive Action
  | take (next : Place)
  | skip (next : Place)
  | endField
  | endRecord
  deriving DecidableEq

def plainAction (b : UInt8) : Action :=
  if b == comma then .endField else if isBreak b then .endRecord else .take .plain

def startAction (b : UInt8) : Action := if b == quote then .skip .quoted else plainAction b

def action : Place → UInt8 → Action
  | .outside, b => if isBreak b then .skip .outside else startAction b
  | .start, b => startAction b
  | .plain, b => plainAction b
  | .quoted, b => if b == quote then .skip .closing else .take .quoted
  | .closing, b => if b == quote then .take .quoted else plainAction b

structure Reading where
  records : List Record
  rest : Option Record

/-- `field` and `fields` hold what is read of the record, last first. -/
def scan : Place → List UInt8 → Record → List UInt8 → Reading
  | .outside, _, _, [] => ⟨[], none⟩
  | _, field, fields, [] => ⟨[], some (field.reverse :: fields).reverse⟩
  | place, field, fields, b :: bs =>
    match action place b with
    | .take next => scan next (b :: field) fields bs
    | .skip next => scan next field fields bs
    | .endField => scan .start [] (field.reverse :: fields) bs
    | .endRecord =>
      let r := scan .outside [] [] bs
      { r with records := (field.reverse :: fields).reverse :: r.records }

def read (s : List UInt8) : Reading := scan .outside [] [] s

end LegalEntity.Csv
