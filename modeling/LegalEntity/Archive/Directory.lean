import LegalEntity.Archive.Ending
import LegalEntity.Archive.Entry

namespace LegalEntity.Archive

def entryAt? (s : Bytes) (p : Place) (position : Nat) : Option (Entry × Nat) := do
  if !hasMark s entryMark position then none
  let flags ← field? s (position + 8) 2
  let nameLength ← field? s (position + 28) 2
  let extraLength ← field? s (position + 30) 2
  let commentLength ← field? s (position + 32) 2
  let rawName ← slice? s (position + 46) nameLength
  let extra ← slice? s (position + 46 + nameLength) extraLength
  let comment ← slice? s (position + 46 + nameLength + extraLength) commentLength
  let e : Entry := {
    rawName
    name := nameOf (flags.testBit 11) rawName
    comment := nameOf (flags.testBit 11) comment
    isEncrypted := flags.testBit 0
    isSealed := false
    method := ← field? s (position + 10) 2
    crc := ← field? s (position + 16) 4
    fullSize := ← field? s (position + 24) 4
    packedSize := ← field? s (position + 20) 4
    header := ← field? s (position + 42) 4 }
  let e ← amended? extra.length e extra
  if e.method = sealedMethod ∧ !e.isSealed ∨ p.start ≤ e.header + p.shift then none
  return ({ e with header := e.header + p.shift },
    position + 46 + nameLength + extraLength + commentLength)

def entries? (s : Bytes) (p : Place) : Nat → Nat → Option (List Entry)
  | 0, _ => some []
  | n + 1, position => do
    let (e, position) ← entryAt? s p position
    return e :: (← entries? s p n position)

def addEntry (es : List Entry) (e : Entry) : List Entry :=
  if es.any (·.name == e.name) then es.map fun d => if d.name == e.name then e else d
  else es ++ [e]

/-- The last ending that leads to a directory counts. -/
def directory? (s : Bytes) : Option (List Entry) :=
  fromEnd? s fun p => do return (← entries? s p p.entries p.start).foldl addEntry []

end LegalEntity.Archive
