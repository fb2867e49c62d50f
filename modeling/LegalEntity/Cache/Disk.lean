import LegalEntity.Table

namespace LegalEntity.Cache

inductive Node
  | file (bytes : List UInt8)
  | directory
  deriving DecidableEq

inductive Disk
  /-- A regular file stands where a parent of the directory should be. -/
  | blocked
  | absent
  | present (nodes : Table Node)

inductive FileReading
  | bytes (s : List UInt8)
  | missing
  | failed
  deriving DecidableEq

namespace Disk

def read (name : String) : Disk → FileReading
  | .blocked => .failed
  | .absent => .missing
  | .present nodes =>
    match nodes.get? name with
    | some (.file s) => .bytes s
    | some .directory => .failed
    | none => .missing

def create? : Disk → Option Disk
  | .blocked => none
  | .absent => some (.present .empty)
  | .present nodes => some (.present nodes)

def nodes? : Disk → Option (Table Node)
  | .present nodes => some nodes
  | _ => none

def write? (name : String) (s : List UInt8) (d : Disk) : Option Disk := do
  let nodes ← d.nodes?
  if nodes.get? name = some .directory then none else return .present (nodes.insert name (.file s))

def remove (name : String) : Disk → Disk
  | .present nodes => .present (nodes.erase name)
  | d => d

def rename? (old new : String) (d : Disk) : Option Disk := do
  let nodes ← d.nodes?
  match nodes.get? old, nodes.get? new with
  | none, _ => none
  | some _, some .directory => none
  | some node, _ => return .present ((nodes.erase old).insert new node)

def names : Disk → List String
  | .present nodes => nodes.keys
  | _ => []

end Disk

end LegalEntity.Cache
