import LegalEntity.Resolver.Dialogue
import LegalEntity.Settings

namespace LegalEntity.Resolver

/-- Slots for searches. A slot that is given back is handed to the caller that waits longest, who
takes it when it goes on. -/
structure Gate where
  free : Nat
  waiting : List Nat
  handed : List Nat
  deriving DecidableEq

namespace Gate

def maxSlots : Nat := Nat.pow 2 61 - 1

def ofSlots? (n : Nat) : Option Gate := if n ≤ maxSlots then some ⟨n, [], []⟩ else none

def enter (g : Gate) (caller : Nat) : Bool × Gate :=
  if g.handed.contains caller then (true, { g with handed := g.handed.erase caller })
  else if 0 < g.free then (true, { g with free := g.free - 1 })
  else if g.waiting.contains caller then (false, g)
  else (false, { g with waiting := g.waiting ++ [caller] })

def leave (g : Gate) : Gate :=
  match g.waiting with
  | [] => { g with free := g.free + 1 }
  | caller :: rest => { g with waiting := rest, handed := caller :: g.handed }

end Gate

inductive IndexCell
  | unclaimed
  | loading
  | ready (index : Option IsinIndex)
  deriving DecidableEq

structure Shared where
  gate : Gate
  index : IndexCell
  scratch : List (Nat × Option (List UInt8))
  scratches : Nat
  deriving DecidableEq

inductive Served (α : Type)
  | answered (answer : α) (s : Shared)
  /-- The caller has to try again. -/
  | blocked (s : Shared)

namespace Shared

def ofSettings? (settings : Settings α) (index : Option IsinIndex) : Option Shared := do
  let gate ← Gate.ofSlots? settings.slots
  let cell := match index with
    | none => .unclaimed
    | some x => .ready (if x.isEmpty then none else some x)
  return { gate, index := cell, scratch := [], scratches := 0 }

def write (s : Shared) (scratch : Nat) (bytes : List UInt8) : Shared :=
  { s with scratch := s.scratch.map fun e => if e.1 = scratch then (e.1, some bytes) else e }

def serve (s : Shared) (caller : Nat) : (op : Op) → Option (Served op.Answer)
  | .enter =>
    let (inside, gate) := s.gate.enter caller
    some (if inside then .answered () { s with gate } else .blocked { s with gate })
  | .leave => some (.answered () { s with gate := s.gate.leave })
  | .claimIndex =>
    match s.index with
    | .unclaimed => some (.answered .load { s with index := .loading })
    | .loading => some (.blocked s)
    | .ready index => some (.answered (.ready index) s)
  | .publishIndex index => some (.answered () { s with index := .ready index })
  | .openScratch =>
    some (.answered (.ok s.scratches)
      { s with scratch := (s.scratches, none) :: s.scratch, scratches := s.scratches + 1 })
  | .readScratch scratch => some (.answered ((s.scratch.lookup scratch).join) s)
  | .closeScratch scratch =>
    some (.answered () { s with scratch := s.scratch.filter (·.1 != scratch) })
  | _ => none

def hasIndex (s : Shared) : Bool :=
  match s.index with
  | .ready (some _) => true
  | _ => false

end Shared

end LegalEntity.Resolver
