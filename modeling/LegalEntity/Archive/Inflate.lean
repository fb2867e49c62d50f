namespace LegalEntity.Archive.Inflate

abbrev Bits := List Bool

def bitsOfByte (b : UInt8) : Bits := (List.range 8).map fun i => b.toNat.testBit i

def bitsOf (s : List UInt8) : Bits := s.flatMap bitsOfByte

inductive Fault
  | truncated
  | corrupt
  deriving DecidableEq

def number : Nat → Bits → Except Fault (Nat × Bits)
  | 0, s => .ok (0, s)
  | _ + 1, [] => .error .truncated
  | n + 1, b :: s => do
    let (m, s) ← number n s
    return (2 * m + b.toNat, s)

/-- A canonical code: how many words of each length there are, from length one on, and the symbols
in the order of their words. -/
structure Code where
  counts : List Nat
  symbols : List Nat

def Code.ofLengths (lengths : List Nat) : Code :=
  let numbered := (List.range lengths.length).zip lengths
  let ofLength (n : Nat) := (numbered.filter (·.2 == n)).map (·.1)
  { counts := (List.range 15).map fun n => (ofLength (n + 1)).length
    symbols := (List.range 15).flatMap fun n => ofLength (n + 1) }

def Code.room (c : Code) : Int := c.counts.foldl (fun (room : Int) (n : Nat) => 2 * room - n) 1

/-- A code may be incomplete if it has no word, or one of a single bit. -/
def Code.isSound (c : Code) : Bool :=
  c.room == 0 || c.symbols.isEmpty || (c.symbols.length == 1 && c.counts.head? == some 1)

/-- `first` is the first word of the current length, `base` the number of shorter words. A word
fails as soon as there are no longer ones. -/
def decodeFrom (symbols : List Nat) (word first base : Nat) :
    List Nat → Bits → Except Fault (Nat × Bits)
  | [], _ => .error .corrupt
  | _ :: _, [] => .error .truncated
  | count :: counts, b :: s =>
    let word := 2 * word + b.toNat
    if word < first + count then
      match symbols[base + (word - first)]? with
      | some symbol => .ok (symbol, s)
      | none => .error .corrupt
    else if counts.all (· == 0) then .error .corrupt
    else decodeFrom symbols word (2 * (first + count)) (base + count) counts s

def Code.decode (c : Code) (s : Bits) : Except Fault (Nat × Bits) :=
  decodeFrom c.symbols 0 0 0 c.counts s

def Code.checked (lengths : List Nat) : Except Fault Code :=
  let c := Code.ofLengths lengths
  if c.isSound then .ok c else .error .corrupt

def Code.complete (lengths : List Nat) : Except Fault Code :=
  let c := Code.ofLengths lengths
  if c.room == 0 then .ok c else .error .corrupt

def lengthBases : List (Nat × Nat) :=
  [(3, 0), (4, 0), (5, 0), (6, 0), (7, 0), (8, 0), (9, 0), (10, 0), (11, 1), (13, 1), (15, 1),
    (17, 1), (19, 2), (23, 2), (27, 2), (31, 2), (35, 3), (43, 3), (51, 3), (59, 3), (67, 4),
    (83, 4), (99, 4), (115, 4), (131, 5), (163, 5), (195, 5), (227, 5), (258, 0)]

def distanceBases : List (Nat × Nat) :=
  [(1, 0), (2, 0), (3, 0), (4, 0), (5, 1), (7, 1), (9, 2), (13, 2), (17, 3), (25, 3), (33, 4),
    (49, 4), (65, 5), (97, 5), (129, 6), (193, 6), (257, 7), (385, 7), (513, 8), (769, 8),
    (1025, 9), (1537, 9), (2049, 10), (3073, 10), (4097, 11), (6145, 11), (8193, 12), (12289, 12),
    (16385, 13), (24577, 13)]

def extended (bases : List (Nat × Nat)) (i : Nat) (s : Bits) : Except Fault (Nat × Bits) :=
  match bases[i]? with
  | none => .error .corrupt
  | some (base, n) => do
    let (m, s) ← number n s
    return (base + m, s)

def fixedLengths : List Nat :=
  List.replicate 144 8 ++ List.replicate 112 9 ++ List.replicate 24 7 ++ List.replicate 8 8

def fixedDistances : List Nat := List.replicate 32 5

def lengthOrder : List Nat := [16, 17, 18, 0, 8, 7, 9, 6, 10, 5, 11, 4, 12, 3, 13, 2, 14, 1, 15]

def numbers : Nat → Bits → Except Fault (List Nat × Bits)
  | 0, s => .ok ([], s)
  | n + 1, s => do
    let (m, s) ← number 3 s
    let (ms, s) ← numbers n s
    return (m :: ms, s)

def codeLengths (c : Code) (total : Nat) : Nat → List Nat → Bits → Except Fault (List Nat × Bits)
  | 0, _, _ => .error .corrupt
  | fuel + 1, lengths, s =>
    if total < lengths.length then .error .corrupt
    else if lengths.length = total then .ok (lengths.reverse, s)
    else do
      let (symbol, s) ← c.decode s
      if symbol < 16 then codeLengths c total fuel (symbol :: lengths) s
      else if symbol = 16 then
        match lengths with
        | [] => .error .corrupt
        | last :: _ =>
          let (n, s) ← number 2 s
          codeLengths c total fuel (List.replicate (3 + n) last ++ lengths) s
      else if symbol = 17 then
        let (n, s) ← number 3 s
        codeLengths c total fuel (List.replicate (3 + n) 0 ++ lengths) s
      else
        let (n, s) ← number 7 s
        codeLengths c total fuel (List.replicate (11 + n) 0 ++ lengths) s

def dynamicCodes (s : Bits) : Except Fault (Code × Code × Bits) := do
  let (nLengths, s) ← number 5 s
  let (nDistances, s) ← number 5 s
  let (nOrder, s) ← number 4 s
  if 29 < nLengths ∨ 29 < nDistances then .error .corrupt
  let (given, s) ← numbers (nOrder + 4) s
  let byOrder := lengthOrder.zip given
  let c ← Code.complete ((List.range 19).map fun i => (byOrder.lookup i).getD 0)
  let total := nLengths + 257 + (nDistances + 1)
  let (lengths, s) ← codeLengths c total (total + 1) [] s
  let literals ← Code.checked (lengths.take (nLengths + 257))
  let distances ← Code.checked (lengths.drop (nLengths + 257))
  return (literals, distances, s)

structure Progress where
  output : Array UInt8
  rest : Except Fault Bits

/-- The byte `distance` before the end. Before the first byte there are zeros. -/
def back (distance : Nat) (out : Array UInt8) : UInt8 :=
  if distance ≤ out.size then out.getD (out.size - distance) 0 else 0

def copy (distance : Nat) : Nat → Array UInt8 → Array UInt8
  | 0, out => out
  | n + 1, out => copy distance n (out.push (back distance out))

/-- Each step reads a bit at least, so the number of bits is fuel enough. -/
def block (literals distances : Code) : Nat → Array UInt8 → Bits → Progress
  | 0, out, _ => ⟨out, .error .truncated⟩
  | fuel + 1, out, s =>
    match literals.decode s with
    | .error e => ⟨out, .error e⟩
    | .ok (symbol, s) =>
      if symbol < 256 then block literals distances fuel (out.push symbol.toUInt8) s
      else if symbol = 256 then ⟨out, .ok s⟩
      else
        let pair := do
          let (length, s) ← extended lengthBases (symbol - 257) s
          let (i, s) ← distances.decode s
          let (distance, s) ← extended distanceBases i s
          return (length, distance, s)
        match pair with
        | .error e => ⟨out, .error e⟩
        | .ok (length, distance, s) =>
          block literals distances fuel (copy distance length out) s

def bytes : Nat → Array UInt8 → Bits → Progress
  | 0, out, s => ⟨out, .ok s⟩
  | n + 1, out, s =>
    match number 8 s with
    | .error e => ⟨out, .error e⟩
    | .ok (b, s) => bytes n (out.push b.toUInt8) s

def storedBlock (out : Array UInt8) (s : Bits) : Progress :=
  let header := do
    let (n, s) ← number 16 (s.drop (s.length % 8))
    let (m, s) ← number 16 s
    if n + m = 65535 then return (n, s) else .error .corrupt
  match header with
  | .error e => ⟨out, .error e⟩
  | .ok (n, s) => bytes n out s

def codedBlock (out : Array UInt8) (codes : Except Fault (Code × Code × Bits)) : Progress :=
  match codes with
  | .error e => ⟨out, .error e⟩
  | .ok (literals, distances, s) => block literals distances (s.length + 1) out s

def blockOfKind (kind : Nat) (out : Array UInt8) (s : Bits) : Progress :=
  match kind with
  | 0 => storedBlock out s
  | 1 => codedBlock out (.ok (Code.ofLengths fixedLengths, Code.ofLengths fixedDistances, s))
  | 2 => codedBlock out (dynamicCodes s)
  | _ => ⟨out, .error .corrupt⟩

def blocks : Nat → Array UInt8 → Bits → Array UInt8 × Option Fault
  | 0, out, _ => (out, some .truncated)
  | fuel + 1, out, s =>
    match (do
      let (last, s) ← number 1 s
      let (kind, s) ← number 2 s
      return (last, kind, s)) with
    | .error e => (out, some e)
    | .ok (last, kind, s) =>
      let p := blockOfKind kind out s
      match p.rest with
      | .error e => (p.output, some e)
      | .ok s => if last = 1 then (p.output, none) else blocks fuel p.output s

end Inflate

def inflate (s : List UInt8) : List UInt8 × Option Inflate.Fault :=
  let bits := Inflate.bitsOf s
  let (out, fault) := Inflate.blocks (bits.length + 1) #[] bits
  (out.toList, fault)

end LegalEntity.Archive
