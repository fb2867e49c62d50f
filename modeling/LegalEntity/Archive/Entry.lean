import LegalEntity.Archive.Crc32
import LegalEntity.Archive.Field
import LegalEntity.Archive.Name
/-!
Entries of a directory, and the extra fields that amend them. Fields are read one after another,
each with a kind and a length. Where the bytes end within a field, what has been read of it counts
and the rest does not; a field that breaks its own rules spoils the directory.
-/

namespace LegalEntity.Archive

structure Entry where
  rawName : List UInt8
  name : String
  comment : String
  isEncrypted : Bool
  isSealed : Bool
  method : Nat
  crc : Nat
  fullSize : Nat
  packedSize : Nat
  header : Nat
  deriving DecidableEq

inductive Extra
  | next (e : Entry) (rest : List UInt8)
  | short (e : Entry)
  | invalid

def takeBytes? (n : Nat) (s : List UInt8) : Option (List UInt8 × List UInt8) :=
  if n ≤ s.length then some (s.take n, s.drop n) else none

def takeNumber? (n : Nat) (s : List UInt8) : Option (Nat × List UInt8) :=
  (takeBytes? n s).map fun (bs, rest) => (numberOf bs, rest)

def skipExtra (e : Entry) (length : Nat) (s : List UInt8) : Extra :=
  match takeBytes? length s with
  | some (_, rest) => .next e rest
  | none => .short e

def isFull (n : Nat) : Bool := n == 0xFFFFFFFF

/-- Puts wide numbers for those that are full, or for all, as far as the bytes reach. There is no
rest if they end too early. -/
def widen (all : Bool) : List Nat → List UInt8 → List Nat × Option (List UInt8)
  | [], s => ([], some s)
  | n :: ns, s =>
    if all || isFull n then
      match takeNumber? 8 s with
      | none => (n :: ns, none)
      | some (m, s) => let (ms, rest) := widen all ns s; (m :: ms, rest)
    else let (ms, rest) := widen all ns s; (n :: ms, rest)

def wideExtra (e : Entry) (length : Nat) (s : List UInt8) : Extra :=
  match widen (24 ≤ length) [e.fullSize, e.packedSize, e.header] s with
  | ([fullSize, packedSize, header], rest) =>
    let e := { e with fullSize, packedSize, header }
    match rest with
    | none => .short e
    | some rest =>
      let used := s.length - rest.length
      if length < used then .invalid else skipExtra e (length - used) rest
  | _ => .invalid

def textExtra (e : Entry) (old : List UInt8) (amend : List UInt8 → String → Entry) (length : Nat)
    (s : List UInt8) : Extra :=
  match takeBytes? 1 s with
  | none => .short e
  | some (_, s) =>
    match takeNumber? 4 s with
    | none => .short e
    | some (crc, s) =>
      if length < 5 then .invalid
      else
        match takeBytes? (length - 5) s with
        | none => .short e
        | some (bytes, rest) =>
          match Text.ofUtf8? bytes with
          | some text => if (crc32 old).toNat = crc then .next (amend bytes text) rest else .invalid
          | none => .invalid

def nameExtra (e : Entry) : Nat → List UInt8 → Extra :=
  textExtra e e.rawName fun rawName name => { e with rawName, name }

def commentExtra (e : Entry) : Nat → List UInt8 → Extra :=
  textExtra e (Text.utf8 e.comment) fun _ comment => { e with comment }

def bitCount (n : Nat) : Nat := ((List.range 8).filter n.testBit).length

/-- Up to three times, as flags tell; a field of five bytes holds one of them whatever they are. -/
def timesExtra (e : Entry) (length : Nat) (s : List UInt8) : Extra :=
  match takeNumber? 1 s with
  | none => .short e
  | some (flags, s) =>
    if 8 ≤ flags ∨ length ≠ 5 ∧ length ≠ 1 + 4 * bitCount flags then .invalid
    else skipExtra e (length - 1) s

def fineTimesExtra (e : Entry) (length : Nat) (s : List UInt8) : Extra :=
  if length ≠ 32 then .invalid
  else
    match takeBytes? 4 s with
    | none => .short e
    | some (_, s) =>
      match takeNumber? 2 s with
      | none => .short e
      | some (tag, s) =>
        if tag ≠ 1 then .invalid
        else
          match takeNumber? 2 s with
          | none => .short e
          | some (size, s) => if size ≠ 24 then .invalid else skipExtra e 24 s

def sealedMethod : Nat := 99

def sealExtra (e : Entry) (length : Nat) (s : List UInt8) : Extra :=
  if length ≠ 7 then .invalid
  else
    match takeBytes? 7 s with
    | none => .short e
    | some (bs, rest) =>
      let version := numberOf (bs.take 2)
      let vendor := numberOf ((bs.drop 2).take 2)
      let strength := numberOf ((bs.drop 4).take 1)
      let method := numberOf (bs.drop 5)
      if vendor = 0x4541 ∧ 1 ≤ version ∧ version ≤ 2 ∧ 1 ≤ strength ∧ strength ≤ 3 then
        .next { e with isSealed := true, method } rest
      else .invalid

def extra (e : Entry) (kind : Nat) : Nat → List UInt8 → Extra :=
  match kind with
  | 0x0001 => wideExtra e
  | 0x000A => fineTimesExtra e
  | 0x5455 => timesExtra e
  | 0x6375 => commentExtra e
  | 0x7075 => nameExtra e
  | 0x9901 => sealExtra e
  | _ => skipExtra e

/-- Each field takes four bytes at least, so the number of bytes is fuel enough. -/
def amended? : Nat → Entry → List UInt8 → Option Entry
  | 0, e, _ => some e
  | fuel + 1, e, s =>
    match takeNumber? 2 s with
    | none => some e
    | some (kind, s) =>
      match takeNumber? 2 s with
      | none => some e
      | some (length, s) =>
        match extra e kind length s with
        | .next e rest => amended? fuel e rest
        | .short e => some e
        | .invalid => none

end LegalEntity.Archive
