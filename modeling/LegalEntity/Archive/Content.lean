import LegalEntity.Archive.Crc32
import LegalEntity.Archive.Directory
import LegalEntity.Archive.Inflate
import LegalEntity.IndexFile

namespace LegalEntity.Archive

/-- Stored, deflated, and the methods 9, 12, 14, 93 and 95. -/
def knownMethods : List Nat := [0, 8, 9, 12, 14, 93, 95]

def headerMark : Nat := 0x04034B50

def packed? (s : Bytes) (e : Entry) : Option (List UInt8) := do
  if !hasMark s headerMark e.header then none
  let nameLength ← field? s (e.header + 26) 2
  let extraLength ← field? s (e.header + 28) 2
  let start := e.header + 30 + nameLength + extraLength
  return (s.extract start (start + e.packedSize)).toList

/-- Decompression runs ahead of its reader by blocks of this size. -/
def readAhead : Nat := 32768

/-- How many of `n` bytes are handed out before a fault that follows them: all of them where the
data end too early. Where a rule is broken, the block that this is met in is lost, even if it is
full. -/
def handedOut (n : Nat) : Inflate.Fault → Nat
  | .truncated => n
  | .corrupt => (n - 1) / readAhead * readAhead

def unpack (method crc : Nat) (s : List UInt8) : IndexFile.Stream :=
  let checked (bytes : List UInt8) : IndexFile.Stream := ⟨bytes, (crc32 bytes).toNat ≠ crc⟩
  if method = 0 then checked s
  else if method = 8 then
    match inflate s with
    | (bytes, none) => checked bytes
    | (bytes, some fault) => ⟨bytes.take (handedOut bytes.length fault), true⟩
  else ⟨[], true⟩

def content? (s : Bytes) (e : Entry) : Option IndexFile.Stream := do
  if e.isEncrypted || e.isSealed || !knownMethods.contains e.method then none
  return unpack e.method e.crc (← packed? s e)

def isCsv (e : Entry) : Bool := !isDirectory e.name && hasCsvEnding e.name

/-- The first file with the ending `.csv`. Every file before it has to open. -/
def firstCsv (s : Bytes) : List Entry → Except Error IndexFile.Stream
  | [] => .error .missingCsv
  | e :: es =>
    match content? s e with
    | none => .error .archive
    | some content => if isCsv e then .ok content else firstCsv s es

def readIndex (s : List UInt8) : Except Error IsinIndex :=
  match directory? s.toArray with
  | none => .error .archive
  | some es => do IndexFile.read (← firstCsv s.toArray es)

end LegalEntity.Archive
