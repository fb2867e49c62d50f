import LegalEntity.Archive.Field
/-!
Where the directory of an archive stands. A record at the end of the archive tells it, and a wide
record before that one tells it where a number is too large for the narrow fields. Endings are
looked for from the end of the bytes: what stands before the archive or after it does not matter.
-/

namespace LegalEntity.Archive

def endingMark : Nat := 0x06054B50

def wideEndingMark : Nat := 0x06064B50

def locatorMark : Nat := 0x07064B50

def entryMark : Nat := 0x02014B50

structure Place where
  /-- How far what stands before the archive has moved it. -/
  shift : Nat
  start : Nat
  entries : Nat

structure Ending where
  position : Nat
  disk : Nat
  directoryDisk : Nat
  entriesHere : Nat
  entries : Nat
  offset : Nat

def ending? (s : Bytes) (position : Nat) : Option Ending := do
  if !hasMark s endingMark position then none
  let commentLength ← field? s (position + 20) 2
  if s.size < position + 22 + commentLength then none
  return {
    position
    disk := ← field? s (position + 4) 2
    directoryDisk := ← field? s (position + 6) 2
    entriesHere := ← field? s (position + 8) 2
    entries := ← field? s (position + 10) 2
    offset := ← field? s (position + 16) 4 }

def narrowPlace? (s : Bytes) (e : Ending) : Option Place := do
  let start ← if e.entries = 0 then some (max e.offset e.position)
    else (marks s entryMark e.offset e.position).head?
  if e.disk ≠ e.directoryDisk then none
  return { shift := start - e.offset, start, entries := e.entriesHere }

structure Locator where
  position : Nat
  directoryDisk : Nat
  offset : Nat
  disks : Nat

def locator? (s : Bytes) (e : Ending) : Option Locator := do
  if e.position < 20 then none
  let position := e.position - 20
  if !hasMark s locatorMark position then none
  return {
    position
    directoryDisk := ← field? s (position + 4) 4
    offset := ← field? s (position + 8) 8
    disks := ← field? s (position + 16) 4 }

def isWideEnding (s : Bytes) (l : Locator) (position : Nat) : Bool :=
  match field? s (position + 4) 8, field? s (position + 20) 4, field? s (position + 32) 8,
    field? s (position + 48) 8 with
  | some size, some directoryDisk, some entries, some offset =>
    44 ≤ size && position + size + 12 == l.position && directoryDisk == l.directoryDisk
      && offset + 46 * entries ≤ position
  | _, _, _, _ => false

def widePlaceAt? (s : Bytes) (l : Locator) (position : Nat) : Option Place := do
  let writtenBy ← field? s (position + 12) 2
  let neededBy ← field? s (position + 14) 2
  let disk ← field? s (position + 16) 4
  let entriesHere ← field? s (position + 24) 8
  let entries ← field? s (position + 32) 8
  let offset ← field? s (position + 48) 8
  if entriesHere ≤ entries ∧ neededBy ≤ writtenBy ∧ disk = l.directoryDisk then
    let shift := position - l.offset
    return { shift, start := offset + shift, entries }
  else none

/-- The first wide ending counts, even if it gives no place. -/
def widePlace? (s : Bytes) (l : Locator) : Option Place := do
  if l.disks > 1 then none
  let position ← (marks s wideEndingMark l.offset l.position).find? (isWideEnding s l)
  widePlaceAt? s l position

def Ending.place? (e : Ending) (s : Bytes) : Option Place :=
  let isFull := e.entries == 0xFFFF || e.offset == 0xFFFFFFFF
  match if isFull then locator? s e else none with
  | some l => widePlace? s l
  | none => narrowPlace? s e

def fromEnd? {α : Type} (s : Bytes) (read : Place → Option α) : Option α :=
  (List.range s.size).reverse.findSome? fun position => do
    read (← (← ending? s position).place? s)

end LegalEntity.Archive
