namespace LegalEntity.Archive

def crcShift (c : UInt32) : UInt32 :=
  if c &&& 1 == 1 then (c >>> 1) ^^^ 0xEDB88320 else c >>> 1

def crcShifts : Nat → UInt32 → UInt32
  | 0, c => c
  | n + 1, c => crcShifts n (crcShift c)

def crc32 (s : List UInt8) : UInt32 :=
  s.foldl (fun c b => crcShifts 8 (c ^^^ b.toUInt32)) 0xFFFFFFFF ^^^ 0xFFFFFFFF

end LegalEntity.Archive
