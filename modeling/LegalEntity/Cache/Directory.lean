import LegalEntity.Cache.Disk
import LegalEntity.Cache.Store
import LegalEntity.Digest
import LegalEntity.Json.Parser
import LegalEntity.Json.Printer
/-!
A store in a directory: a file for each key, named by the digest of the key. A value is written to
a file of its own, which then takes the place of the old one, so that no reader sees half a value.
-/

namespace LegalEntity.Cache

structure Directory where
  disk : Disk
  lifetime : Option Duration

structure StoredEntry where
  storedAt : Timestamp
  value : Json

namespace StoredEntry

def toJson (e : StoredEntry) : Json :=
  .ofMembers [("stored_at", .string e.storedAt.render), ("value", e.value)]

def encode (e : StoredEntry) : List UInt8 := Text.utf8 e.toJson.render

def ofDocument? : Json.Decoder StoredEntry := fun d => do
  let f ← Json.Fields.of? ["stored_at", "value"] d
  return {
    storedAt := ← f.required "stored_at" fun d => (Json.Decoder.string d).bind Timestamp.ofText?
    value := ← f.required "value" (Json.Document.value? (Json.maxDepth - 1)) }

def decode? (s : List UInt8) : Option StoredEntry := (Json.parse? s).bind ofDocument?

end StoredEntry

namespace Directory

def stem (key : String) : String := Digest.hex (Digest.sha256 (Text.utf8 key))

def fileName (key : String) : String := stem key ++ ".json"

def stagingName (key : String) (entropy : UInt64) : String :=
  stem key ++ "." ++ Digest.hex (Digest.bigEndian 8 entropy.toNat) ++ ".tmp"

def get (m : Moment) (key : String) (s : Directory) : Except Error (Option Json) × Directory :=
  let answer := match s.disk.read (fileName key) with
    | .missing => .ok none
    | .failed => .error .io
    | .bytes bytes =>
      match StoredEntry.decode? bytes with
      | none => .error .serialization
      | some e =>
        if isExpired s.lifetime e.storedAt.instant m.now.instant then .ok none
        else .ok (some e.value)
  (answer, s)

def replace (key : String) (entropy : UInt64) (bytes : List UInt8) (d : Disk) :
    Except Error Unit × Disk :=
  match d.create? with
  | none => (.error .io, d)
  | some d =>
    let staging := stagingName key entropy
    match d.write? staging bytes with
    | none => (.error .io, d)
    | some d =>
      match d.rename? staging (fileName key) with
      | none => (.error .io, d.remove staging)
      | some d => (.ok (), d)

def put (m : Moment) (key : String) (v : Json) (s : Directory) : Except Error Unit × Directory :=
  let (answer, disk) := replace key m.entropy (StoredEntry.encode ⟨m.now, v⟩) s.disk
  (answer, { s with disk })

/-- A rest for each work on the disk: that on the directory, on the staging file, its renaming and,
if that fails, its removal. -/
def putRests (key : String) (s : Directory) : Nat :=
  match s.disk.create? with
  | none => 1
  | some d => if d.read (fileName key) = .failed then 4 else 3

instance : Store Directory := ⟨get, put, fun _ _ => 1, putRests⟩

end Directory

end LegalEntity.Cache
