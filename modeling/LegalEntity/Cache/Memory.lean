import LegalEntity.Cache.Store

namespace LegalEntity.Cache

structure Memory where
  entries : Table (Json × Int)
  lifetime : Option Duration

namespace Memory

def empty (lifetime : Option Duration) : Memory := ⟨.empty, lifetime⟩

def get (m : Moment) (key : String) (s : Memory) : Except Error (Option Json) × Memory :=
  match s.entries.get? key with
  | some (v, written) =>
    if isExpired s.lifetime written m.now.instant then
      (.ok none, { s with entries := s.entries.erase key })
    else (.ok (some v), s)
  | none => (.ok none, s)

def put (m : Moment) (key : String) (v : Json) (s : Memory) : Except Error Unit × Memory :=
  (.ok (), { s with entries := s.entries.insert key (v, m.now.instant) })

instance : Store Memory where
  get := get
  put := put

/-- Expired values count until they are dropped. -/
def size (s : Memory) : Nat := s.entries.size

end Memory

end LegalEntity.Cache
