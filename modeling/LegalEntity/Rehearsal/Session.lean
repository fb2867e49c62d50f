import LegalEntity.Cache.Directory
import LegalEntity.Cache.Memory
import LegalEntity.Rehearsal.World
import LegalEntity.Resolver.Resolve

namespace LegalEntity.Rehearsal

open Resolver

inductive AnyCache
  | memory (store : Cache.Memory)
  | directory (store : Cache.Directory)
  | faulty (failsToGet failsToPut : Bool) (store : Cache.Memory)

namespace AnyCache

def fault : Cache.Error := .invalidConfig "offline"

def get (m : Cache.Moment) (key : String) : AnyCache → Except Cache.Error (Option Json) × AnyCache
  | .memory s => let (r, s) := s.get m key; (r, .memory s)
  | .directory s => let (r, s) := s.get m key; (r, .directory s)
  | .faulty getFault putFault s =>
    if getFault then (.error fault, .faulty getFault putFault s)
    else let (r, s) := s.get m key; (r, .faulty getFault putFault s)

def put (m : Cache.Moment) (key : String) (v : Json) :
    AnyCache → Except Cache.Error Unit × AnyCache
  | .memory s => let (r, s) := s.put m key v; (r, .memory s)
  | .directory s => let (r, s) := s.put m key v; (r, .directory s)
  | .faulty getFault putFault s =>
    if putFault then (.error fault, .faulty getFault putFault s)
    else let (r, s) := s.put m key v; (r, .faulty getFault putFault s)

def getRests (key : String) : AnyCache → Nat
  | .directory s => Cache.Store.getRests key s
  | _ => 0

def putRests (key : String) : AnyCache → Nat
  | .directory s => Cache.Store.putRests key s
  | _ => 0

instance : Cache.Store AnyCache := ⟨get, put, getRests, putRests⟩

def plant (key : String) (node : Cache.Node) : AnyCache → AnyCache
  | .directory s =>
    match s.disk.create? with
    | some (.present nodes) =>
      .directory { s with disk := .present (nodes.insert (Cache.Directory.fileName key) node) }
    | _ => .directory s
  | c => c

def stored? (key : String) : AnyCache → Option Json
  | .directory s =>
    match s.disk.read (Cache.Directory.fileName key) with
    | .bytes bytes => (Json.parse? bytes).bind (Json.Document.value? Json.maxDepth)
    | _ => none
  | _ => none

end AnyCache

inductive Step
  | resolve (q : Query)
  | resolveText (text : String)
  | resolveAll (qs : List Query)
  | explain (name : String)
  | index
  | reset (settings : Settings Float) (index : Option IsinIndex)
  | search (name : String)
  | parents (lei : String)
  | metadata
  | build
  | download (link : String)
  | get (key : String)
  | put (key : String) (value : Json)
  | plant (key : String) (node : Cache.Node)
  | stored (key : String)

inductive Result
  | resolved (r : Except Error Identity)
  | undecodable
  | batch (rs : List (Except Error Identity))
  | trace (t : Trace Float)
  | index (x : Option IsinIndex)
  | entities (es : List Entity)
  | metadata (m : Option ArchiveMetadata)
  | built (r : Except Error IsinIndex)
  | got (r : Except Cache.Error (Option Json))
  | written (r : Except Cache.Error Unit)
  | stored (v : Option Json)
  | done

structure Session where
  settings : Settings Float
  world : World AnyCache

namespace Session

def run (s : Session) (t : Dialogue α) (result : α → Result) : Option Result × Session :=
  let (value, world) := runOne t s.world
  (value.map result, { s with world })

def step (s : Session) : Step → Option Result × Session
  | .resolve q => s.run (resolve s.settings q) .resolved
  | .resolveText text =>
    match (Json.parseText? text).bind Query.ofDocument? with
    | some q => s.run (resolve s.settings q) .resolved
    | none => (some .undecodable, s)
  | .resolveAll qs =>
    let (values, world) := runAll (qs.map (resolve s.settings)) s.world
    (values.map .batch, { s with world })
  | .explain name => s.run (explain s.settings name) .trace
  | .index => s.run (theIndex s.settings) .index
  | .reset settings index =>
    match Shared.ofSettings? settings index with
    | some shared => (some .done, { settings, world := { s.world with shared } })
    | none => (none, s)
  | .search name => s.run (searchByName s.settings name) .entities
  | .parents lei => s.run (fetchParents s.settings lei) .entities
  | .metadata => s.run (fetchMetadata s.settings) fun r => .metadata r.toOption
  | .build => s.run (buildIndex s.settings) .built
  | .download link => s.run (downloadIndex link) .built
  | .get key =>
    let (r, cache) := Cache.Store.get s.world.moment key s.world.cache
    (some (.got r), { s with world := { s.world with cache } })
  | .put key value =>
    let (r, cache) := Cache.Store.put s.world.moment key value s.world.cache
    (some (.written r), { s with world := { s.world with cache } })
  | .plant key node =>
    (some .done, { s with world := { s.world with cache := s.world.cache.plant key node } })
  | .stored key => (some (.stored (s.world.cache.stored? key)), s)

def steps (s : Session) : List Step → List (Option Result × Session)
  | [] => []
  | next :: rest =>
    let (r, s) := { s with world := { s.world with clock := 0, sent := [] } }.step next
    (r, s) :: s.steps rest

end Session

end LegalEntity.Rehearsal
