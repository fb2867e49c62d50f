import LegalEntity.Proofs.Names.Outcome
import LegalEntity.Proofs.Runs.Chain

namespace LegalEntity.Resolver

open Registry (itemsOf)

structure StatelessRegistry where
  reply : String → Registry.Parameters → Registry.Outcome
  archive : String → Except Error Unit × Option (List UInt8)

namespace StatelessRegistry

def offline : StatelessRegistry where
  reply _ _ := .error .io
  archive _ := (.error .io, none)

variable {α : Type} (r : StatelessRegistry) (s : Settings α)

def metadata : Except Error ArchiveMetadata :=
  match r.reply s.mappingUrl [] with
  | .error e => .error (.metadataUnavailable (e.message?.getD ""))
  | .ok reply =>
    if Retry.isSuccess reply.status then
      match Registry.metadata? reply with
      | some m => .ok m
      | none => .error .malformedPayload
    else .error (.httpStatus reply.status s.mappingUrl)

def indexAt (link : String) : Except Error IsinIndex :=
  match r.archive link with
  | (.error e, _) => .error e
  | (.ok _, some bytes) => Archive.readIndex bytes
  | (.ok _, none) => .error .io

def build : Except Error IsinIndex :=
  match r.metadata s with
  | .error e => .error e
  | .ok m =>
    match m.downloadLink with
    | none => .error .missingDownloadLink
    | some link => r.indexAt link

def index? : Option IsinIndex :=
  match r.build s with
  | .error _ => none
  | .ok x => nonEmptyIndex x

variable {r s} in
theorem index?_of_error {e : Error} (h : r.build s = .error e) : r.index? s = none := by
  rw [index?, h]

variable {r s} in
theorem index?_of_ok {x : IsinIndex} (h : r.build s = .ok x) : r.index? s = nonEmptyIndex x := by
  rw [index?, h]

def completions (name : String) : List Entity :=
  itemsOf Registry.completions?
    (r.reply s.completionsUrl [("field", "fulltext"), ("q", searchText name)])

def active (completions : List Entity) : List String :=
  if completions.isEmpty then []
  else itemsOf Registry.identifiers?
    (r.reply s.recordsUrl [("filter[lei]", ",".intercalate (completions.map (·.lei))),
      ("filter[entity.status]", "ACTIVE")])

def owners (lei : String) : List Entity :=
  itemsOf Registry.records? (r.reply s.recordsUrl [("filter[owns]", lei)])

variable [Scalar α]

def outcomeFrom (name : String) : Option Entity → NameOutcome
  | none => .notFound
  | some best => .found ((Name.closest? α name (r.owners s best.lei)).getD best).lei

def outcome (name : String) : NameOutcome :=
  if (Text.trim name.toList).isEmpty then .notFound
  else r.outcomeFrom s name
    (best? s name (r.completions s name) (r.active s (r.completions s name)))

def answer (q : Query) (source : Source) : Except Error Identity :=
  match q.canonicalIsin?.bind fun isin => (r.index? s).bind (·.get? isin) with
  | some lei => .ok (q.identity lei .isinIndex)
  | none => Resolver.answer q source (r.outcome s q.name)

end StatelessRegistry

end LegalEntity.Resolver
