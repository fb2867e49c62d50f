import LegalEntity.Entity
import LegalEntity.Json.Decoder
import LegalEntity.Settings

namespace LegalEntity

open Json (Decoder Document Fields)

namespace Query

def toJson (q : Query) : Json :=
  .ofMembers ([("symbol", .string q.symbol), ("name", .string q.name)]
    ++ q.isin.toList.map fun isin => ("isin", .string isin))

def ofDocument? : Decoder Query := fun d => do
  let f ← Fields.of? ["symbol", "name", "isin"] d
  return {
    symbol := ← f.required "symbol" Decoder.string
    name := ← f.required "name" Decoder.string
    isin := ← f.withDefault "isin" none (Decoder.optional Decoder.string) }

end Query

/-- A case without content: its name, or an object from its name to `null`. -/
def caseName? : Decoder String
  | .string s => s
  | .object [(name, .null)] => name
  | _ => none

namespace Source

def text : Source → String
  | .isinIndex => "ISIN_INDEX"
  | .nameCache => "NAME_CACHE"
  | .registrySearch => "REGISTRY_SEARCH"

def ofText? (s : String) : Option Source :=
  [isinIndex, nameCache, registrySearch].find? (·.text == s)

end Source

namespace Identity

def toJson (r : Identity) : Json :=
  .ofMembers [("name", .string r.name), ("symbol", .string r.symbol),
    ("isin", .ofOption .string r.isin), ("lei", .string r.lei), ("source", .string r.source.text)]

def ofDocument? : Decoder Identity := fun d => do
  let f ← Fields.of? ["name", "symbol", "isin", "lei", "source"] d
  return {
    name := ← f.required "name" Decoder.string
    symbol := ← f.required "symbol" Decoder.string
    isin := ← f.optional "isin" Decoder.string
    lei := ← f.required "lei" Decoder.string
    source := ← f.required "source" fun d => (caseName? d).bind Source.ofText? }

end Identity

namespace Entity

def toJson (e : Entity) : Json :=
  .ofMembers [("legal_name", .string e.legalName), ("lei", .string e.lei)]

def ofDocument? : Decoder Entity := fun d => do
  let f ← Fields.of? ["legal_name", "lei"] d
  return {
    legalName := ← f.required "legal_name" Decoder.string
    lei := ← f.required "lei" Decoder.string }

end Entity

namespace Scored

def toJson (s : Scored Float) : Json :=
  .ofMembers [("candidate", s.entity.toJson), ("score", .ofFloat s.score)]

def ofDocument? : Decoder (Scored Float) := fun d => do
  let f ← Fields.of? ["candidate", "score"] d
  return {
    entity := ← f.required "candidate" Entity.ofDocument?
    score := ← f.required "score" Decoder.double }

end Scored

namespace NameOutcome

def toJson : NameOutcome → Json
  | .found lei => .ofMembers [("status", .string "found"), ("lei", .string lei)]
  | .notFound => .ofMembers [("status", .string "not_found")]

def ofCase? : String → Option Document → Option NameOutcome
  | "found", some d => (Decoder.string d).map .found
  | "not_found", none => some .notFound
  | "not_found", some .null => some .notFound
  | _, _ => none

def ofDocument? : Decoder NameOutcome := fun d => do
  let f ← Fields.of? ["status", "lei"] d
  if f.positional then
    ofCase? (← f.required "status" Decoder.string) (some (← f.get? "lei"))
  else ofCase? (← f.required "status" caseName?) (f.get? "lei")

end NameOutcome

namespace IsinIndex

def toJson (x : IsinIndex) : Json := .strings x

def ofDocument? : Decoder IsinIndex := Decoder.table Decoder.string

end IsinIndex

namespace ArchiveMetadata

def toJson (m : ArchiveMetadata) : Json :=
  .ofMembers [("id", .ofOption .string m.id), ("file_name", .ofOption .string m.fileName),
    ("uploaded_at", .ofOption .string m.uploadedAt),
    ("download_link", .ofOption .string m.downloadLink)]

def ofDocument? : Decoder ArchiveMetadata := fun d => do
  let f ← Fields.of? ["id", "file_name", "uploaded_at", "download_link"] d
  return {
    id := ← f.optional "id" Decoder.string
    fileName := ← f.optional "file_name" Decoder.string
    uploadedAt := ← f.optional "uploaded_at" Decoder.string
    downloadLink := ← f.optional "download_link" Decoder.string }

end ArchiveMetadata

namespace Retry.Policy

def toJson (p : Policy) : Json :=
  .ofMembers [("attempts", .ofNat p.attempts), ("base_secs", .ofFloat p.base),
    ("cap_secs", .ofFloat p.cap), ("jitter", .ofFloat p.jitter),
    ("seed", .ofOption (fun s => .ofNat s.toNat) p.seed)]

def ofDocument? : Decoder Policy := fun d => do
  let f ← Fields.of? ["attempts", "base_secs", "cap_secs", "jitter", "seed"] d
  return {
    attempts := ← f.withDefault "attempts" default.attempts Decoder.word
    base := ← f.withDefault "base_secs" default.base Decoder.double
    cap := ← f.withDefault "cap_secs" default.cap Decoder.double
    jitter := ← f.withDefault "jitter" default.jitter Decoder.double
    seed := ← f.withDefault "seed" none
      (Decoder.optional fun d => (Decoder.word d).map UInt64.ofNat) }

end Retry.Policy

namespace Settings

def toJson (s : Settings Float) : Json :=
  .ofMembers [("isin_lei_url", .string s.mappingUrl),
    ("autocompletions_url", .string s.completionsUrl), ("lei_records_url", .string s.recordsUrl),
    ("index_cache_key", .ofOption .string s.indexKey),
    ("name_cache_namespace", .string s.nameSpace), ("retry", s.retry.toJson),
    ("api_concurrency", .ofNat s.concurrency), ("score_cutoff", .ofFloat s.cutoff),
    ("request_timeout_secs", .ofNat s.timeout)]

def ofDocument? : Decoder (Settings Float) := fun d => do
  let f ← Fields.of? ["isin_lei_url", "autocompletions_url", "lei_records_url", "index_cache_key",
    "name_cache_namespace", "retry", "api_concurrency", "score_cutoff", "request_timeout_secs"] d
  let s : Settings Float := default
  return {
    mappingUrl := ← f.withDefault "isin_lei_url" s.mappingUrl Decoder.string
    completionsUrl := ← f.withDefault "autocompletions_url" s.completionsUrl Decoder.string
    recordsUrl := ← f.withDefault "lei_records_url" s.recordsUrl Decoder.string
    indexKey := ← f.withDefault "index_cache_key" s.indexKey (Decoder.optional Decoder.string)
    nameSpace := ← f.withDefault "name_cache_namespace" s.nameSpace Decoder.string
    retry := ← f.withDefault "retry" s.retry Retry.Policy.ofDocument?
    concurrency := ← f.withDefault "api_concurrency" s.concurrency Decoder.word
    cutoff := ← f.withDefault "score_cutoff" s.cutoff Decoder.double
    timeout := ← f.withDefault "request_timeout_secs" s.timeout Decoder.word }

end Settings

end LegalEntity
