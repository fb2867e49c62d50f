import LegalEntity.Archive.Content
import LegalEntity.Codec
import LegalEntity.Registry.Payload
import LegalEntity.Resolver.Dialogue
import LegalEntity.Retry.Status
import LegalEntity.Settings

namespace LegalEntity.Resolver

open Dialogue (perform)

variable {α : Type}

def fetchMetadata (s : Settings α) : Dialogue (Except Error ArchiveMetadata) := do
  match ← perform (.fetch s.mappingUrl []) with
  | .error e => return .error (.metadataUnavailable (e.message?.getD ""))
  | .ok reply =>
    if Retry.isSuccess reply.status then
      match Registry.metadata? reply with
      | some m => return .ok m
      | none => return .error .malformedPayload
    else return .error (.httpStatus reply.status s.mappingUrl)

/-- The index in the archive at a link. The scratch directory goes in any case. -/
def downloadIndex (link : String) : Dialogue (Except Error IsinIndex) := do
  match ← perform .openScratch with
  | .error e => return .error e
  | .ok scratch =>
    match ← perform (.download link scratch) with
    | .error e =>
      perform (.closeScratch scratch)
      return .error e
    | .ok () =>
      let content ← perform (.readScratch scratch)
      perform (.closeScratch scratch)
      match content with
      | some bytes => return Archive.readIndex bytes
      | none => return .error .io

def buildIndex (s : Settings α) : Dialogue (Except Error IsinIndex) := do
  match ← fetchMetadata s with
  | .error e => return .error e
  | .ok m =>
    match m.downloadLink with
    | none => return .error .missingDownloadLink
    | some link => downloadIndex link

def nonEmptyIndex (x : IsinIndex) : Option IsinIndex := if x.isEmpty then none else some x

def cachedIndex (s : Settings α) : Dialogue (Option IsinIndex) := do
  match s.indexKey with
  | none => return none
  | some key =>
    return (Cache.decoded? IsinIndex.ofDocument? (← perform (.lookUp key))).bind nonEmptyIndex

def loadIndex (s : Settings α) : Dialogue (Option IsinIndex) := do
  match ← cachedIndex s with
  | some x => return some x
  | none =>
    match ← buildIndex s with
    | .error _ => return none
    | .ok x =>
      match nonEmptyIndex x, s.indexKey with
      | none, _ => return none
      | some x, none => return some x
      | some x, some key =>
        let _ ← perform (.keep key (IsinIndex.toJson x))
        return some x

def theIndex (s : Settings α) : Dialogue (Option IsinIndex) := do
  match ← perform .claimIndex with
  | .ready index => return index
  | .load =>
    let index ← loadIndex s
    perform (.publishIndex index)
    return index

end LegalEntity.Resolver
