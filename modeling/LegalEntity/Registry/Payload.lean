import LegalEntity.Entity
import LegalEntity.Json.Decoder
import LegalEntity.Json.Parser
import LegalEntity.Json.Printer
import LegalEntity.Registry.Request

namespace LegalEntity.Registry

open Json (Decoder Document Fields)

/-- The field of a record that can be left out or `null`, at any depth. -/
def within (name : String) (d : Decoder (Option α)) : Decoder (Option α) := fun doc => do
  let f ← Fields.of? [name] doc
  return (← f.withDefault name none (Decoder.optional d)).join

def someText : Decoder (Option String) := fun doc => (Decoder.string doc).map some

def nonEmpty (s : Option String) : Option String := s.filter (!·.isEmpty)

def listOf (item : Decoder (Option β)) : Decoder (List β) := fun doc => do
  let f ← Fields.of? ["data"] doc
  return ((← f.optional "data" (Decoder.list item)).getD []).filterMap id

def entityOf (name lei : Option String) : Option Entity := do
  return ⟨← nonEmpty name, ← nonEmpty lei⟩

def completion : Decoder (Option Entity) := fun doc => do
  let f ← Fields.of? ["attributes", "relationships"] doc
  let name ← f.withDefault "attributes" none (Decoder.optional (within "value" someText))
  let lei ← f.withDefault "relationships" none
    (Decoder.optional (within "lei-records" (within "data" (within "id" someText))))
  return entityOf name.join lei.join

def record : Decoder (Option Entity) := fun doc => do
  let f ← Fields.of? ["id", "attributes"] doc
  let lei ← f.withDefault "id" none (Decoder.optional Decoder.string)
  let name ← f.withDefault "attributes" none
    (Decoder.optional (within "entity" (within "legalName" (within "name" someText))))
  return entityOf name.join lei

def identifier : Decoder (Option String) := fun doc => (within "id" someText doc).map nonEmpty

def idText? : Json → Option String
  | .null => none
  | .string s => some s
  | v => some v.render

structure MetadataFields where
  fileName : Option String
  uploadedAt : Option String
  downloadLink : Option String

def metadataFields : Decoder MetadataFields := fun doc => do
  let f ← Fields.of? ["fileName", "uploadedAt", "downloadLink"] doc
  return {
    fileName := ← f.withDefault "fileName" none (Decoder.optional Decoder.string)
    uploadedAt := ← f.withDefault "uploadedAt" none (Decoder.optional Decoder.string)
    downloadLink := ← f.withDefault "downloadLink" none (Decoder.optional Decoder.string) }

def metadataData : Decoder ArchiveMetadata := fun doc => do
  let f ← Fields.of? ["id", "attributes"] doc
  let id ← f.withDefault "id" none (Decoder.optional (Document.value? (Json.maxDepth - 2)))
  let m := (← f.withDefault "attributes" none (Decoder.optional metadataFields)).getD
    ⟨none, none, none⟩
  return {
    id := id.bind idText?
    fileName := m.fileName
    uploadedAt := m.uploadedAt
    downloadLink := nonEmpty m.downloadLink }

def metadata : Decoder ArchiveMetadata := fun doc => do
  let f ← Fields.of? ["data"] doc
  return (← f.withDefault "data" none (Decoder.optional metadataData)).getD ⟨none, none, none, none⟩

def readBody? (d : Decoder α) (r : Reply) : Option α := (Json.parse? r.body).bind d

def completions? (r : Reply) : Option (List Entity) := readBody? (listOf completion) r

def records? (r : Reply) : Option (List Entity) := readBody? (listOf record) r

def identifiers? (r : Reply) : Option (List String) := readBody? (listOf identifier) r

def metadata? (r : Reply) : Option ArchiveMetadata := readBody? metadata r

end LegalEntity.Registry
