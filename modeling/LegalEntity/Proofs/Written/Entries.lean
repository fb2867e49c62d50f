import LegalEntity.Cache.Directory
import LegalEntity.Proofs.Cache.ReadBack
import LegalEntity.Proofs.Written.Documents
import LegalEntity.Proofs.Written.Time

namespace LegalEntity

namespace Json

def IsTexts (v : Json) : Prop := ∃ t : Table String, v = strings t

def member (e : String × String) : String × Json := (e.1, .string e.2)

theorem areWordyMembers_map (entries : List (String × String)) :
    areWordyMembers (entries.map member) = true := by
  induction entries with
  | nil => rfl
  | cons e entries ih => rw [List.map_cons, member, areWordyMembers, ih]; rfl

theorem IsTexts.isWordy {v : Json} (h : v.IsTexts) : v.isWordy = true := by
  obtain ⟨t, rfl⟩ := h
  exact areWordyMembers_map t.entries

theorem memberValues?_map (depth : Nat) (entries : List (String × String)) :
    memberValues? depth (toMembers (entries.map member)) = some (entries.map member) := by
  induction entries with
  | nil => rw [List.map_nil, toMembers, memberValues?]
  | cons e entries ih =>
    rw [List.map_cons, member, toMembers, memberValues?, ih]
    rfl

theorem ofMembers_map (t : Table String) : ofMembers (t.entries.map member) = strings t := by
  have hascending : (t.entries.map member).Pairwise (·.1 < ·.1) := by
    simpa [List.pairwise_map, member] using t.ascending
  have hentries := @Table.entries_foldl_insert Json .empty _
    (by simpa [Table.empty] using hascending)
  exact congrArg Json.object hentries

theorem IsTexts.value? {v : Json} (h : v.IsTexts) (depth : Nat) :
    v.toDocument.value? (depth + 1) = some v := by
  obtain ⟨t, rfl⟩ := h
  have hvalues := memberValues?_map depth t.entries
  rw [show (strings t).toDocument = .object (toMembers (t.entries.map member)) from rfl,
    Document.value?, hvalues, Option.map_some, ofMembers_map]

end Json

theorem NameOutcome.isTexts_toJson (outcome : NameOutcome) : outcome.toJson.IsTexts := by
  cases outcome with
  | found lei =>
    have hlt : ("lei", lei).1 < ("status", "found").1 := show "lei" < "status" by decide
    exact ⟨⟨[("lei", lei), ("status", "found")], List.pairwise_pair.2 hlt⟩, toJson_found lei⟩
  | notFound => exact ⟨⟨[("status", "not_found")], by decide⟩, rfl⟩

theorem IsinIndex.isTexts_toJson (x : IsinIndex) : (toJson x).IsTexts := ⟨x, rfl⟩

namespace Cache.StoredEntry

theorem toJson_eq (e : StoredEntry) :
    e.toJson = .object [("stored_at", .string e.storedAt.render), ("value", e.value)] := by
  have hlt : "stored_at" < "value" := by decide
  have hnot : ¬"value" < "stored_at" := by decide
  rw [toJson, Json.ofMembers, Json.ofTable, Table.ofList, List.foldl_cons, List.foldl_cons,
    List.foldl_nil]
  simp only [Table.insert, Table.empty]
  rw [insertEntry, insertEntry, if_neg hnot, if_pos hlt, insertEntry]

theorem decode?_encode {e : StoredEntry} (htime : e.storedAt.IsUtc) (hvalue : e.value.IsTexts) :
    decode? (encode e) = some e := by
  have hwordy : e.toJson.isWordy = true := by
    rw [toJson_eq]
    simp [Json.isWordy, Json.areWordyMembers, hvalue.isWordy]
  have hread : e.value.toDocument.value? (Json.maxDepth - 1) = some e.value := hvalue.value? 125
  have hname : ("value" == "stored_at") = false := by decide
  rw [decode?, encode, Json.parse?_render hwordy, toJson_eq]
  simp [ofDocument?, Json.toDocument, Json.toMembers, Json.Fields.of?, Json.Fields.repeated,
    Json.Fields.required, Json.Fields.get?, Json.Decoder.string, List.lookup_cons, hname,
    Timestamp.ofText?_render htime, hread]

end Cache.StoredEntry

end LegalEntity
