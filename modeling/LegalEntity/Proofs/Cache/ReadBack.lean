import LegalEntity.Codec

namespace LegalEntity

open Json (Decoder toMembers)

namespace Table

theorem insertEntry_of_forall_lt {key : String} {value : α} {entries : List (String × α)}
    (h : ∀ e ∈ entries, e.1 < key) : insertEntry key value entries = entries ++ [(key, value)] := by
  induction entries with
  | nil => rfl
  | cons e rest ih =>
    have he : e.1 < key := h e List.mem_cons_self
    have hne : ¬key < e.1 := fun hlt => String.lt_irrefl _ (String.lt_trans he hlt)
    rw [insertEntry, if_neg hne, if_pos he, ih fun d hd => h d (List.mem_cons_of_mem _ hd)]
    rfl

theorem entries_foldl_insert {t : Table α} {entries : List (String × α)}
    (h : (t.entries ++ entries).Pairwise (·.1 < ·.1)) :
    (entries.foldl (fun t e => t.insert e.1 e.2) t).entries = t.entries ++ entries := by
  induction entries generalizing t with
  | nil => simp
  | cons e rest ih =>
    have hinsert : (t.insert e.1 e.2).entries = t.entries ++ [e] :=
      insertEntry_of_forall_lt fun d hd =>
        (List.pairwise_append.1 h).2.2 d hd e List.mem_cons_self
    rw [List.foldl_cons, ih]
    · simp [hinsert]
    · simpa [hinsert] using h

@[simp] theorem ofList_entries (t : Table α) : ofList t.entries = t :=
  ext (entries_foldl_insert t.ascending)

end Table

theorem NameOutcome.toJson_found (lei : String) :
    (NameOutcome.found lei).toJson = .object [("lei", .string lei), ("status", .string "found")] := by
  have hlt : "lei" < "status" := by decide
  rw [toJson, Json.ofMembers, Json.ofTable, Table.ofList, List.foldl_cons, List.foldl_cons,
    List.foldl_nil]
  simp only [Table.insert, Table.empty]
  rw [insertEntry, insertEntry, if_pos hlt]

@[simp] theorem NameOutcome.ofDocument?_toJson (outcome : NameOutcome) :
    ofDocument? outcome.toJson.toDocument = some outcome := by
  cases outcome with
  | found lei =>
    rw [toJson_found]
    rfl
  | notFound => rfl

theorem IsinIndex.mapM_toMembers (entries : List (String × String)) :
    ((toMembers (entries.map fun e => (e.1, .string e.2))).mapM fun m => do
      return (← m.1, ← Decoder.string m.2)) = some entries := by
  induction entries with
  | nil => rfl
  | cons e rest ih =>
    rw [List.map_cons, toMembers, List.mapM_cons, ih]
    rfl

@[simp] theorem IsinIndex.ofDocument?_toJson (x : IsinIndex) :
    ofDocument? (IsinIndex.toJson x).toDocument = some x := by
  simp only [ofDocument?, toJson, Json.strings, Json.toDocument, Decoder.table]
  rw [mapM_toMembers]
  exact congrArg some x.ofList_entries

end LegalEntity
