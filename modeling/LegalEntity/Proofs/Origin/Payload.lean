import LegalEntity.Registry.Payload

namespace LegalEntity

namespace Json

variable {d : Decoder β} {doc : Document} {b : β} {name : String}

theorem Decoder.optional_eq_some (h : Decoder.optional d doc = some (some b)) : d doc = some b := by
  cases doc with
  | null => cases h
  | _ =>
    obtain ⟨a, ha, hb⟩ := Option.map_eq_some_iff.1 h
    exact ha.trans hb

theorem Decoder.string_eq_some {s : String} (h : Decoder.string doc = some s) :
    doc = .string (some s) := by
  cases doc with
  | string t =>
    cases h
    rfl
  | _ => cases h

theorem exists_of_mem_mapM {f : α → Option β} {l : List α} {bs : List β} (h : l.mapM f = some bs)
    (hb : b ∈ bs) : ∃ a ∈ l, f a = some b := by
  induction l generalizing bs with
  | nil =>
    cases h
    cases hb
  | cons a rest ih =>
    simp only [List.mapM_cons, Option.bind_eq_bind, Option.bind_eq_some_iff, Option.pure_def,
      Option.some.injEq] at h
    obtain ⟨c, hc, cs, hcs, rfl⟩ := h
    cases List.mem_cons.1 hb with
    | inl hb => exact ⟨a, List.mem_cons_self, hb ▸ hc⟩
    | inr hb =>
      obtain ⟨a', ha', hf⟩ := ih hcs hb
      exact ⟨a', List.mem_cons_of_mem _ ha', hf⟩

theorem Fields.exists_of_withDefault {f : Fields} {d : Decoder (Option β)}
    (h : f.withDefault name none d = some (some b)) :
    ∃ doc, f.get? name = some doc ∧ d doc = some (some b) := by
  unfold Fields.withDefault at h
  split at h
  · rename_i doc hdoc
    exact ⟨doc, hdoc, h⟩
  · cases h

theorem Fields.exists_of_optional {f : Fields} (h : f.optional name d = some (some b)) :
    ∃ doc, f.get? name = some doc ∧ d doc = some b := by
  unfold Fields.optional at h
  split at h
  · rename_i doc hdoc
    exact ⟨doc, hdoc, Decoder.optional_eq_some h⟩
  · split at h <;> cases h

end Json

namespace Registry

open Json (Decoder Document Fields)

def field? (names : List String) (name : String) (doc : Document) : Option Document :=
  (Fields.of? names doc).bind (·.get? name)

def HasItem (p : Document → Prop) (r : Reply) : Prop :=
  ∃ doc items, Json.parse? r.body = some doc ∧ field? ["data"] "data" doc = some (.array items) ∧
    ∃ item ∈ items, p item

def RecordId (id : String) (item : Document) : Prop :=
  field? ["id", "attributes"] "id" item = some (.string (some id))

def ActiveId (id : String) (item : Document) : Prop :=
  field? ["id"] "id" item = some (.string (some id))

def CompletionId (id : String) (item : Document) : Prop :=
  ∃ relationships records data,
    field? ["attributes", "relationships"] "relationships" item = some relationships ∧
    field? ["lei-records"] "lei-records" relationships = some records ∧
    field? ["data"] "data" records = some data ∧ field? ["id"] "id" data = some (.string (some id))

theorem within_eq_some {name : String} {d : Decoder (Option β)} {doc : Document} {b : β}
    (h : within name d doc = some (some b)) :
    ∃ v, field? [name] name doc = some v ∧ d v = some (some b) := by
  simp only [within, Option.bind_eq_bind, Option.bind_eq_some_iff, Option.pure_def,
    Option.some.injEq, Option.join_eq_some_iff] at h
  obtain ⟨f, hf, o, hfield, ho⟩ := h
  subst ho
  obtain ⟨v, hv, hd⟩ := Fields.exists_of_withDefault hfield
  exact ⟨v, by rw [field?, hf]; exact hv, Decoder.optional_eq_some hd⟩

theorem someText_eq_some {doc : Document} {s : String} (h : someText doc = some (some s)) :
    doc = .string (some s) := by
  obtain ⟨t, ht, hs⟩ := Option.map_eq_some_iff.1 h
  cases hs
  exact Decoder.string_eq_some ht

theorem entityOf_eq_some {name lei : Option String} {e : Entity} (h : entityOf name lei = some e) :
    lei = some e.lei ∧ e.lei ≠ "" := by
  simp only [entityOf, nonEmpty, Option.bind_eq_bind, Option.bind_eq_some_iff, Option.pure_def,
    Option.some.injEq, Option.filter_eq_some_iff] at h
  obtain ⟨_, -, l, ⟨hl, hne⟩, rfl⟩ := h
  refine ⟨hl, ?_⟩
  rintro rfl
  cases hne

theorem record_eq_some {doc : Document} {e : Entity} (h : record doc = some (some e)) :
    RecordId e.lei doc ∧ e.lei ≠ "" := by
  simp only [record, Option.bind_eq_bind, Option.bind_eq_some_iff, Option.pure_def,
    Option.some.injEq] at h
  obtain ⟨f, hf, lei, hlei, name, -, he⟩ := h
  obtain ⟨rfl, hne⟩ := entityOf_eq_some he
  obtain ⟨v, hv, hd⟩ := Fields.exists_of_withDefault hlei
  cases Decoder.string_eq_some (Decoder.optional_eq_some hd)
  exact ⟨by rw [RecordId, field?, hf]; exact hv, hne⟩

theorem completion_eq_some {doc : Document} {e : Entity} (h : completion doc = some (some e)) :
    CompletionId e.lei doc ∧ e.lei ≠ "" := by
  simp only [completion, Option.bind_eq_bind, Option.bind_eq_some_iff, Option.pure_def,
    Option.some.injEq] at h
  obtain ⟨f, hf, name, -, lei, hlei, he⟩ := h
  obtain ⟨hlei', hne⟩ := entityOf_eq_some he
  rw [Option.join_eq_some_iff] at hlei'
  subst hlei'
  obtain ⟨relationships, hrelationships, hd⟩ := Fields.exists_of_withDefault hlei
  obtain ⟨records, hrecords, hd⟩ := within_eq_some (Decoder.optional_eq_some hd)
  obtain ⟨data, hdata, hd⟩ := within_eq_some hd
  obtain ⟨id, hid, hd⟩ := within_eq_some hd
  cases someText_eq_some hd
  refine ⟨⟨relationships, records, data, ?_, hrecords, hdata, hid⟩, hne⟩
  rw [field?, hf]
  exact hrelationships

theorem identifier_eq_some {doc : Document} {id : String} (h : identifier doc = some (some id)) :
    ActiveId id doc := by
  obtain ⟨o, ho, hid⟩ := Option.map_eq_some_iff.1 h
  obtain ⟨ho', -⟩ := Option.filter_eq_some_iff.1 hid
  subst ho'
  obtain ⟨v, hv, hd⟩ := within_eq_some ho
  cases someText_eq_some hd
  exact hv

theorem exists_of_mem_listOf {item : Decoder (Option β)} {r : Reply} {bs : List β} {b : β}
    (h : readBody? (listOf item) r = some bs) (hb : b ∈ bs) :
    ∃ it, item it = some (some b) ∧ ∀ p : Document → Prop, p it → HasItem p r := by
  obtain ⟨doc, hdoc, h⟩ := Option.bind_eq_some_iff.1 h
  simp only [listOf, Option.bind_eq_bind, Option.bind_eq_some_iff, Option.pure_def,
    Option.some.injEq] at h
  obtain ⟨f, hf, items, hitems, rfl⟩ := h
  obtain ⟨o, ho, hob⟩ := List.mem_filterMap.1 hb
  cases items with
  | none => cases ho
  | some items =>
    obtain ⟨v, hv, hd⟩ := Fields.exists_of_optional hitems
    cases v with
    | array docs =>
      obtain ⟨it, hit, hdecoded⟩ := Json.exists_of_mem_mapM hd ho
      cases hob
      refine ⟨it, hdecoded, fun p hp => ⟨doc, docs, hdoc, ?_, it, hit, hp⟩⟩
      rw [field?, hf]
      exact hv
    | _ => cases hd

theorem hasItem_of_records {r : Reply} {es : List Entity} {e : Entity} (h : records? r = some es)
    (he : e ∈ es) : HasItem (RecordId e.lei) r ∧ e.lei ≠ "" := by
  obtain ⟨it, hit, hitem⟩ := exists_of_mem_listOf h he
  obtain ⟨hid, hne⟩ := record_eq_some hit
  exact ⟨hitem _ hid, hne⟩

theorem hasItem_of_completions {r : Reply} {es : List Entity} {e : Entity}
    (h : completions? r = some es) (he : e ∈ es) : HasItem (CompletionId e.lei) r ∧ e.lei ≠ "" := by
  obtain ⟨it, hit, hitem⟩ := exists_of_mem_listOf h he
  obtain ⟨hid, hne⟩ := completion_eq_some hit
  exact ⟨hitem _ hid, hne⟩

theorem hasItem_of_identifiers {r : Reply} {ids : List String} {id : String}
    (h : identifiers? r = some ids) (hid : id ∈ ids) : HasItem (ActiveId id) r := by
  obtain ⟨it, hit, hitem⟩ := exists_of_mem_listOf h hid
  exact hitem _ (identifier_eq_some hit)

end Registry

end LegalEntity
