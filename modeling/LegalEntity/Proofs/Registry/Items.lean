import LegalEntity.Proofs.Json.Records
import LegalEntity.Registry.Payload

namespace LegalEntity.Registry

open Json (Decoder Document Fields IsObject IsRecord)

section

variable (Record : List String → Document → List (Option Document) → Prop)

/-- The text at the end of a path of fields. Each part on the way can be missing or `null`. -/
inductive TextAt : List String → Option Document → Option String → Prop
  | missing {path : List String} : TextAt path none none
  | null {path : List String} : TextAt path (some .null) none
  | text {s : String} : TextAt [] (some (.string (some s))) (some s)
  | within {name : String} {path : List String} {doc : Document} {part : Option Document}
      {text : Option String} (h : Record [name] doc [part]) (hpart : TextAt path part text) :
      TextAt (name :: path) (some doc) text

inductive CompletionItem : Document → Option Entity → Prop
  | item {doc : Document} {attributes relationships : Option Document} {name lei : Option String}
      (h : Record ["attributes", "relationships"] doc [attributes, relationships])
      (hname : TextAt Record ["value"] attributes name)
      (hlei : TextAt Record ["lei-records", "data", "id"] relationships lei) :
      CompletionItem doc (entityOf name lei)

inductive RecordItem : Document → Option Entity → Prop
  | item {doc : Document} {id attributes : Option Document} {name lei : Option String}
      (h : Record ["id", "attributes"] doc [id, attributes]) (hlei : TextAt Record [] id lei)
      (hname : TextAt Record ["entity", "legalName", "name"] attributes name) :
      RecordItem doc (entityOf name lei)

inductive IdentifierItem : Document → Option String → Prop
  | item {doc : Document} {id : Option Document} {lei : Option String}
      (h : Record ["id"] doc [id]) (hlei : TextAt Record [] id lei) :
      IdentifierItem doc (nonEmpty lei)

end

section

variable {Record Record' : List String → Document → List (Option Document) → Prop}
  (hrecord : ∀ names doc fields, Record names doc fields → Record' names doc fields)

include hrecord

theorem TextAt.imp {path : List String} {part : Option Document} {text : Option String}
    (h : TextAt Record path part text) : TextAt Record' path part text := by
  induction h with
  | missing => exact .missing
  | null => exact .null
  | text => exact .text
  | within h _ ih => exact .within (hrecord _ _ _ h) ih

theorem CompletionItem.imp {doc : Document} {o : Option Entity} (h : CompletionItem Record doc o) :
    CompletionItem Record' doc o := by
  obtain ⟨h, hname, hlei⟩ := h
  exact .item (hrecord _ _ _ h) (hname.imp hrecord) (hlei.imp hrecord)

theorem RecordItem.imp {doc : Document} {o : Option Entity} (h : RecordItem Record doc o) :
    RecordItem Record' doc o := by
  obtain ⟨h, hlei, hname⟩ := h
  exact .item (hrecord _ _ _ h) (hlei.imp hrecord) (hname.imp hrecord)

theorem IdentifierItem.imp {doc : Document} {o : Option String} (h : IdentifierItem Record doc o) :
    IdentifierItem Record' doc o := by
  obtain ⟨h, hlei⟩ := h
  exact .item (hrecord _ _ _ h) (hlei.imp hrecord)

end

def pathText : List String → Decoder (Option String)
  | [] => someText
  | name :: path => within name (pathText path)

def partText (path : List String) : Option Document → Option (Option String)
  | none => some none
  | some doc => (Decoder.optional (pathText path) doc).map Option.join

theorem withDefault_join (f : Fields) (name : String) (path : List String) :
    (f.withDefault name none (Decoder.optional (pathText path))).map Option.join =
      partText path (f.get? name) := by
  rw [Fields.withDefault]
  cases f.get? name with
  | none => rfl
  | some doc => rfl

theorem withDefault_string (f : Fields) (name : String) :
    f.withDefault name none (Decoder.optional Decoder.string) = partText [] (f.get? name) := by
  rw [Fields.withDefault]
  cases f.get? name with
  | none => rfl
  | some doc =>
    cases doc with
    | string s => cases s <;> rfl
    | _ => rfl

theorem within_eq (name : String) (path : List String) (doc : Document) :
    within name (pathText path) doc =
      (Fields.of? [name] doc).bind fun f => partText path (f.get? name) := by
  simp only [within, ← withDefault_join, Option.map_eq_bind]
  rfl

theorem partText_of_ne_null {path : List String} {doc : Document} (h : doc ≠ .null) :
    partText path (some doc) = pathText path doc := by
  have hjoin (o : Option (Option String)) : (o.map some).map Option.join = o := by
    cases o <;> rfl
  cases doc with
  | null => exact absurd rfl h
  | _ => exact hjoin _

theorem fields_eq_some_iff {name : String} {doc : Document} {β : Type}
    {g : Option Document → Option β} {b : β} :
    ((Fields.of? [name] doc).bind fun f => g (f.get? name)) = some b ↔
      ∃ part, IsRecord [name] doc [part] ∧ g part = some b := by
  simp only [← Fields.of?_eq_some_iff (List.nodup_singleton name), Option.bind_eq_some_iff,
    List.map_cons, List.map_nil, List.cons.injEq, and_true]
  constructor
  · rintro ⟨f, hf, hg⟩
    exact ⟨_, ⟨f, hf, rfl⟩, hg⟩
  · rintro ⟨_, ⟨f, hf, rfl⟩, hg⟩
    exact ⟨f, hf, hg⟩

theorem pair_eq_some_iff {first second : String} (hne : first ≠ second) {doc : Document} {β : Type}
    {g : Option Document → Option Document → Option β} {b : β} :
    ((Fields.of? [first, second] doc).bind fun f => g (f.get? first) (f.get? second)) = some b ↔
      ∃ part part', IsRecord [first, second] doc [part, part'] ∧ g part part' = some b := by
  have hnames : [first, second].Nodup := by simp [hne]
  simp only [← Fields.of?_eq_some_iff hnames, Option.bind_eq_some_iff, List.map_cons,
    List.map_nil, List.cons.injEq, and_true]
  constructor
  · rintro ⟨f, hf, hg⟩
    exact ⟨_, _, ⟨f, hf, rfl, rfl⟩, hg⟩
  · rintro ⟨_, _, ⟨f, hf, rfl, rfl⟩, hg⟩
    exact ⟨f, hf, hg⟩

theorem textAt_none_iff {path : List String} {text : Option String} :
    TextAt IsRecord path none text ↔ text = none := by
  constructor
  · rintro ⟨⟩
    rfl
  · rintro rfl
    exact .missing

theorem textAt_null_iff {path : List String} {text : Option String} :
    TextAt IsRecord path (some .null) text ↔ text = none := by
  constructor
  · rintro (_ | _ | _ | ⟨h, -⟩)
    · rfl
    · exact absurd rfl h.ne_null
  · rintro rfl
    exact .null

theorem textAt_nil_iff {doc : Document} (h : doc ≠ .null) {text : Option String} :
    TextAt IsRecord [] (some doc) text ↔ someText doc = some text := by
  constructor
  · rintro (_ | _ | _)
    · exact absurd rfl h
    · rfl
  · intro htext
    obtain ⟨s, hs, rfl⟩ := Option.map_eq_some_iff.1 htext
    cases doc with
    | string t =>
      cases hs
      exact .text
    | _ => cases hs

theorem textAt_cons_iff {name : String} {path : List String} {doc : Document} (h : doc ≠ .null)
    {text : Option String} : TextAt IsRecord (name :: path) (some doc) text ↔
      ∃ part, IsRecord [name] doc [part] ∧ TextAt IsRecord path part text := by
  constructor
  · rintro (_ | _ | _ | ⟨hrecord, hpart⟩)
    · exact absurd rfl h
    · exact ⟨_, hrecord, hpart⟩
  · rintro ⟨part, hrecord, hpart⟩
    exact .within hrecord hpart

theorem partText_eq_some_iff {path : List String} {part : Option Document} {text : Option String} :
    partText path part = some text ↔ TextAt IsRecord path part text := by
  induction path generalizing part with
  | nil =>
    cases part with
    | none => simp [partText, textAt_none_iff, eq_comm]
    | some doc =>
      by_cases h : doc = .null
      · subst h
        simp [partText, Decoder.optional, textAt_null_iff, eq_comm]
      · rw [partText_of_ne_null h, textAt_nil_iff h]
        rfl
  | cons name path ih =>
    cases part with
    | none => simp [partText, textAt_none_iff, eq_comm]
    | some doc =>
      by_cases h : doc = .null
      · subst h
        simp [partText, Decoder.optional, textAt_null_iff, eq_comm]
      · rw [partText_of_ne_null h, textAt_cons_iff h, pathText, within_eq, fields_eq_some_iff]
        simp only [ih]

theorem identifier_eq_some_iff {doc : Document} {o : Option String} :
    identifier doc = some o ↔ IdentifierItem IsRecord doc o := by
  have heq : identifier doc =
      ((Fields.of? ["id"] doc).bind fun f => partText [] (f.get? "id")).map nonEmpty := by
    rw [← within_eq]
    rfl
  rw [heq, Option.map_eq_some_iff]
  simp only [fields_eq_some_iff, partText_eq_some_iff]
  constructor
  · rintro ⟨lei, ⟨id, h, hlei⟩, rfl⟩
    exact .item h hlei
  · rintro ⟨h, hlei⟩
    exact ⟨_, ⟨_, h, hlei⟩, rfl⟩

theorem completion_eq_some_iff {doc : Document} {o : Option Entity} :
    completion doc = some o ↔ CompletionItem IsRecord doc o := by
  have heq : completion doc = (Fields.of? ["attributes", "relationships"] doc).bind fun f =>
      (partText ["value"] (f.get? "attributes")).bind fun name =>
        (partText ["lei-records", "data", "id"] (f.get? "relationships")).map (entityOf name) := by
    simp only [completion, ← withDefault_join, Option.map_eq_bind, Option.bind_assoc]
    rfl
  rw [heq, pair_eq_some_iff (by decide)
    (g := fun attributes relationships => (partText ["value"] attributes).bind fun name =>
      (partText ["lei-records", "data", "id"] relationships).map (entityOf name))]
  simp only [Option.bind_eq_some_iff, Option.map_eq_some_iff, partText_eq_some_iff]
  constructor
  · rintro ⟨attributes, relationships, h, name, hname, lei, hlei, rfl⟩
    exact .item h hname hlei
  · rintro ⟨h, hname, hlei⟩
    exact ⟨_, _, h, _, hname, _, hlei, rfl⟩

theorem record_eq_some_iff {doc : Document} {o : Option Entity} :
    record doc = some o ↔ RecordItem IsRecord doc o := by
  have heq : record doc = (Fields.of? ["id", "attributes"] doc).bind fun f =>
      (partText [] (f.get? "id")).bind fun lei =>
        (partText ["entity", "legalName", "name"] (f.get? "attributes")).map (entityOf · lei) := by
    simp only [record, ← withDefault_string]
    simp only [← withDefault_join, Option.map_eq_bind, Option.bind_assoc]
    rfl
  rw [heq, pair_eq_some_iff (by decide)
    (g := fun id attributes => (partText [] id).bind fun lei =>
      (partText ["entity", "legalName", "name"] attributes).map (entityOf · lei))]
  simp only [Option.bind_eq_some_iff, Option.map_eq_some_iff, partText_eq_some_iff]
  constructor
  · rintro ⟨id, attributes, h, lei, hlei, name, hname, rfl⟩
    exact .item h hlei hname
  · rintro ⟨h, hlei, hname⟩
    exact ⟨_, _, h, _, hlei, _, hname, rfl⟩

def textAt : List String → Document → Option String
  | [], .string s => s
  | name :: path, .object members => (members.lookup (some name)).bind (textAt path)
  | _, _ => none

def completionIn (item : Document) : Option Entity :=
  entityOf (textAt ["attributes", "value"] item)
    (textAt ["relationships", "lei-records", "data", "id"] item)

def recordIn (item : Document) : Option Entity :=
  entityOf (textAt ["attributes", "entity", "legalName", "name"] item) (textAt ["id"] item)

def identifierIn (item : Document) : Option String := nonEmpty (textAt ["id"] item)

section

variable {members : List (String × Document)} {doc : Document} {path : List String}
  {part : Option Document} {text name lei : Option String}

theorem lookup_some (name : String) :
    (members.map fun m => (some m.1, m.2)).lookup (some name) = members.lookup name := by
  induction members with
  | nil => rfl
  | cons m members ih =>
    rw [List.map_cons, List.lookup_cons, List.lookup_cons, ih]
    rfl

theorem textAt_object (name : String) (path : List String) :
    textAt (name :: path) (.object (members.map fun m => (some m.1, m.2))) =
      (members.lookup name).bind (textAt path) := by
  rw [textAt, lookup_some]

theorem TextAt.eq_textAt (h : TextAt IsObject path part text) :
    part.bind (textAt path) = text := by
  induction h with
  | missing => rfl
  | @null path => cases path <;> rfl
  | text => rfl
  | within h _ ih =>
    obtain ⟨members, rfl, hpart⟩ := h.exists_members
    cases hpart
    exact (textAt_object _ _).trans ih

theorem TextAt.textAt_or (h : TextAt IsRecord path part text) :
    part.bind (textAt path) = none ∨ part.bind (textAt path) = text := by
  induction h with
  | missing => exact .inl rfl
  | @null path => cases path <;> exact .inl rfl
  | text => exact .inr rfl
  | within h _ ih =>
    obtain h | ⟨items, rfl⟩ := h.isObject_or
    · obtain ⟨members, rfl, hpart⟩ := h.exists_members
      cases hpart
      rw [Option.bind_some, textAt_object]
      exact ih
    · exact .inl rfl

theorem entityOf_or {name' lei' : Option String} (hname : name' = none ∨ name' = name)
    (hlei : lei' = none ∨ lei' = lei) :
    entityOf name' lei' = none ∨ entityOf name' lei' = entityOf name lei := by
  obtain rfl | rfl := hname
  · exact .inl rfl
  · obtain rfl | rfl := hlei
    · left
      cases name' with
      | none => rfl
      | some s => simp [entityOf, nonEmpty]
    · exact .inr rfl

theorem CompletionItem.eq_completionIn {o : Option Entity} (h : CompletionItem IsObject doc o) :
    o = completionIn doc := by
  obtain ⟨h, hname, hlei⟩ := h
  obtain ⟨members, rfl, hfields⟩ := h.exists_members
  cases hfields
  rw [completionIn, textAt_object, textAt_object, hname.eq_textAt, hlei.eq_textAt]

theorem CompletionItem.completionIn_or {o : Option Entity} (h : CompletionItem IsRecord doc o) :
    completionIn doc = none ∨ completionIn doc = o := by
  obtain ⟨h, hname, hlei⟩ := h
  obtain h | ⟨items, rfl⟩ := h.isObject_or
  · obtain ⟨members, rfl, hfields⟩ := h.exists_members
    cases hfields
    rw [completionIn, textAt_object, textAt_object]
    exact entityOf_or hname.textAt_or hlei.textAt_or
  · exact .inl rfl

theorem RecordItem.eq_recordIn {o : Option Entity} (h : RecordItem IsObject doc o) :
    o = recordIn doc := by
  obtain ⟨h, hlei, hname⟩ := h
  obtain ⟨members, rfl, hfields⟩ := h.exists_members
  cases hfields
  rw [recordIn, textAt_object, textAt_object, hname.eq_textAt, hlei.eq_textAt]

theorem RecordItem.recordIn_or {o : Option Entity} (h : RecordItem IsRecord doc o) :
    recordIn doc = none ∨ recordIn doc = o := by
  obtain ⟨h, hlei, hname⟩ := h
  obtain h | ⟨items, rfl⟩ := h.isObject_or
  · obtain ⟨members, rfl, hfields⟩ := h.exists_members
    cases hfields
    rw [recordIn, textAt_object, textAt_object]
    exact entityOf_or hname.textAt_or hlei.textAt_or
  · exact .inl rfl

theorem IdentifierItem.eq_identifierIn {o : Option String} (h : IdentifierItem IsObject doc o) :
    o = identifierIn doc := by
  obtain ⟨h, hlei⟩ := h
  obtain ⟨members, rfl, hfields⟩ := h.exists_members
  cases hfields
  rw [identifierIn, textAt_object, hlei.eq_textAt]

theorem IdentifierItem.identifierIn_or {o : Option String} (h : IdentifierItem IsRecord doc o) :
    identifierIn doc = none ∨ identifierIn doc = o := by
  obtain ⟨h, hlei⟩ := h
  obtain h | ⟨items, rfl⟩ := h.isObject_or
  · obtain ⟨members, rfl, hfields⟩ := h.exists_members
    cases hfields
    rw [identifierIn, textAt_object]
    obtain hnone | heq := hlei.textAt_or
    · exact .inl (by rw [hnone]; rfl)
    · exact .inr (by rw [heq])
  · exact .inl rfl

end

def Brings (r : Reply) (items : List Document) : Prop :=
  ∃ doc, Json.parse? r.body = some doc ∧ IsObject ["data"] doc [some (.array items)]

structure ReadsItems (r : Reply) (items : List Document) (read : Reply → Option (List β))
    (Item : (List String → Document → List (Option Document) → Prop) → Document → Option β → Prop)
    (itemIn : Document → Option β) : Prop where
  read_iff (bs : List β) : read r = some bs ↔
    ∃ os, List.Forall₂ (Item IsRecord) items os ∧ bs = os.filterMap id
  /-- The list is that of the documented places exactly if each item stands for what it has there. -/
  documented_iff : read r = some (items.filterMap itemIn) ↔
    ∀ item ∈ items, Item IsRecord item (itemIn item)
  documented : (∀ item ∈ items, ∃ o, Item IsObject item o) →
    read r = some (items.filterMap itemIn)
  append (r₁ r₂ : Reply) (items₁ items₂ : List Document) (h : items = items₁ ++ items₂)
    (h₁ : Brings r₁ items₁) (h₂ : Brings r₂ items₂) :
    read r = (read r₁).bind fun bs₁ => (read r₂).map (bs₁ ++ ·)

structure ItemReading (item : Decoder (Option β))
    (Item : (List String → Document → List (Option Document) → Prop) → Document → Option β → Prop)
    (itemIn : Document → Option β) : Prop where
  read_iff (doc : Document) (o : Option β) : item doc = some o ↔ Item IsRecord doc o
  imp (doc : Document) (o : Option β) : Item IsObject doc o → Item IsRecord doc o
  documented (doc : Document) (o : Option β) : Item IsObject doc o → o = itemIn doc
  documented_or (doc : Document) (o : Option β) :
    Item IsRecord doc o → itemIn doc = none ∨ itemIn doc = o

theorem completion_reading : ItemReading completion CompletionItem completionIn where
  read_iff _ _ := completion_eq_some_iff
  imp _ _ h := h.imp fun _ _ _ => .object
  documented _ _ h := h.eq_completionIn
  documented_or _ _ h := h.completionIn_or

theorem record_reading : ItemReading record RecordItem recordIn where
  read_iff _ _ := record_eq_some_iff
  imp _ _ h := h.imp fun _ _ _ => .object
  documented _ _ h := h.eq_recordIn
  documented_or _ _ h := h.recordIn_or

theorem identifier_reading : ItemReading identifier IdentifierItem identifierIn where
  read_iff _ _ := identifier_eq_some_iff
  imp _ _ h := h.imp fun _ _ _ => .object
  documented _ _ h := h.eq_identifierIn
  documented_or _ _ h := h.identifierIn_or

section

variable {r : Reply} {items : List Document} {item : Decoder (Option β)}
  {Item : (List String → Document → List (Option Document) → Prop) → Document → Option β → Prop}
  {itemIn : Document → Option β}

theorem readBody?_listOf (h : Brings r items) :
    readBody? (listOf item) r = (items.mapM item).map (·.filterMap id) := by
  obtain ⟨doc, hdoc, hobject⟩ := h
  obtain ⟨f, hf, hfields⟩ := (Fields.of?_eq_some_iff (by simp)).2 (.object hobject)
  simp only [List.map_cons, List.map_nil, List.cons.injEq, and_true] at hfields
  rw [readBody?, hdoc, Option.bind_some]
  simp only [listOf, hf, Option.bind_eq_bind, Option.bind_some, Fields.optional, hfields,
    Decoder.optional, Decoder.list]
  cases items.mapM item <;> rfl

theorem readBody?_listOf_iff (hitem : ∀ doc o, item doc = some o ↔ Item IsRecord doc o)
    (h : Brings r items) (bs : List β) : readBody? (listOf item) r = some bs ↔
      ∃ os, List.Forall₂ (Item IsRecord) items os ∧ bs = os.filterMap id := by
  simp only [readBody?_listOf h, Option.map_eq_some_iff, Json.mapM_eq_some_iff, hitem, eq_comm]

theorem length_filterMap_le {os : List (Option β)}
    (h : List.Forall₂ (fun doc o => itemIn doc = none ∨ itemIn doc = o) items os) :
    (items.filterMap itemIn).length ≤ (os.filterMap id).length := by
  induction h with
  | nil => exact Nat.le_refl 0
  | @cons doc o items os hdoc _ ih =>
    obtain hnone | rfl := hdoc
    · rw [List.filterMap_cons_none hnone]
      cases o with
      | none => exact ih
      | some b => exact Nat.le_succ_of_le ih
    · cases ho : itemIn doc with
      | none => simpa [List.filterMap_cons_none ho] using ih
      | some b => simpa [List.filterMap_cons_some ho] using ih

theorem eq_map_of_filterMap_eq {os : List (Option β)}
    (h : List.Forall₂ (fun doc o => itemIn doc = none ∨ itemIn doc = o) items os)
    (heq : items.filterMap itemIn = os.filterMap id) : os = items.map itemIn := by
  induction h with
  | nil => rfl
  | @cons doc o items os hdoc hrest ih =>
    cases hin : itemIn doc with
    | some b =>
      obtain rfl : itemIn doc = o := hdoc.resolve_left (by simp [hin])
      rw [hin] at heq ⊢
      rw [List.filterMap_cons_some hin] at heq
      rw [List.map_cons, hin, ih (List.tail_eq_of_cons_eq heq)]
    | none =>
      rw [List.filterMap_cons_none hin] at heq
      cases o with
      | none => rw [List.map_cons, hin, ih heq]
      | some b =>
        have hle := length_filterMap_le hrest
        rw [heq] at hle
        exact absurd hle (Nat.not_succ_le_self _)

theorem ItemReading.list (hitem : ItemReading item Item itemIn) (h : Brings r items) :
    ReadsItems r items (readBody? (listOf item)) Item itemIn := by
  have hread := readBody?_listOf_iff hitem.read_iff h
  have hdocumented : readBody? (listOf item) r = some (items.filterMap itemIn) ↔
      ∀ doc ∈ items, Item IsRecord doc (itemIn doc) := by
    have hall : (∀ doc ∈ items, Item IsRecord doc (itemIn doc)) ↔
        List.Forall₂ (Item IsRecord) items (items.map itemIn) := by
      rw [List.forall₂_map_right_iff, List.forall₂_same]
    rw [hread, hall]
    constructor
    · rintro ⟨os, hos, hlist⟩
      rwa [← eq_map_of_filterMap_eq (hos.imp hitem.documented_or) hlist]
    · exact fun hos => ⟨_, hos, by simp [List.filterMap_map]⟩
  refine ⟨hread, hdocumented, fun hobjects => ?_, ?_⟩
  · refine hdocumented.2 fun doc hdoc => ?_
    obtain ⟨o, ho⟩ := hobjects doc hdoc
    rw [← hitem.documented doc o ho]
    exact hitem.imp doc o ho
  · rintro r₁ r₂ items₁ items₂ rfl h₁ h₂
    rw [readBody?_listOf h, readBody?_listOf h₁, readBody?_listOf h₂, List.mapM_append]
    cases items₁.mapM item with
    | none => rfl
    | some os₁ =>
      cases items₂.mapM item with
      | none => rfl
      | some os₂ => simp [List.filterMap_append]

end

/-- The items of completions, records and identifiers are read one by one: the list can be read
exactly if each item can, whatever the others are, and is then what they stand for, in order. It is
what the documented places hold if each item is an object and so is what leads to a text there, as
far as it is present. -/
theorem items_read_one_by_one (r : Reply) (items : List Document) (h : Brings r items) :
    ReadsItems r items completions? CompletionItem completionIn ∧
    ReadsItems r items records? RecordItem recordIn ∧
    ReadsItems r items identifiers? IdentifierItem identifierIn :=
  ⟨completion_reading.list h, record_reading.list h, identifier_reading.list h⟩

def oneItem : Document := .object [(some "id", .string (some "A"))]

def oneReply : Reply := ⟨200, Text.utf8 "\x7b\"data\":[\x7b\"id\":\"A\"\x7d]\x7d"⟩

def nullReply : Reply := ⟨200, Text.utf8 "\x7b\"data\":[\x7b\"id\":\"A\"\x7d,null]\x7d"⟩

theorem isObject_single (name : String) (doc : Document) :
    IsObject [name] (.object [(some name, doc)]) [some doc] := by
  have h : ∀ other ∈ [name], ([(name, doc)].map Prod.fst).count other ≤ 1 := by simp
  simpa using IsObject.object h

theorem brings_one : Brings oneReply [oneItem] := ⟨_, rfl, isObject_single "data" _⟩

theorem brings_null : Brings nullReply [oneItem, .null] := ⟨_, rfl, isObject_single "data" _⟩

/-- The identifier in a list is lost by a `null` behind it. -/
theorem items_read_one_by_one_null :
    identifiers? oneReply = some ["A"] ∧ identifiers? nullReply = none ∧
      [oneItem, .null].filterMap identifierIn = ["A"] := by
  have hone : IdentifierItem IsObject oneItem (nonEmpty (some "A")) :=
    .item (isObject_single "id" _) .text
  obtain ⟨-, -, hread⟩ := items_read_one_by_one _ _ brings_one
  obtain ⟨-, -, hnull⟩ := items_read_one_by_one _ _ brings_null
  refine ⟨?_, Option.eq_none_iff_forall_ne_some.2 fun bs hbs => ?_, rfl⟩
  · rw [hread.documented fun item hitem => ⟨_, List.mem_singleton.1 hitem ▸ hone⟩]
    rfl
  · obtain ⟨os, hos, -⟩ := (hnull.read_iff bs).1 hbs
    obtain _ | ⟨-, _ | ⟨⟨h, -⟩, -⟩⟩ := hos
    exact h.ne_null rfl

end LegalEntity.Registry
