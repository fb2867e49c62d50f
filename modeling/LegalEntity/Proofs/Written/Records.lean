import LegalEntity.Cache.Store
import LegalEntity.Proofs.Cache.ReadBack
import LegalEntity.Proofs.Json.Finite

namespace LegalEntity

open Json (Decoder Document Fields toDocument toMembers)

namespace Table

theorem get?_foldl_insert {entries : List (String × α)} (h : (entries.map Prod.fst).Nodup)
    (t : Table α) (key : String) :
    (entries.foldl (fun t e => t.insert e.1 e.2) t).get? key =
      (entries.lookup key).or (t.get? key) := by
  induction entries generalizing t with
  | nil => rfl
  | cons e rest ih =>
    obtain ⟨name, value⟩ := e
    obtain ⟨hname, hrest⟩ := List.nodup_cons.1 h
    rw [List.foldl_cons, ih hrest, List.lookup_cons]
    by_cases hkey : key = name
    · subst hkey
      have hnone : rest.lookup key = none := by
        refine List.lookup_eq_none_iff.2 fun e he => bne_iff_ne.2 fun heq => hname ?_
        exact List.mem_map.2 ⟨e, he, heq.symm⟩
      rw [hnone, get?_insert_self, beq_self_eq_true]
      rfl
    · rw [get?_insert_of_ne t hkey, beq_eq_false_iff_ne.2 hkey]

theorem get?_ofList {entries : List (String × α)} (h : (entries.map Prod.fst).Nodup)
    (key : String) : (ofList entries).get? key = entries.lookup key := by
  rw [ofList, get?_foldl_insert h, get?_empty, Option.or_none]

theorem nodup_names (t : Table α) : (t.entries.map Prod.fst).Nodup :=
  List.pairwise_map.2 (t.ascending.imp fun {a b} hlt (heq : a.1 = b.1) =>
    String.lt_irrefl b.1 (heq ▸ hlt))

end Table

namespace Json

theorem toMembers_eq_map (ms : List (String × Json)) :
    toMembers ms = (ms.map fun m => (m.1, m.2.toDocument)).map fun m => (some m.1, m.2) := by
  induction ms with
  | nil => rfl
  | cons m ms ih => rw [toMembers, ih, List.map_cons, List.map_cons]

theorem lookup_map_toDocument (ms : List (String × Json)) (name : String) :
    (ms.map fun m => (m.1, m.2.toDocument)).lookup name = (ms.lookup name).map toDocument := by
  induction ms with
  | nil => rfl
  | cons m ms ih =>
    rw [List.map_cons, List.lookup_cons, List.lookup_cons, ih]
    cases name == m.1 <;> rfl

section

variable {names : List String} {ms : List (String × Json)}

theorem isObject_ofMembers (names : List String) (h : (ms.map Prod.fst).Nodup) :
    IsObject names (ofMembers ms).toDocument
      (names.map fun name => (ms.lookup name).map toDocument) := by
  have hfields :
      names.map (((Table.ofList ms).entries.map fun m => (m.1, m.2.toDocument)).lookup ·) =
        names.map fun name => (ms.lookup name).map toDocument :=
    List.map_congr_left fun name _ => by
      rw [lookup_map_toDocument, ← Table.get?_ofList h name]
      rfl
  rw [← hfields, ofMembers, ofTable, toDocument, toMembers_eq_map]
  refine .object fun name _ => List.nodup_iff_count_le_one.1 ?_ name
  rw [List.map_map]
  exact Table.nodup_names _

theorem Fields.bind_written (hnames : names.Nodup) (h : (ms.map Prod.fst).Nodup)
    {read : Fields → Option α} {a : α}
    (hread : ∀ f : Fields, (∀ name ∈ names, f.get? name = (ms.lookup name).map toDocument) →
      read f = some a) :
    Fields.of? names (ofMembers ms).toDocument >>= read = some a := by
  obtain ⟨f, hf, hget⟩ := (Fields.of?_eq_some_iff hnames).2 (.object (isObject_ofMembers names h))
  rw [hf]
  exact hread f (List.map_inj_left.1 hget)

end

@[simp] theorem toDocument_string (s : String) :
    (Json.string s).toDocument = .string (some s) := rfl

@[simp] theorem Decoder.string_string (s : Option String) : string (.string s) = s := rfl

theorem double_ofFloat {x : Float} (h : x.isFinite = true) :
    Decoder.double (ofFloat x).toDocument = some x := by
  rw [ofFloat, if_pos h]
  rfl

theorem word_ofNat {n : Nat} (h : n ≤ Decimal.maxWord) :
    Decoder.word (ofNat n).toDocument = some n := by
  have hword : (0 : Int) ≤ n ∧ (n : Int) ≤ Decimal.maxWord :=
    ⟨Int.natCast_nonneg n, by exact_mod_cast h⟩
  exact if_pos hword

@[simp] theorem optional_string (o : Option String) :
    Decoder.optional Decoder.string (ofOption .string o).toDocument = some o := by
  cases o <;> rfl

@[simp] theorem optional_seed (o : Option UInt64) :
    Decoder.optional (fun d => (Decoder.word d).map UInt64.ofNat)
      (ofOption (fun s => .ofNat s.toNat) o).toDocument = some o := by
  cases o with
  | none => rfl
  | some s =>
    have hword : Decoder.word (.number (some (.int s.toNat))) = some s.toNat :=
      word_ofNat (Nat.le_pred_of_lt s.toNat_lt)
    simp [ofOption, ofNat, toDocument, Decoder.optional, hword]

theorem le_maxWord_of_word {doc : Document} {n : Nat} (h : Decoder.word doc = some n) :
    n ≤ Decimal.maxWord := by
  unfold Decoder.word at h
  split at h
  · split at h
    · cases h
      omega
    · cases h
  · cases h

theorem Fields.of_withDefault {P : α → Prop} {f : Fields} {name : String} {a b : α}
    {d : Decoder α} (h : f.withDefault name a d = some b) (hdefault : P a)
    (hread : ∀ part, f.get? name = some part → d part = some b → P b) : P b := by
  unfold Fields.withDefault at h
  split at h
  · exact hread _ ‹_› h
  · cases h
    exact hdefault

theorem Fields.word_of_withDefault {f : Fields} {name : String} {a n : Nat}
    (h : f.withDefault name a Decoder.word = some n) (ha : a ≤ Decimal.maxWord) :
    n ≤ Decimal.maxWord :=
  of_withDefault (P := (· ≤ Decimal.maxWord)) h ha fun _ _ => le_maxWord_of_word

theorem Fields.double_of_withDefault {names : List String} {doc : Document} {f : Fields}
    {name : String} {a x : Float} (h : f.withDefault name a Decoder.double = some x)
    (hdoc : doc.IsFinite) (hf : of? names doc = some f) (ha : a.isFinite = true) :
    x.isFinite = true :=
  of_withDefault (P := fun x => x.isFinite = true) h ha fun _ hpart => (hdoc.field hf hpart).double

end Json

structure RoundTrips (P : α → Prop) (read : Decoder α) (write : α → Json) : Prop where
  read_write : ∀ a, P a → read (write a).toDocument = some a
  sound : ∀ doc a, doc.IsFinite → read doc = some a → P a

def Survives (read : Decoder α) (write : α → Json) : Prop :=
  ∀ text doc a, Json.parse? text = some doc → read doc = some a →
    read (write a).toDocument = some a

section

variable {P : α → Prop} {read : Decoder α} {write : α → Json}

theorem RoundTrips.survives (h : RoundTrips P read write) : Survives read write :=
  fun _ doc a hparse hread =>
    h.read_write a (h.sound doc a (Json.isFinite_of_parse? hparse) hread)

theorem RoundTrips.of_forall (h : ∀ a, read (write a).toDocument = some a) :
    RoundTrips (fun _ => True) read write :=
  ⟨fun a _ => h a, fun _ _ _ _ => trivial⟩

theorem injective_of_read_write (h : ∀ a, read (write a).toDocument = some a) :
    Function.Injective write :=
  fun a b heq => Option.some.inj <| by rw [← h a, ← h b, heq]

end

namespace Query

theorem ofDocument?_toJson (q : Query) : ofDocument? q.toJson.toDocument = some q := by
  obtain ⟨symbol, name, isin⟩ := q
  refine Fields.bind_written (by decide) (by cases isin <;> simp) fun f hget => ?_
  cases isin <;>
    simp [Fields.required, Fields.withDefault, hget, List.lookup, Decoder.optional]

end Query

theorem Source.ofText?_text (s : Source) : ofText? s.text = some s := by
  cases s <;> decide

namespace Identity

theorem ofDocument?_toJson (r : Identity) : ofDocument? r.toJson.toDocument = some r := by
  refine Fields.bind_written (by decide) (by simp) fun f hget => ?_
  simp [Fields.required, Fields.optional, hget, List.lookup, caseName?,
    Source.ofText?_text]

end Identity

namespace Entity

theorem ofDocument?_toJson (e : Entity) : ofDocument? e.toJson.toDocument = some e := by
  refine Fields.bind_written (by decide) (by simp) fun f hget => ?_
  simp [Fields.required, hget, List.lookup]

end Entity

namespace ArchiveMetadata

theorem ofDocument?_toJson (m : ArchiveMetadata) :
    ofDocument? m.toJson.toDocument = some m := by
  refine Fields.bind_written (by decide) (by simp) fun f hget => ?_
  simp [Fields.optional, hget, List.lookup]

end ArchiveMetadata

namespace Scored

theorem roundTrips :
    RoundTrips (fun s : Scored Float => s.score.isFinite = true) ofDocument? toJson where
  read_write s h := by
    refine Fields.bind_written (by decide) (by simp) fun f hget => ?_
    simp [Fields.required, hget, List.lookup, Entity.ofDocument?_toJson, Json.double_ofFloat h]
  sound doc s hdoc hread := by
    simp only [ofDocument?, Option.bind_eq_bind, Option.bind_eq_some_iff, Fields.required] at hread
    obtain ⟨f, hf, entity, -, score, ⟨part, hpart, hscore⟩, hread⟩ := hread
    cases hread
    exact (hdoc.field hf hpart).double hscore

end Scored

namespace Retry.Policy

structure IsWritable (p : Policy) : Prop where
  attempts : p.attempts ≤ Decimal.maxWord
  base : p.base.isFinite = true
  cap : p.cap.isFinite = true
  jitter : p.jitter.isFinite = true

theorem isWritable_default : default.IsWritable where
  attempts := by decide
  base := by decide +kernel
  cap := by decide +kernel
  jitter := by decide +kernel

theorem roundTrips : RoundTrips IsWritable ofDocument? toJson where
  read_write p h := by
    refine Fields.bind_written (by decide) (by simp) fun f hget => ?_
    simp [Fields.withDefault, hget, List.lookup, Json.double_ofFloat, Json.word_ofNat, h.attempts,
      h.base, h.cap, h.jitter]
  sound doc p hdoc hread := by
    simp only [ofDocument?, Option.bind_eq_bind, Option.bind_eq_some_iff] at hread
    obtain ⟨f, hf, attempts, hattempts, base, hbase, cap, hcap, jitter, hjitter, seed, -, hread⟩ :=
      hread
    cases hread
    exact {
      attempts := Fields.word_of_withDefault hattempts isWritable_default.attempts
      base := Fields.double_of_withDefault hbase hdoc hf isWritable_default.base
      cap := Fields.double_of_withDefault hcap hdoc hf isWritable_default.cap
      jitter := Fields.double_of_withDefault hjitter hdoc hf isWritable_default.jitter }

end Retry.Policy

namespace Settings

structure IsWritable (s : Settings Float) : Prop where
  retry : s.retry.IsWritable
  concurrency : s.concurrency ≤ Decimal.maxWord
  cutoff : s.cutoff.isFinite = true
  timeout : s.timeout ≤ Decimal.maxWord

theorem isWritable_default : (default : Settings Float).IsWritable where
  retry := Retry.Policy.isWritable_default
  concurrency := by decide
  cutoff := by decide +kernel
  timeout := by decide

theorem roundTrips : RoundTrips IsWritable ofDocument? toJson where
  read_write s h := by
    have hretry := Retry.Policy.roundTrips.read_write s.retry h.retry
    refine Fields.bind_written (by decide) (by simp) fun f hget => ?_
    simp [Fields.withDefault, hget, List.lookup, Json.double_ofFloat, Json.word_ofNat, hretry,
      h.concurrency, h.cutoff, h.timeout]
  sound doc s hdoc hread := by
    simp only [ofDocument?, Option.bind_eq_bind, Option.bind_eq_some_iff] at hread
    obtain ⟨f, hf, _, -, _, -, _, -, _, -, _, -, retry, hretry, concurrency, hconcurrency, cutoff,
      hcutoff, timeout, htimeout, hread⟩ := hread
    cases hread
    exact {
      retry := Fields.of_withDefault hretry isWritable_default.retry
        fun part hpart => Retry.Policy.roundTrips.sound part _ (hdoc.field hf hpart)
      concurrency := Fields.word_of_withDefault hconcurrency isWritable_default.concurrency
      cutoff := Fields.double_of_withDefault hcutoff hdoc hf isWritable_default.cutoff
      timeout := Fields.word_of_withDefault htimeout isWritable_default.timeout }

end Settings

/-- Records that texts hold are read again as they were once they are written, of whatever kind they
are. Outcomes of names and indexes are written differently if they differ, and a cache that holds
the outcome with some LEI, be it empty, is understood as that outcome. -/
theorem records_survive_writing :
    (Survives Query.ofDocument? Query.toJson ∧
      Survives Identity.ofDocument? Identity.toJson ∧
      Survives IsinIndex.ofDocument? IsinIndex.toJson ∧
      Survives Entity.ofDocument? Entity.toJson ∧
      Survives Scored.ofDocument? Scored.toJson ∧
      Survives NameOutcome.ofDocument? NameOutcome.toJson ∧
      Survives ArchiveMetadata.ofDocument? ArchiveMetadata.toJson ∧
      Survives Retry.Policy.ofDocument? Retry.Policy.toJson ∧
      Survives Settings.ofDocument? Settings.toJson) ∧
    Function.Injective NameOutcome.toJson ∧ Function.Injective IsinIndex.toJson ∧
    ∀ lei, Cache.decoded? NameOutcome.ofDocument? (.ok (some (NameOutcome.found lei).toJson)) =
      some (.found lei) := by
  refine ⟨⟨?_, ?_, ?_, ?_, ?_, ?_, ?_, ?_, ?_⟩, ?_, ?_, fun lei => ?_⟩
  · exact (RoundTrips.of_forall Query.ofDocument?_toJson).survives
  · exact (RoundTrips.of_forall Identity.ofDocument?_toJson).survives
  · exact (RoundTrips.of_forall IsinIndex.ofDocument?_toJson).survives
  · exact (RoundTrips.of_forall Entity.ofDocument?_toJson).survives
  · exact Scored.roundTrips.survives
  · exact (RoundTrips.of_forall NameOutcome.ofDocument?_toJson).survives
  · exact (RoundTrips.of_forall ArchiveMetadata.ofDocument?_toJson).survives
  · exact Retry.Policy.roundTrips.survives
  · exact Settings.roundTrips.survives
  · exact injective_of_read_write NameOutcome.ofDocument?_toJson
  · exact injective_of_read_write IsinIndex.ofDocument?_toJson
  · exact NameOutcome.ofDocument?_toJson (.found lei)

/-- With a member that is not known, and with a number without a point for a double. -/
def seededText : List UInt8 :=
  Text.utf8 "\x7b\"seed\":7,\"note\":[null],\"jitter\":0,\"attempts\":3\x7d"

def seededPolicy : Retry.Policy :=
  { Retry.Policy.default with attempts := 3, jitter := (0 : UInt64).toFloat, seed := some 7 }

theorem records_survive_writing_seeded :
    ∃ doc, Json.parse? seededText = some doc ∧
      Retry.Policy.ofDocument? doc = some seededPolicy ∧
      Retry.Policy.ofDocument? seededPolicy.toJson.toDocument = some seededPolicy := by
  obtain ⟨⟨-, -, -, -, -, -, -, hpolicy, -⟩, -⟩ := records_survive_writing
  exact ⟨_, rfl, rfl, hpolicy seededText _ _ rfl rfl⟩

end LegalEntity
