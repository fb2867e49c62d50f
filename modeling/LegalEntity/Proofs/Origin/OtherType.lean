import LegalEntity.Proofs.Cache.ReadBack
import LegalEntity.Proofs.Origin.Payload
import LegalEntity.Proofs.Text.Case

namespace LegalEntity.Text

def isSmall (n : Nat) : Bool := 0x61 ≤ n && n ≤ 0x7A

def avoidsSmall (r : Nat × Nat × Nat × Int) : Bool :=
  (r.2.1 : Int) + r.2.2.2 < 0x61 || 0x7A < (r.1 : Int) + r.2.2.2

theorem isSmall_ofNat {n : Nat} (h : isSmall n = false) : isSmall (Char.ofNat n).toNat = false :=
  of_zero_of_ofNat (p := (isSmall · = false)) rfl h

theorem isSmall_of_mem_upper {c d : Char} (h : d ∈ upper c) : isSmall d.toNat = false := by
  rw [upper] at h
  split at h
  · rename_i ns hns
    have hall : ∀ e ∈ upperExpansions, ∀ n ∈ e.2, isSmall n = false := by decide +kernel
    obtain ⟨n, hn, rfl⟩ := List.mem_map.1 h
    obtain ⟨before, after, heq, -⟩ := List.lookup_eq_some_iff.1 hns
    exact isSmall_ofNat
      (hall (c.toNat, ns) (heq ▸ List.mem_append_right _ List.mem_cons_self) n hn)
  · have hmoved : ∀ n < 128, isSmall n = true → shiftIn upperRuns n ≠ 0 := by decide +kernel
    have hruns : ∀ r ∈ upperRuns, avoidsSmall r = true := by decide +kernel
    rw [List.mem_singleton.1 h, shiftBy]
    split
    · rename_i hstays
      cases hsmall : isSmall c.toNat with
      | false => rfl
      | true =>
        refine absurd hstays (hmoved c.toNat ?_ hsmall)
        simp only [isSmall, Bool.and_eq_true, decide_eq_true_eq] at hsmall
        omega
    · rename_i hmoves
      obtain ⟨r, hr, hfirst, hlast, -, hshift⟩ := (shiftIn_eq upperRuns c.toNat).resolve_left hmoves
      have havoids := hruns r hr
      apply isSmall_ofNat
      simp only [avoidsSmall, Bool.or_eq_true, decide_eq_true_eq] at havoids
      simp only [isSmall, hshift, Bool.and_eq_false_iff, decide_eq_false_iff_not]
      omega

end LegalEntity.Text

namespace LegalEntity

theorem isSmall_of_mem_canonical {s : String} {c : Char} (h : c ∈ (canonical s).toList) :
    Text.isSmall c.toNat = false := by
  rw [canonical, String.toList_ofList] at h
  obtain ⟨d, -, hd⟩ := List.mem_flatMap.1 h
  exact Text.isSmall_of_mem_upper hd

theorem canonical_ne {s t : String} (h : t.toList.any (Text.isSmall ·.toNat) = true) :
    canonical s ≠ t := by
  rintro rfl
  obtain ⟨c, hc, hsmall⟩ := List.any_eq_true.1 h
  exact Bool.false_ne_true ((isSmall_of_mem_canonical hc).symm.trans hsmall)

theorem canonical_ne_lei (s : String) : canonical s ≠ "lei" := canonical_ne (by decide)

theorem canonical_ne_status (s : String) : canonical s ≠ "status" := canonical_ne (by decide)

def IsinIndex.Bears (p : String → Prop) (x : IsinIndex) : Prop :=
  ∀ isin lei, x.get? (canonical isin) = some lei → p lei

structure Json.Bears (p : String → Prop) (v : Json) : Prop where
  outcome : ∀ lei, NameOutcome.ofDocument? v.toDocument = some (.found lei) → p lei
  index : ∀ x, IsinIndex.ofDocument? v.toDocument = some x → IsinIndex.Bears p x

theorem IsinIndex.Bears.mono {p q : String → Prop} {x : IsinIndex} (h : IsinIndex.Bears p x)
    (hpq : ∀ lei, p lei → q lei) : IsinIndex.Bears q x :=
  fun isin lei hlei => hpq lei (h isin lei hlei)

theorem Json.Bears.mono {p q : String → Prop} {v : Json} (h : v.Bears p)
    (hpq : ∀ lei, p lei → q lei) : v.Bears q where
  outcome lei hlei := hpq lei (h.outcome lei hlei)
  index x hx := (h.index x hx).mono hpq

section

variable {p : String → Prop}

theorem NameOutcome.bears_toJson {outcome : NameOutcome} (h : ∀ lei, outcome = .found lei → p lei) :
    outcome.toJson.Bears p where
  outcome lei hlei := by
    rw [ofDocument?_toJson] at hlei
    exact h lei (Option.some.inj hlei)
  index x hx isin lei hlei := by
    have hlei' := beq_eq_false_iff_ne.2 (canonical_ne_lei isin)
    have hstatus := beq_eq_false_iff_ne.2 (canonical_ne_status isin)
    cases outcome with
    | found l =>
      have hlt : "lei" < "status" := by decide
      have hjson : (NameOutcome.found l).toJson =
          IsinIndex.toJson ⟨[("lei", l), ("status", "found")], List.pairwise_pair.2 hlt⟩ :=
        toJson_found l
      rw [hjson, IsinIndex.ofDocument?_toJson] at hx
      cases hx
      simp [Table.get?, List.lookup_cons, hlei', hstatus] at hlei
    | notFound =>
      have hjson : NameOutcome.notFound.toJson =
          IsinIndex.toJson ⟨[("status", "not_found")], List.pairwise_singleton ..⟩ := rfl
      rw [hjson, IsinIndex.ofDocument?_toJson] at hx
      cases hx
      simp [Table.get?, List.lookup_cons, hstatus] at hlei

theorem Table.mem_of_get? {t : Table α} {key : String} {v : α} (h : t.get? key = some v) :
    (key, v) ∈ t.entries := by
  obtain ⟨before, after, heq, -⟩ := List.lookup_eq_some_iff.1 h
  rw [heq]
  exact List.mem_append_right _ List.mem_cons_self

theorem Json.mem_toMembers {members : List (String × Json)} {m : Option String × Document}
    (h : m ∈ toMembers members) : ∃ e ∈ members, m = (some e.1, e.2.toDocument) := by
  induction members with
  | nil => cases h
  | cons e rest ih =>
    cases List.mem_cons.1 h with
    | inl h => exact ⟨e, List.mem_cons_self, h⟩
    | inr h =>
      obtain ⟨d, hd, hm⟩ := ih h
      exact ⟨d, List.mem_cons_of_mem _ hd, hm⟩

theorem Json.Fields.of_object {names : List String} {members : List (Option String × Document)}
    {f : Fields} (h : Fields.of? names (.object members) = some f) :
    f.positional = false ∧ ∀ name d, f.get? name = some d → (some name, d) ∈ members := by
  simp only [of?, Option.bind_eq_bind, Option.bind_eq_some_iff] at h
  obtain ⟨named, hnamed, h⟩ := h
  split at h
  · cases h
  · cases h
    refine ⟨rfl, fun name d hd => ?_⟩
    obtain ⟨before, after, heq, -⟩ := List.lookup_eq_some_iff.1 hd
    have hmem : (name, d) ∈ named.filter fun m => names.contains m.1 :=
      heq.symm.subst (List.mem_append_right _ List.mem_cons_self)
    obtain ⟨m, hm, hname⟩ := exists_of_mem_mapM hnamed (List.mem_filter.1 hmem).1
    obtain ⟨n, hn, hpair⟩ := Option.map_eq_some_iff.1 hname
    cases hpair
    rw [← hn]
    exact hm

theorem NameOutcome.exists_status {members : List (String × Json)} {outcome : NameOutcome}
    (h : ofDocument? (Json.object members).toDocument = some outcome) :
    ∃ e ∈ members, e.1 = "status" := by
  simp only [ofDocument?, Json.toDocument, Option.bind_eq_bind, Option.bind_eq_some_iff] at h
  obtain ⟨f, hf, h⟩ := h
  obtain ⟨hpositional, hmembers⟩ := Json.Fields.of_object hf
  rw [hpositional, if_neg Bool.false_ne_true, Option.bind_eq_some_iff] at h
  obtain ⟨name, hname, -⟩ := h
  obtain ⟨d, hd, -⟩ := Option.bind_eq_some_iff.1 hname
  obtain ⟨e, he, hpair⟩ := Json.mem_toMembers (hmembers "status" d hd)
  exact ⟨e, he, (Option.some.inj (Prod.ext_iff.1 hpair).1).symm⟩

/-- Read as an outcome an index of ISINs in canonical form is none, as the names of an outcome's
fields have small letters. -/
theorem IsinIndex.bears_toJson {x : IsinIndex}
    (h : ∀ e ∈ x.entries, (∃ isin, canonical isin = e.1) ∧ p e.2) : (toJson x).Bears p where
  outcome lei hlei := by
    obtain ⟨m, hm, hstatus⟩ := NameOutcome.exists_status hlei
    obtain ⟨e, he, rfl⟩ := List.mem_map.1 hm
    obtain ⟨⟨isin, hisin⟩, -⟩ := h e he
    exact absurd (hisin.trans hstatus) (canonical_ne_status isin)
  index y hy isin lei hlei := by
    rw [ofDocument?_toJson] at hy
    cases hy
    exact (h _ (Table.mem_of_get? hlei)).2

end

end LegalEntity
