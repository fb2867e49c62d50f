import LegalEntity.Json.Parser
import LegalEntity.Proofs.Doubles.Literals
import LegalEntity.Proofs.Json.Records

namespace LegalEntity.Json

inductive Document.IsFinite : Document → Prop
  | null : IsFinite .null
  | bool (b : Bool) : IsFinite (.bool b)
  | number {n : Option Decimal.Number} (h : ∀ x ∈ n, x.toFloat.isFinite = true) :
      IsFinite (.number n)
  | string (s : Option String) : IsFinite (.string s)
  | array {items : List Document} (h : ∀ d ∈ items, IsFinite d) : IsFinite (.array items)
  | object {members : List (Option String × Document)} (h : ∀ m ∈ members, IsFinite m.2) :
      IsFinite (.object members)

namespace Parser

section

variable {fuel : Nat} {s rest : Bytes}

structure ReadsFinite (fuel : Nat) : Prop where
  document : ∀ {s d rest}, document? fuel s = some (d, rest) → d.IsFinite
  items : ∀ {s ds rest}, items? fuel s = some (ds, rest) → ∀ d ∈ ds, d.IsFinite
  members : ∀ {s ms rest}, members? fuel s = some (ms, rest) → ∀ m ∈ ms, m.2.IsFinite

theorem ReadsFinite.document_succ (h : ReadsFinite fuel) {d : Document}
    (hd : document? (fuel + 1) s = some (d, rest)) : d.IsFinite := by
  simp only [document?] at hd
  split at hd
  · obtain ⟨r, -, hr⟩ := Option.map_eq_some_iff.1 hd
    cases hr
    exact .string _
  · split at hd
    · cases hd
      exact .array (by simp)
    · simp only [Option.bind_eq_bind, Option.bind_eq_some_iff] at hd
      obtain ⟨r, hr, hd⟩ := hd
      cases hd
      exact .array (h.items hr)
  · split at hd
    · cases hd
      exact .object (by simp)
    · simp only [Option.bind_eq_bind, Option.bind_eq_some_iff] at hd
      obtain ⟨r, hr, hd⟩ := hd
      cases hd
      exact .object (h.members hr)
  · obtain ⟨r, -, hr⟩ := Option.map_eq_some_iff.1 hd
    cases hr
    exact .null
  · obtain ⟨r, -, hr⟩ := Option.map_eq_some_iff.1 hd
    cases hr
    exact .bool _
  · obtain ⟨r, -, hr⟩ := Option.map_eq_some_iff.1 hd
    cases hr
    exact .bool _
  · obtain ⟨r, -, hr⟩ := Option.map_eq_some_iff.1 hd
    cases hr
    exact .number fun x hx => Doubles.isFinite_number? hx

theorem ReadsFinite.items_succ (h : ReadsFinite fuel) {ds : List Document}
    (hds : items? (fuel + 1) s = some (ds, rest)) : ∀ d ∈ ds, d.IsFinite := by
  simp only [items?, Option.bind_eq_bind, Option.bind_eq_some_iff] at hds
  obtain ⟨r, hr, hds⟩ := hds
  have hfirst := h.document hr
  split at hds
  · simp only [Option.bind_eq_some_iff] at hds
    obtain ⟨r', hr', hds⟩ := hds
    cases hds
    exact List.forall_mem_cons.2 ⟨hfirst, h.items hr'⟩
  · cases hds
    exact List.forall_mem_singleton.2 hfirst
  · cases hds

theorem ReadsFinite.members_succ (h : ReadsFinite fuel) {ms : List (Option String × Document)}
    (hms : members? (fuel + 1) s = some (ms, rest)) : ∀ m ∈ ms, m.2.IsFinite := by
  simp only [members?] at hms
  split at hms
  · simp only [Option.bind_eq_bind, Option.bind_eq_some_iff] at hms
    obtain ⟨name, -, hms⟩ := hms
    split at hms
    · simp only [Option.bind_eq_some_iff] at hms
      obtain ⟨r, hr, hms⟩ := hms
      have hfirst := h.document hr
      split at hms
      · simp only [Option.bind_eq_some_iff] at hms
        obtain ⟨r', hr', hms⟩ := hms
        cases hms
        exact List.forall_mem_cons.2 ⟨hfirst, h.members hr'⟩
      · cases hms
        exact List.forall_mem_singleton.2 hfirst
      · cases hms
    · cases hms
  · cases hms

/-- The three go down together. Only a literal brings a number, and that has been checked. -/
theorem readsFinite (fuel : Nat) : ReadsFinite fuel := by
  induction fuel with
  | zero => constructor <;> (intro _ _ _ h; cases h)
  | succ fuel ih => exact ⟨ih.document_succ, ih.items_succ, ih.members_succ⟩

end

end Parser

theorem isFinite_of_parse? {text : List UInt8} {doc : Document} (h : parse? text = some doc) :
    doc.IsFinite := by
  rw [parse?] at h
  split at h
  · rename_i hread
    split at h
    · cases h
      exact (Parser.readsFinite _).document hread
    · cases h
  · cases h

namespace Document.IsFinite

variable {names : List String} {name : String} {doc part : Document} {f : Fields}

theorem field (h : doc.IsFinite) (hf : Fields.of? names doc = some f)
    (hpart : f.get? name = some part) : part.IsFinite := by
  obtain ⟨before, after, hvalues, -⟩ := List.lookup_eq_some_iff.1 hpart
  have hmem : (name, part) ∈ f.values := by simp [hvalues]
  cases h with
  | object hmembers =>
    simp only [Fields.of?, Option.bind_eq_bind, Option.bind_eq_some_iff, mapM_names_iff] at hf
    obtain ⟨members, rfl, hf⟩ := hf
    split at hf
    · cases hf
    · cases hf
      exact hmembers (some name, part) (List.mem_map_of_mem (List.mem_filter.1 hmem).1)
  | array hitems =>
    simp only [Fields.of?] at hf
    split at hf
    · cases hf
      exact hitems part (List.of_mem_zip hmem).2
    · cases hf
  | _ => cases hf

theorem double (h : doc.IsFinite) {x : Float} (hx : Decoder.double doc = some x) :
    x.isFinite = true := by
  cases h with
  | number h =>
    obtain ⟨n, hn, rfl⟩ := Option.map_eq_some_iff.1 hx
    exact h n hn
  | _ => cases hx

end Document.IsFinite

end LegalEntity.Json
