import LegalEntity.Json.Decoder
import Mathlib.Data.List.Forall2
import Mathlib.Data.List.Nodup

namespace LegalEntity.Json

/-- An object whose names are all texts and none of the given ones twice, with the parts under the
given names in their order. Other members do not matter. -/
inductive IsObject (names : List String) : Document → List (Option Document) → Prop
  | object {members : List (String × Document)}
      (hnames : ∀ name ∈ names, (members.map Prod.fst).count name ≤ 1) :
      IsObject names (.object (members.map fun m => (some m.1, m.2))) (names.map (members.lookup ·))

inductive IsRecord (names : List String) : Document → List (Option Document) → Prop
  | object {doc : Document} {fields : List (Option Document)} (h : IsObject names doc fields) :
      IsRecord names doc fields
  | array {items : List Document} (h : items.length ≤ names.length) :
      IsRecord names (.array items)
        (items.map some ++ List.replicate (names.length - items.length) none)

theorem IsObject.exists_members {names : List String} {doc : Document}
    {fields : List (Option Document)} (h : IsObject names doc fields) :
    ∃ members : List (String × Document), doc = .object (members.map fun m => (some m.1, m.2)) ∧
      fields = names.map (members.lookup ·) := by
  obtain ⟨hnames⟩ := h
  exact ⟨_, rfl, rfl⟩

theorem IsRecord.isObject_or {names : List String} {doc : Document}
    {fields : List (Option Document)} (h : IsRecord names doc fields) :
    IsObject names doc fields ∨ ∃ items, doc = .array items := by
  cases h with
  | object h => exact .inl h
  | array => exact .inr ⟨_, rfl⟩

theorem IsRecord.ne_null {names : List String} {doc : Document} {fields : List (Option Document)}
    (h : IsRecord names doc fields) : doc ≠ .null := by
  rintro rfl
  obtain ⟨⟨⟩⟩ := h

theorem mapM_eq_some_iff {f : α → Option β} {l : List α} {bs : List β} :
    l.mapM f = some bs ↔ List.Forall₂ (fun a b => f a = some b) l bs := by
  induction l generalizing bs with
  | nil => simp [eq_comm]
  | cons a l ih =>
    simp only [List.mapM_cons, Option.bind_eq_bind, Option.bind_eq_some_iff, Option.pure_def,
      Option.some.injEq, List.forall₂_cons_left_iff]
    constructor
    · rintro ⟨b, hb, bs, hbs, rfl⟩
      exact ⟨b, bs, hb, ih.1 hbs, rfl⟩
    · rintro ⟨b, bs, hb, hbs, rfl⟩
      exact ⟨b, hb, bs, ih.2 hbs, rfl⟩

section

variable {names : List String} {members : List (String × Document)}

theorem repeated_eq_false_iff : Fields.repeated names = false ↔ names.Nodup := by
  induction names with
  | nil => simp [Fields.repeated]
  | cons n ns ih => simp [Fields.repeated, ih]

theorem mapM_names_iff {written : List (Option String × Document)} :
    (written.mapM fun m => m.1.map (·, m.2)) = some members ↔
      written = members.map fun m => (some m.1, m.2) := by
  have hpair (m : Option String × Document) (m' : String × Document) :
      m.1.map (·, m.2) = some m' ↔ m = (some m'.1, m'.2) := by
    simp [Prod.ext_iff]
  simp only [mapM_eq_some_iff, hpair]
  rw [← List.forall₂_map_right_iff, List.forall₂_eq_eq_eq]

theorem lookup_known {name : String} (h : name ∈ names) :
    (members.filter fun m => names.contains m.1).lookup name = members.lookup name := by
  induction members with
  | nil => rfl
  | cons m members ih =>
    obtain ⟨other, doc⟩ := m
    by_cases hname : name = other
    · subst hname
      simp [h]
    · have hlookup (l : List (String × Document)) :
          ((other, doc) :: l).lookup name = l.lookup name := by
        rw [List.lookup_cons, beq_eq_false_iff_ne.2 hname]
      rw [List.filter_cons, hlookup]
      split
      · rw [hlookup, ih]
      · exact ih

theorem nodup_known : ((members.filter fun m => names.contains m.1).map Prod.fst).Nodup ↔
    ∀ name ∈ names, (members.map Prod.fst).count name ≤ 1 := by
  have hfilter : (members.filter fun m => names.contains m.1).map Prod.fst =
      (members.map Prod.fst).filter (names.contains ·) := by
    simp [List.filter_map, Function.comp_def]
  rw [hfilter, List.nodup_iff_count_le_one]
  refine forall_congr' fun name => ?_
  by_cases h : name ∈ names
  · simp [List.count_filter, h]
  · have hzero : ((members.map Prod.fst).filter (names.contains ·)).count name = 0 :=
      List.count_eq_zero.2 fun hmem => h (by simpa using (List.mem_filter.1 hmem).2)
    exact iff_of_true (by simp only [hzero, Nat.zero_le]) fun hname => absurd hname h

theorem lookup_zip (h : names.Nodup) {items : List Document} (hlen : items.length ≤ names.length) :
    names.map ((names.zip items).lookup ·) =
      items.map some ++ List.replicate (names.length - items.length) none := by
  induction names generalizing items with
  | nil => simp [List.eq_nil_of_length_eq_zero (Nat.le_zero.1 hlen)]
  | cons n names ih =>
    obtain ⟨hn, hnames⟩ := List.nodup_cons.1 h
    cases items with
    | nil => simp [List.replicate_succ]
    | cons item items =>
      have htail : names.map (((n, item) :: names.zip items).lookup ·) =
          names.map ((names.zip items).lookup ·) := by
        refine List.map_congr_left fun m hm => ?_
        have hne : m ≠ n := fun heq => hn (heq ▸ hm)
        rw [List.lookup_cons, beq_eq_false_iff_ne.2 hne]
      rw [List.zip_cons_cons, List.map_cons, htail, ih hnames (Nat.le_of_succ_le_succ hlen)]
      simp

theorem Fields.of?_eq_some_iff (h : names.Nodup) {doc : Document}
    {fields : List (Option Document)} :
    (∃ f, Fields.of? names doc = some f ∧ names.map f.get? = fields) ↔ IsRecord names doc fields := by
  constructor
  · rintro ⟨f, hf, rfl⟩
    cases doc with
    | object written =>
      simp only [of?, Option.bind_eq_bind, Option.bind_eq_some_iff, mapM_names_iff] at hf
      obtain ⟨members, rfl, hf⟩ := hf
      split at hf
      · cases hf
      · rename_i hrepeated
        rw [Bool.not_eq_true, repeated_eq_false_iff, nodup_known] at hrepeated
        cases hf
        have hget : names.map (Fields.get? ⟨false, members.filter fun m => names.contains m.1⟩) =
            names.map (members.lookup ·) :=
          List.map_congr_left fun name hname => lookup_known hname
        rw [hget]
        exact .object (.object hrepeated)
    | array items =>
      simp only [of?] at hf
      split at hf
      · rename_i hlen
        cases hf
        have hget := lookup_zip h hlen
        change IsRecord names _ (names.map ((names.zip items).lookup ·))
        rw [hget]
        exact .array hlen
      · cases hf
    | _ => cases hf
  · rintro (⟨⟨hnames⟩⟩ | ⟨hlen⟩)
    · rename_i members
      refine ⟨⟨false, members.filter fun m => names.contains m.1⟩, ?_, ?_⟩
      · have hrepeated := repeated_eq_false_iff.2 (nodup_known.2 hnames)
        simp only [of?, mapM_names_iff.2 rfl, Option.bind_eq_bind, Option.bind_some, hrepeated]
        rfl
      · exact List.map_congr_left fun name hname => lookup_known hname
    · rename_i items
      refine ⟨⟨true, names.zip items⟩, if_pos hlen, ?_⟩
      exact lookup_zip h hlen

end

end LegalEntity.Json
