import LegalEntity.Proofs.Index.AtHand
import LegalEntity.Proofs.Index.Restart
import LegalEntity.Proofs.IndexFile.Canonical
import LegalEntity.Proofs.Origin.OtherType

namespace LegalEntity

structure IsinIndex.Reaches (x : IsinIndex) (isin lei : String) : Prop where
  ne_empty : canonical isin ≠ ""
  get?_eq : x.get? (canonical isin) = some lei

theorem Table.get?_of_mem {t : Table α} {key : String} {v : α} (h : (key, v) ∈ t.entries) :
    t.get? key = some v := by
  obtain ⟨entries, hascending⟩ := t
  change entries.lookup key = some v
  induction entries with
  | nil => cases h
  | cons e rest ih =>
    obtain ⟨hfirst, hrest⟩ := List.pairwise_cons.1 hascending
    rw [List.lookup_cons]
    cases List.mem_cons.1 h with
    | inl h => simp [← h]
    | inr h =>
      have hne : key ≠ e.1 := fun heq => String.lt_irrefl e.1 (heq ▸ hfirst (key, v) h)
      rw [beq_eq_false_iff_ne.2 hne]
      exact ih hrest h

def IsinIndex.ReachesAll (x : IsinIndex) : Prop := ∀ e ∈ x.entries, x.Reaches e.1 e.2

def IsinIndex.IsDistinct (x : IsinIndex) : Prop :=
  ∀ d ∈ x.entries, ∀ e ∈ x.entries, canonical d.1 = canonical e.1 → d.1 = e.1

theorem IsinIndex.reachesAll_of_isCanonical {x : IsinIndex}
    (h : ∀ e ∈ x.entries, LegalEntity.IsCanonical e.1) : x.ReachesAll := by
  intro e he
  have hisin := h e he
  refine ⟨hisin.canonical_eq.symm ▸ hisin.ne_empty, ?_⟩
  rw [hisin.canonical_eq]
  exact Table.get?_of_mem he

theorem IsinIndex.ReachesAll.isCanonical {x : IsinIndex} (h : x.ReachesAll) (hx : x.IsDistinct) :
    ∀ e ∈ x.entries, LegalEntity.IsCanonical e.1 := by
  intro e he
  have hcanonical : canonical e.1 = e.1 :=
    hx _ (Table.mem_of_get? (h e he).get?_eq) e he (canonical_canonical e.1)
  exact ⟨hcanonical, hcanonical ▸ (h e he).ne_empty⟩

theorem Archive.isCanonical_of_readIndex {bytes : List UInt8} {x : IsinIndex}
    (h : readIndex bytes = .ok x) : x.IsCanonical := by
  cases hx : x.isEmpty with
  | true =>
    intro e he
    rw [Table.isEmpty, List.isEmpty_iff] at hx
    rw [hx] at he
    cases he
  | false =>
    obtain ⟨-, csv, -, -, -, rfl⟩ := Archive.holds_of_readIndex h hx
    exact IndexFile.isCanonical_index _

namespace Resolver

theorem indexed?_eq_some_iff {q : Query} {x : IsinIndex} {isin lei : String}
    (hisin : q.isin = some isin) : indexed? q (some x) = some lei ↔ x.Reaches isin lei := by
  by_cases hblank : canonical isin = ""
  · have hnot : ¬x.Reaches isin lei := fun h => h.ne_empty hblank
    simp [indexed?, canonicalIsin_eq hisin, hblank, hnot]
  · rw [indexed?, canonicalIsin_eq hisin, if_neg hblank]
    exact ⟨fun h => ⟨hblank, h⟩, fun h => h.get?_eq⟩

theorem AnsweredBy.eq_ok_iff {q : Query} {x : IsinIndex} {isin lei : String}
    {r : Except Error Identity} (h : AnsweredBy (some x) q r) (hisin : q.isin = some isin) :
    r = .ok (q.identity lei .isinIndex) ↔ x.Reaches isin lei := by
  rw [← indexed?_eq_some_iff hisin]
  constructor
  · rintro rfl
    obtain ⟨key, hkey, _, ⟨⟩, hlei⟩ := h.exists_of_source rfl
    rw [indexed?, hkey]
    exact hlei
  · intro hlei
    rw [indexed?] at hlei
    rw [AnsweredBy, hlei] at h
    exact h

section

variable {σ α : Type} [Scalar α] {w : Surroundings σ} {settings : Settings α}
  {given : Option IsinIndex} {shared : Shared} {outside : σ} {calls : List Call}
  {s : State σ (Return α)} {x : IsinIndex}

theorem eq_of_given {y : IsinIndex} (hshared : Shared.ofSettings? settings (some y) = some shared)
    (hrun : Run w (.start (calls.map (·.dialogue settings)) shared outside) s)
    (hindex : s.shared.index = .ready (some x)) : x = y := by
  have hready : s.shared.index = .ready (nonEmptyIndex y) :=
    (OneLoad.start hshared).ready_of_run calls_follow_index (Shared.ofSettings_eq hshared).2 hrun
  have hy : some x = nonEmptyIndex y := IndexCell.ready.inj (hindex.symm.trans hready)
  rw [nonEmptyIndex] at hy
  split at hy
  · cases hy
  · exact Option.some.inj hy

theorem isCanonical_of_loaded (hshared : Shared.ofSettings? settings none = some shared)
    (hrun : Run w (.start (calls.map (·.dialogue settings)) shared outside) s)
    (hindex : s.shared.index = .ready (some x)) :
    x.IsCanonical ∨ ∃ key i a, settings.indexKey = some key ∧ ⟨i, .lookUp key, a⟩ ∈ s.log ∧
      Cache.decoded? IsinIndex.ofDocument? a = some x := by
  obtain ⟨⟨hs, -⟩, -⟩ := oneLoader_of_run hshared hrun
  obtain ⟨i, -, -, hloads, -⟩ := hs.of_ready hindex
  rcases hloads.of_some with ⟨key, a, hkey, hlooked, hdecoded, -⟩ | ⟨n, bytes, -, hread, -⟩
  · exact .inr ⟨key, i, a, hkey, loadEvents_subset _ _ hlooked, hdecoded⟩
  · exact .inl (Archive.isCanonical_of_readIndex hread)

/-- Whatever cache and registry do, a resolver with an index answers an ISIN by it exactly if the
index has an LEI under the canonical form of the ISIN, and with that LEI. So queries reach every entry
of an index whose ISINs are in canonical form, and of no other if their canonical forms differ. Such
are the indexes of files and archives; an index that was given to the resolver, or that the cache has
brought, is as it was. -/
theorem entries_reached_iff (hshared : Shared.ofSettings? settings given = some shared)
    (hrun : Run w (.start (calls.map (·.dialogue settings)) shared outside) s)
    (hindex : s.shared.index = .ready (some x)) :
    (∀ isin lei i q, calls[i]? = some (.resolve q) → q.isin = some isin →
      (∀ r, s.result? i = some (.resolved r) →
        (r = .ok (q.identity lei .isinIndex) ↔ x.Reaches isin lei)) ∧
      (x.Reaches isin lei → (∀ e ∈ s.log, e.caller ≠ i) →
        ∃ t, Step w s t ∧ t.result? i = some (.resolved (.ok (q.identity lei .isinIndex))))) ∧
    ((∀ e ∈ x.entries, IsCanonical e.1) → x.ReachesAll) ∧
    (x.IsDistinct → x.ReachesAll → ∀ e ∈ x.entries, IsCanonical e.1) ∧
    (∀ file, IndexFile.read file = .ok x → x.IsCanonical) ∧
    (∀ y, given = some y → x = y) ∧
    (given = none → x.IsCanonical ∨ ∃ key i a, settings.indexKey = some key ∧
      ⟨i, .lookUp key, a⟩ ∈ s.log ∧ Cache.decoded? IsinIndex.ofDocument? a = some x) := by
  refine ⟨fun isin lei i q hcall hisin => ⟨fun r hr => ?_, fun hreaches hnew => ?_⟩,
    ?_, ?_, ?_, ?_, ?_⟩
  · exact (answered_by_ready hshared hrun hindex hcall hr).eq_ok_iff hisin
  · exact answered_at_once hrun hindex hcall hnew ((indexed?_eq_some_iff hisin).2 hreaches)
  · exact IsinIndex.reachesAll_of_isCanonical
  · exact fun hx hall => hall.isCanonical hx
  · exact fun file => IndexFile.isCanonical_of_read
  · rintro y rfl
    exact eq_of_given hshared hrun hindex
  · rintro rfl
    exact isCanonical_of_loaded hshared hrun hindex

end

def smallIndex : IsinIndex := ⟨[("us1", "A1")], List.pairwise_singleton ..⟩

/-- Nobody gets to an ISIN in small letters: the query for it ends without an LEI. -/
theorem entries_reached_iff_small :
    ∃ shared s, Shared.ofSettings? (Settings.default (α := Rat)) (some smallIndex) = some shared ∧
      Run .offline (.start ([Call.resolve ⟨"A", "", some "us1"⟩].map
        (·.dialogue (Settings.default (α := Rat)))) shared ()) s ∧
      s.shared.index = .ready (some smallIndex) ∧ ("us1", "A1") ∈ smallIndex.entries ∧
      s.result? 0 = some (.resolved (.error (.notFound "" (some "us1")))) ∧
      ¬smallIndex.Reaches "us1" "A1" := by
  have hshared : Shared.ofSettings? (Settings.default (α := Rat)) (some smallIndex) =
      some ⟨⟨1, [], []⟩, .ready (some smallIndex), [], 0⟩ := rfl
  have hrun : Run .offline (.start ([Call.resolve ⟨"A", "", some "us1"⟩].map
        (·.dialogue (Settings.default (α := Rat))))
      ⟨⟨1, [], []⟩, .ready (some smallIndex), [], 0⟩ ()) _ :=
    .answer 0 rfl (.ready (some smallIndex)) ⟨rfl, rfl⟩ <| .answer 0 rfl (.ok none) ⟨rfl, rfl⟩ <|
    .answer 0 rfl () ⟨rfl, rfl⟩ <| .answer 0 rfl (.ok none) ⟨rfl, rfl⟩ <|
    .answer 0 rfl (.ok ()) ⟨rfl, rfl⟩ <| .answer 0 rfl () ⟨rfl, rfl⟩ .refl
  obtain ⟨hreached, -⟩ := entries_reached_iff hshared hrun rfl
  obtain ⟨hiff, -⟩ := hreached "us1" "A1" 0 ⟨"A", "", some "us1"⟩ rfl rfl
  exact ⟨_, _, hshared, hrun, rfl, List.mem_cons_self, rfl, fun h => nomatch (hiff _ rfl).2 h⟩

end Resolver

end LegalEntity
