import LegalEntity.Cache.Memory

namespace LegalEntity.Cache.Memory

def holds (m : Memory) (key : String) (v : Json) : Prop :=
  ∃ written, m.entries.get? key = some (v, written)

theorem holds_of_get {m p : Memory} {moment : Moment} {key : String}
    {a : Except Error (Option Json)} (h : m.get moment key = (a, p)) :
    (∀ v, a = .ok (some v) → m.holds key v) ∧ ∀ k u, p.holds k u → m.holds k u := by
  unfold get at h
  split at h
  · rename_i v written hv
    split at h
    · cases h
      refine ⟨nofun, fun k u hu => ?_⟩
      obtain ⟨time, hu⟩ := hu
      rw [Table.get?_erase] at hu
      split at hu
      · cases hu
      · exact ⟨time, hu⟩
    · cases h
      refine ⟨fun u hu => ?_, fun k u hu => hu⟩
      cases hu
      exact ⟨written, hv⟩
  · cases h
    exact ⟨nofun, fun k u hu => hu⟩

theorem holds_of_put {m p : Memory} {moment : Moment} {key : String}
    {v : Json} {a : Except Error Unit} (h : m.put moment key v = (a, p)) (k : String)
    (u : Json) (hu : p.holds k u) : m.holds k u ∨ (k = key ∧ u = v) := by
  cases h
  obtain ⟨written, hu⟩ := hu
  by_cases hk : k = key
  · subst hk
    rw [Table.get?_insert_self] at hu
    cases hu
    exact .inr ⟨rfl, rfl⟩
  · rw [Table.get?_insert_of_ne _ hk] at hu
    exact .inl ⟨written, hu⟩

end LegalEntity.Cache.Memory
