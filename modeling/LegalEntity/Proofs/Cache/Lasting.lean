import LegalEntity.Proofs.Cache.Keeping

namespace LegalEntity.Cache

open PlacedStore (part place)

section

variable {σ : Type} [Store σ] [KeepingStore σ] {key k : String} {v u : Json} {s t : σ} {m : Moment}

structure Durable (key : String) (s : σ) : Prop where
  sound : KeepingStore.Sound (part key s)
  lifetime_eq : KeepingStore.lifetime (part key s) = none

/-- A value is kept under a key for ever. -/
structure Endures (key : String) (v : Json) (s : σ) : Prop extends Durable key s where
  held : ∃ written, KeepingStore.Holds (part key s) (some (v, written))

theorem Durable.of_part_eq (h : Durable key s) (hpart : part k t = part key s) : Durable k t where
  sound := hpart ▸ h.sound
  lifetime_eq := hpart ▸ h.lifetime_eq

theorem Endures.of_part_eq (h : Endures key v s) (hpart : part k t = part key s) :
    Endures k v t where
  toDurable := h.toDurable.of_part_eq hpart
  held := hpart ▸ h.held

theorem Endures.read (h : Endures key v s) (m : Moment) :
    (Store.get m key s).1 = .ok (some v) ∧ Endures key v (Store.get m key s).2 := by
  obtain ⟨written, hheld⟩ := h.held
  obtain ⟨hsound, hlifetime⟩ := KeepingStore.get_sound m key h.sound
  obtain ⟨hanswer, hheld'⟩ := KeepingStore.get_kept m key h.sound hheld
  rw [h.lifetime_eq, unexpired_some, isExpired, Option.any_none, if_neg Bool.false_ne_true]
    at hanswer hheld'
  refine ⟨hanswer, ⟨hsound, hlifetime.trans h.lifetime_eq⟩, ?_⟩
  cases hheld' with
  | inl hheld => exact ⟨written, hheld⟩
  | inr hgone => cases hgone.2

theorem Durable.get (h : Durable key s) (m : Moment) (k : String) :
    Durable key (Store.get m k s).2 := by
  by_cases hplace : place σ key = place σ k
  · have hdurable : Durable k s := h.of_part_eq (PlacedStore.part_eq s hplace).symm
    obtain ⟨hsound, hlifetime⟩ := KeepingStore.get_sound m k hdurable.sound
    have hdurable' : Durable k (Store.get m k s).2 := ⟨hsound, hlifetime.trans hdurable.lifetime_eq⟩
    exact hdurable'.of_part_eq (PlacedStore.part_eq _ hplace)
  · exact h.of_part_eq (PlacedStore.get_of_ne m s hplace)

theorem Endures.get (h : Endures key v s) (m : Moment) (k : String) :
    Endures key v (Store.get m k s).2 := by
  by_cases hplace : place σ key = place σ k
  · have hendures : Endures k v s := h.of_part_eq (PlacedStore.part_eq s hplace).symm
    exact (hendures.read m).2.of_part_eq (PlacedStore.part_eq _ hplace)
  · exact h.of_part_eq (PlacedStore.get_of_ne m s hplace)

theorem Durable.put (h : Durable key s) (hplace : place σ key = place σ k) (hm : m.now.IsUtc)
    (hv : v.IsTexts) : Endures key v (Store.put m k v s).2 := by
  have hdurable : Durable k s := h.of_part_eq (PlacedStore.part_eq s hplace).symm
  obtain ⟨-, hsound, hlifetime, hheld⟩ := KeepingStore.put_kept m k hm hv hdurable.sound
  have hendures : Endures k v (Store.put m k v s).2 :=
    ⟨⟨hsound, hlifetime.trans hdurable.lifetime_eq⟩, _, hheld⟩
  exact hendures.of_part_eq (PlacedStore.part_eq _ hplace)

end

end LegalEntity.Cache
