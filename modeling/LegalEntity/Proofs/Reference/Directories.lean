import LegalEntity.Proofs.Reference.Values
import LegalEntity.Proofs.Runs.Served
import Mathlib.Logic.Function.Basic

namespace LegalEntity.Resolver

theorem lookup_cons_of_ne {β : Type} {n m : Nat} (h : m ≠ n) (b : β) (entries : List (Nat × β)) :
    ((n, b) :: entries).lookup m = entries.lookup m := by
  rw [List.lookup_cons, beq_eq_false_iff_ne.2 h]

theorem lookup_map_of_ne {β : Type} {n m : Nat} (h : m ≠ n) (b : β) (entries : List (Nat × β)) :
    (entries.map fun e => if e.1 = n then (e.1, b) else e).lookup m = entries.lookup m := by
  induction entries with
  | nil => rfl
  | cons e rest ih =>
    cases e with
    | mk k v =>
      rw [List.map_cons]
      by_cases hk : k = n
      · rw [if_pos hk, lookup_cons_of_ne (hk ▸ h), lookup_cons_of_ne (hk ▸ h), ih]
      · rw [if_neg hk, List.lookup_cons, List.lookup_cons, ih]

theorem lookup_map_self {β : Type} {n : Nat} {a : β} (b : β) {entries : List (Nat × β)}
    (h : entries.lookup n = some a) :
    (entries.map fun e => if e.1 = n then (e.1, b) else e).lookup n = some b := by
  induction entries with
  | nil => cases h
  | cons e rest ih =>
    cases e with
    | mk k v =>
      rw [List.map_cons]
      by_cases hk : k = n
      · subst hk
        rw [if_pos rfl, List.lookup_cons_self]
      · rw [lookup_cons_of_ne (Ne.symm hk)] at h
        rw [if_neg hk, lookup_cons_of_ne (Ne.symm hk), ih h]

theorem lookup_filter_of_ne {β : Type} {n m : Nat} (h : m ≠ n) (entries : List (Nat × β)) :
    (entries.filter (·.1 != n)).lookup m = entries.lookup m := by
  induction entries with
  | nil => rfl
  | cons e rest ih =>
    cases e with
    | mk k v =>
      by_cases hk : k = n
      · subst hk
        rw [List.filter_cons_of_neg (by simp), lookup_cons_of_ne h, ih]
      · rw [List.filter_cons_of_pos (by simp [hk]), List.lookup_cons, List.lookup_cons, ih]

/-- Each call finds its own directory, and no other call has it. -/
structure Directories (has : Nat → Scratch) (x : Shared) : Prop where
  found : ∀ {i n content}, has i = some (n, content) → x.scratch.lookup n = some content
  old : ∀ {i n content}, has i = some (n, content) → n < x.scratches
  own : ∀ {i j n content other}, has i = some (n, content) → has j = some (n, other) → i = j

namespace Directories

variable {has : Nat → Scratch} {x y : Shared} {i n : Nat} {content : Option (List UInt8)}

theorem of_forall_none (h : ∀ i, has i = none) (x : Shared) : Directories has x := by
  constructor <;> intro i <;> simp [h i]

theorem congr (h : Directories has x) (hscratch : y.scratch = x.scratch)
    (hscratches : y.scratches = x.scratches) : Directories has y where
  found hi := hscratch ▸ h.found hi
  old hi := hscratches ▸ h.old hi
  own := h.own

theorem of_update {g : Scratch} {j : Nat} {e : Nat × Option (List UInt8)}
    (h : Function.update has i g j = some e) : (j = i ∧ g = some e) ∨ (j ≠ i ∧ has j = some e) := by
  by_cases hji : j = i
  · subst hji
    rw [Function.update_self] at h
    exact .inl ⟨rfl, h⟩
  · rw [Function.update_of_ne hji] at h
    exact .inr ⟨hji, h⟩

theorem openScratch (h : Directories has x) (i : Nat) :
    Directories (Function.update has i (some (x.scratches, none)))
      { x with scratch := (x.scratches, none) :: x.scratch, scratches := x.scratches + 1 } where
  found hj := by
    cases of_update hj with
    | inl hj =>
      cases hj.2
      exact List.lookup_cons_self
    | inr hj =>
      rw [lookup_cons_of_ne (Nat.ne_of_lt (h.old hj.2))]
      exact h.found hj.2
  old hj := by
    cases of_update hj with
    | inl hj =>
      cases hj.2
      exact Nat.lt_succ_self _
    | inr hj => exact Nat.lt_succ_of_lt (h.old hj.2)
  own hj hk := by
    cases of_update hj with
    | inl hj =>
      cases hj.2
      cases of_update hk with
      | inl hk => rw [hj.1, hk.1]
      | inr hk => exact absurd (h.old hk.2) (Nat.lt_irrefl _)
    | inr hj =>
      cases of_update hk with
      | inl hk =>
        cases hk.2
        exact absurd (h.old hj.2) (Nat.lt_irrefl _)
      | inr hk => exact h.own hj.2 hk.2

theorem change (h : Directories has x) (hi : has i = some (n, content)) {g : Scratch}
    (hg : ∀ e, g = some e → e.1 = n ∧ y.scratch.lookup n = some e.2)
    (hothers : ∀ m, m ≠ n → y.scratch.lookup m = x.scratch.lookup m)
    (hscratches : y.scratches = x.scratches) : Directories (Function.update has i g) y where
  found hj := by
    cases of_update hj with
    | inl hj =>
      obtain ⟨rfl, hfound⟩ := hg _ hj.2
      exact hfound
    | inr hj =>
      rw [hothers]
      · exact h.found hj.2
      · intro hn
        exact hj.1 (h.own (hn ▸ hj.2) hi)
  old hj := by
    rw [hscratches]
    cases of_update hj with
    | inl hj =>
      obtain ⟨rfl, -⟩ := hg _ hj.2
      exact h.old hi
    | inr hj => exact h.old hj.2
  own hj hk := by
    cases of_update hj with
    | inl hj =>
      obtain ⟨rfl, -⟩ := hg _ hj.2
      cases of_update hk with
      | inl hk => rw [hj.1, hk.1]
      | inr hk => exact absurd (h.own hk.2 hi) hk.1
    | inr hj =>
      cases of_update hk with
      | inl hk =>
        obtain ⟨rfl, -⟩ := hg _ hk.2
        exact absurd (h.own hj.2 hi) hj.1
      | inr hk => exact h.own hj.2 hk.2

theorem deliver (h : Directories has x) (hi : has i = some (n, none))
    (file : Option (List UInt8)) :
    Directories (Function.update has i (some (n, file))) (x.deliver n file) := by
  apply h.change hi
  · rintro e ⟨⟩
    refine ⟨rfl, ?_⟩
    cases file with
    | none => exact h.found hi
    | some bytes => exact lookup_map_self _ (h.found hi)
  · intro m hm
    cases file with
    | none => rfl
    | some bytes => exact lookup_map_of_ne hm ..
  · cases file <;> rfl

theorem closeScratch (h : Directories has x) (hi : has i = some (n, content)) :
    Directories (Function.update has i none)
      { x with scratch := x.scratch.filter (·.1 != n) } := by
  apply h.change hi
  · nofun
  · intro m hm
    exact lookup_filter_of_ne hm _
  · rfl

end Directories

end LegalEntity.Resolver
