import Mathlib.Tactic.ByContra

namespace LegalEntity.Resolver

theorem countP_le_one {p : β → Bool} {l : List β} (h : ∀ (i j : Nat) (a b : β), l[i]? = some a →
    l[j]? = some b → p a = true → p b = true → i = j) : l.countP p ≤ 1 := by
  induction l with
  | nil => simp
  | cons b l ih =>
    by_cases hb : p b = true
    · have hl : l.countP p = 0 := by
        refine List.countP_eq_zero.2 fun a ha hpa => ?_
        obtain ⟨i, hi⟩ := List.mem_iff_getElem?.1 ha
        cases h (i + 1) 0 a b hi rfl hpa hb
      simp [hb, hl]
    · rw [List.countP_cons_of_neg hb]
      exact ih fun i j a b hi hj ha hb => Nat.succ.inj (h (i + 1) (j + 1) a b hi hj ha hb)

theorem countP_range_update {f g : Nat → Bool} {i n : Nat} (hi : i < n)
    (h : ∀ j, i ≠ j → g j = f j) :
    (List.range n).countP g + (f i).toNat = (List.range n).countP f + (g i).toNat := by
  induction n with
  | zero => cases hi
  | succ n ih =>
    have hlast (p : Nat → Bool) :
        (List.range (n + 1)).countP p = (List.range n).countP p + (p n).toNat := by
      rw [List.range_succ, List.countP_append, List.countP_singleton]
      cases p n <;> rfl
    rw [hlast, hlast]
    rcases Nat.lt_succ_iff_lt_or_eq.1 hi with hlt | rfl
    · rw [h n (Nat.ne_of_lt hlt)]
      have := ih hlt
      omega
    · have hsame : (List.range i).countP g = (List.range i).countP f := by
        refine List.countP_congr fun j hj => ?_
        rw [h j (Nat.ne_of_gt (List.mem_range.1 hj))]
      omega

theorem eq_of_countP_range_le_one {p : Nat → Bool} {i j n : Nat} (h : (List.range n).countP p ≤ 1)
    (hi : i < n) (hj : j < n) (hpi : p i = true) (hpj : p j = true) : i = j := by
  by_contra hne
  have hupdate : (List.range n).countP (fun k => p k && k != i) + (p i).toNat =
      (List.range n).countP p + (p i && i != i).toNat :=
    countP_range_update hi fun k hk => by simp [Ne.symm hk]
  have hpos : 0 < (List.range n).countP fun k => p k && k != i :=
    List.countP_pos_iff.2 ⟨j, List.mem_range.2 hj, by simp [hpj, Ne.symm hne]⟩
  simp only [hpi, bne_self_eq_false, Bool.and_false] at hupdate
  simp only [Bool.toNat_true, Bool.toNat_false] at hupdate
  omega

theorem countP_or_of_disjoint {p q : β → Bool} {l : List β}
    (h : ∀ b ∈ l, p b = true → q b = false) :
    l.countP (fun b => p b || q b) = l.countP p + l.countP q := by
  induction l with
  | nil => rfl
  | cons b l ih =>
    have hl := ih fun a ha => h a (List.mem_cons_of_mem b ha)
    cases hp : p b with
    | false =>
      simp only [List.countP_cons, hp, hl, Bool.false_or]
      simp [Nat.add_assoc]
    | true =>
      simp [hp, hl, h b List.mem_cons_self hp, Nat.add_right_comm]

theorem countP_lt_succ (f : β → Nat) (p : β → Bool) (l : List β) (n : Nat) :
    l.countP (fun b => decide (f b < n + 1) && p b) =
      l.countP (fun b => decide (f b < n) && p b) + (l.filter (f · == n)).countP p := by
  rw [List.countP_filter, ← countP_or_of_disjoint]
  · apply List.countP_congr
    intro b _
    simp only [Nat.lt_succ_iff_lt_or_eq, Bool.or_eq_true, Bool.and_eq_true, decide_eq_true_eq,
      beq_iff_eq, and_comm, and_or_left]
  · intro b _ hb
    rw [Bool.and_eq_true, decide_eq_true_eq] at hb
    simp [Nat.ne_of_lt hb.1]

theorem countP_range_contains {l : List Nat} {n : Nat} (hnodup : l.Nodup) (h : ∀ i ∈ l, i < n) :
    (List.range n).countP (l.contains ·) = l.length := by
  rw [List.countP_eq_length_filter]
  apply List.Perm.length_eq
  apply (List.perm_ext_iff_of_nodup (List.nodup_range.filter _) hnodup).2
  intro i
  simpa using h i

theorem countP_eq_countP_range (p : β → Bool) (l : List β) :
    l.countP p = (List.range l.length).countP fun i => l[i]?.any p := by
  induction l with
  | nil => rfl
  | cons b l ih =>
    rw [List.length_cons, List.range_succ_eq_map, List.countP_cons, List.countP_cons,
      List.countP_map, ih]
    rfl

end LegalEntity.Resolver
