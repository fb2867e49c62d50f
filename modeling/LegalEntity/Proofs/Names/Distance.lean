import LegalEntity.Name.Ranking
import Mathlib.Algebra.Order.Field.Rat
import Mathlib.Tactic.Linarith
import Mathlib.Tactic.NormNum
import Mathlib.Tactic.Positivity

namespace LegalEntity.Name

open Text Scalar

def rows (s t : List Char) : List Nat := s.foldr (fun c row => nextRow c t row) (firstRow t)

theorem editDistance_eq_headD (s t : List Char) : editDistance s t = (rows s t).headD 0 := rfl

theorem nextRow_ne_nil (c : Char) (t : List Char) {row : List Nat} (h : row ≠ []) :
    nextRow c t row ≠ [] := by
  fun_cases nextRow c t row <;> simp_all

theorem rows_ne_nil (s t : List Char) : rows s t ≠ [] := by
  induction s with
  | nil => cases t <;> simp [rows, firstRow]
  | cons c s ih => exact nextRow_ne_nil c t ih

theorem rows_eq_cons (s t : List Char) : rows s t = editDistance s t :: (rows s t).tail := by
  rw [editDistance_eq_headD]
  cases h : rows s t with
  | nil => exact absurd h (rows_ne_nil s t)
  | cons n row => rfl

theorem rows_nil_right (s : List Char) : rows s [] = [s.length] := by
  induction s with
  | nil => rfl
  | cons c s ih =>
    change nextRow c [] (rows s []) = _
    rw [ih]
    rfl

theorem rows_cons_right (s t : List Char) (d : Char) :
    rows s (d :: t) = editDistance s (d :: t) :: rows s t := by
  induction s generalizing d t with
  | nil => rfl
  | cons c s ih =>
    have hnext : rows (c :: s) (d :: t) = nextRow c (d :: t) (rows s (d :: t)) := rfl
    -- The row of `c :: s` is made from that of `s`, whose tail begins with the distance to `t`.
    rw [editDistance_eq_headD, hnext, ih t d, rows_eq_cons s t, nextRow, ← rows_eq_cons s t]
    rfl

theorem editDistance_nil_right (s : List Char) : editDistance s [] = s.length := by
  rw [editDistance_eq_headD, rows_nil_right]
  rfl

theorem editDistance_nil_left (t : List Char) : editDistance [] t = t.length := by
  cases t <;> rfl

theorem editDistance_cons_cons (c d : Char) (s t : List Char) :
    editDistance (c :: s) (d :: t) =
      min (if c = d then editDistance s t else editDistance s t + 1)
        (min (editDistance s (d :: t) + 1) (editDistance (c :: s) t + 1)) := by
  have hnext : rows (c :: s) (d :: t) = nextRow c (d :: t) (rows s (d :: t)) := rfl
  rw [editDistance_eq_headD, hnext, rows_cons_right, rows_eq_cons s t, nextRow, ← rows_eq_cons s t]
  rfl

theorem editDistance_eq_zero {s t : List Char} : editDistance s t = 0 ↔ s = t := by
  induction s generalizing t with
  | nil => cases t <;> simp [editDistance_nil_left]
  | cons c s ih =>
    cases t with
    | nil => simp [editDistance_nil_right]
    | cons d t =>
      rw [editDistance_cons_cons]
      by_cases h : c = d <;> simp [h, ih]

theorem larger_eq_max (x y : Rat) : larger x y = max x y := by
  rw [larger, if_pos (beq_self_eq_true y), max_comm, max_def]
  split
  · rename_i hlt
    rw [if_pos hlt.le]
  · rename_i hlt
    split
    · exact le_antisymm ‹_› (not_lt.1 hlt)
    · rfl

theorem ratio_nil_nil : ratio [] [] = (100 : Rat) := by
  norm_num [ratio]

theorem ratio_eq {s t : List Char} (h : s ≠ [] ∨ t ≠ []) : ratio s t =
    (1 - (editDistance s t : Rat) / (max s.length t.length : Nat)) * 100 := by
  have hnot : (s.isEmpty && t.isEmpty) = false := by
    cases s <;> cases t <;> simp_all
  rw [ratio, hnot]
  norm_num [Scalar.ofNat]

theorem ratio_self (s : List Char) : ratio s s = (100 : Rat) := by
  cases s with
  | nil => exact ratio_nil_nil
  | cons c s =>
    rw [ratio_eq (.inl (List.cons_ne_nil c s)), editDistance_eq_zero.2 rfl]
    norm_num

theorem ratio_lt {s t : List Char} (h : s ≠ t) : ratio s t < (100 : Rat) := by
  have hnot : s ≠ [] ∨ t ≠ [] := by
    by_contra hboth
    simp only [not_or, ne_eq, not_not] at hboth
    exact h (hboth.1.trans hboth.2.symm)
  have hdistance : 0 < editDistance s t := Nat.pos_of_ne_zero fun hzero => h (editDistance_eq_zero.1 hzero)
  have hlength : 0 < max s.length t.length := by
    cases hnot with
    | inl hs => exact lt_max_of_lt_left (List.length_pos_of_ne_nil hs)
    | inr ht => exact lt_max_of_lt_right (List.length_pos_of_ne_nil ht)
  have hshare : (0 : Rat) < (editDistance s t : Rat) / (max s.length t.length : Nat) := by
    positivity
  rw [ratio_eq hnot]
  linarith

theorem ratio_le (s t : List Char) : ratio s t ≤ (100 : Rat) := by
  by_cases h : s = t
  · exact h ▸ (ratio_self s).le
  · exact (ratio_lt h).le

theorem sortedRatio_le (s t : List Char) : sortedRatio s t ≤ (100 : Rat) := ratio_le _ _

theorem wordSetRatio_le (s t : List Char) : wordSetRatio s t ≤ (100 : Rat) := by
  unfold wordSetRatio
  dsimp only
  split
  · norm_num
  · split
    · exact ratio_le _ _
    · simp only [larger_eq_max]
      exact max_le (max_le (ratio_le _ _) (ratio_le _ _)) (ratio_le _ _)

theorem foldl_larger_le {l : List Rat} {x : Rat} (hx : x ≤ 100) (hl : ∀ y ∈ l, y ≤ 100) :
    l.foldl larger x ≤ 100 := by
  induction l generalizing x with
  | nil => exact hx
  | cons y l ih =>
    apply ih
    · rw [larger_eq_max]
      exact max_le hx (hl y List.mem_cons_self)
    · exact fun z hz => hl z (List.mem_cons_of_mem y hz)

theorem windowRatio_le (s t : List Char) : windowRatio s t ≤ (100 : Rat) := by
  have hbest (short long : List Char) :
      ((windows short.length long).map (ratio short)).foldl larger (0.0 : Rat) ≤ 100 := by
    apply foldl_larger_le
    · norm_num
    · intro y hy
      obtain ⟨v, -, rfl⟩ := List.mem_map.1 hy
      exact ratio_le _ _
  have hwindow (short long : List Char) : (if short.isEmpty then (0.0 : Rat)
      else ((windows short.length long).map (ratio short)).foldl larger 0.0) ≤ 100 := by
    split
    · norm_num
    · exact hbest short long
  unfold windowRatio
  split
  exact hwindow _ _

theorem normalSimilarity_self {s : List Char} (h : s ≠ []) : (100 : Rat) ≤ normalSimilarity s s := by
  have hempty : (s.isEmpty || s.isEmpty) = false := by
    cases s with
    | nil => exact absurd rfl h
    | cons c s => rfl
  unfold normalSimilarity
  rw [hempty]
  dsimp only
  simp only [larger_eq_max, ratio_self, Bool.false_eq_true, if_false]
  split <;> exact le_max_of_le_left (le_max_left _ _)

theorem normalSimilarity_lt {s t : List Char} (h : s ≠ t) : normalSimilarity s t < (100 : Rat) := by
  have hwhole : ratio s t < (100 : Rat) := ratio_lt h
  have hsorted := sortedRatio_le s t
  have hwords := wordSetRatio_le s t
  have hwindow := windowRatio_le s t
  have hwindow' := windowRatio_le (sorted s) (sorted t)
  unfold normalSimilarity
  dsimp only
  split
  · norm_num
  · simp only [larger_eq_max]
    split
    · simp only [max_lt_iff]
      refine ⟨⟨hwhole, ?_⟩, ?_⟩ <;> linarith
    · simp only [max_lt_iff]
      refine ⟨⟨hwhole, ?_⟩, ?_⟩ <;> split <;> linarith

end LegalEntity.Name
