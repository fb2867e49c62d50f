import LegalEntity.Proofs.Doubles.Maximum
import LegalEntity.Proofs.Names.Distance
import LegalEntity.Proofs.Names.Words

namespace LegalEntity.Name

open Text Scalar

theorem editDistance_comm (s t : List Char) : editDistance s t = editDistance t s := by
  induction s generalizing t with
  | nil => rw [editDistance_nil_left, editDistance_nil_right]
  | cons c s ih =>
    induction t with
    | nil => rw [editDistance_nil_left, editDistance_nil_right]
    | cons d t ih' =>
      rw [editDistance_cons_cons, editDistance_cons_cons, ih, ih, ih', min_comm (_ + 1) (_ + 1)]
      simp only [eq_comm]

section

variable {α : Type} [Scalar α]

theorem ratio_comm (s t : List Char) : (ratio s t : α) = ratio t s := by
  rw [ratio, ratio, Bool.and_comm, editDistance_comm, Nat.max_comm]

theorem sortedRatio_comm (s t : List Char) : (sortedRatio s t : α) = sortedRatio t s :=
  ratio_comm _ _

theorem windows_of_lt {n : Nat} {l : List Char} (h : l.length < n) : windows n l = [] := by
  cases l with
  | nil => rfl
  | cons c l => exact if_neg (Nat.not_le.2 h)

theorem windows_length {l : List Char} (h : l ≠ []) : windows l.length l = [l] := by
  cases l with
  | nil => exact absurd rfl h
  | cons c l =>
    have hrest : windows (c :: l).length l = [] := windows_of_lt (Nat.lt_succ_self l.length)
    have hle : (c :: l).length ≤ l.length + 1 := Nat.le_refl _
    rw [windows, if_pos hle, List.take_length, hrest]

theorem windowRatio_comm (s t : List Char) : (windowRatio s t : α) = windowRatio t s := by
  unfold windowRatio
  rcases Nat.lt_trichotomy s.length t.length with h | h | h
  · rw [if_pos (Nat.le_of_lt h), if_neg (Nat.not_le.2 h)]
  · rw [if_pos (Nat.le_of_eq h), if_pos (Nat.le_of_eq h.symm)]
    by_cases hs : s = []
    · have ht : t = [] := List.length_eq_zero_iff.1 (h.symm.trans (List.length_eq_zero_iff.2 hs))
      rw [hs, ht]
    · have ht : t ≠ [] := fun ht =>
        hs (List.length_eq_zero_iff.1 (h.trans (List.length_eq_zero_iff.2 ht)))
      dsimp only
      rw [h, windows_length ht, ← h, windows_length hs, List.map_singleton, List.map_singleton,
        ratio_comm s t, if_neg (by simpa using hs), if_neg (by simpa using ht)]
  · rw [if_neg (Nat.not_le.2 h), if_pos (Nat.le_of_lt h)]

/-- Where the words in common are compared with the words of either side, the order of two ratios
must not matter. -/
def RatiosInAnyOrder (α : Type) [Scalar α] : Prop := ∀ s t u v p q : List Char,
  larger (larger (ratio s t) (ratio u v)) (ratio p q) =
    (larger (larger (ratio s t) (ratio p q)) (ratio u v) : α)

theorem wordSetRatio_comm (h : RatiosInAnyOrder α) (s t : List Char) :
    (wordSetRatio s t : α) = wordSetRatio t s := by
  simp only [wordSetRatio]
  rw [filter_wordSet_comm s t, Bool.or_comm]
  generalize unwords ((wordSet t).filter (wordSet s).contains) = common
  generalize unwords ((wordSet s).filter fun w => !(wordSet t).contains w) = onlyLeft
  generalize unwords ((wordSet t).filter fun w => !(wordSet s).contains w) = onlyRight
  rw [ratio_comm (joined common onlyLeft) (joined common onlyRight), h]

theorem normalSimilarity_comm (h : RatiosInAnyOrder α) (s t : List Char) :
    (normalSimilarity s t : α) = normalSimilarity t s := by
  simp only [normalSimilarity]
  rw [Bool.or_comm, Nat.max_comm, Nat.min_comm, ratio_comm s t, sortedRatio_comm s t,
    wordSetRatio_comm h s t, windowRatio_comm s t, windowRatio_comm (sorted s) (sorted t)]

end

theorem ratiosInAnyOrder_rat : RatiosInAnyOrder Rat := by
  intro s t u v p q
  simp only [larger_eq_max]
  exact max_right_comm _ _ _

theorem ratio_ne_negativeZero (s t : List Char) : ratio s t ≠ (-0.0 : Float) := by
  rw [ratio]
  split
  · decide +kernel
  · exact Doubles.mul_hundred_ne_negativeZero (Doubles.one_sub_ne_negativeZero _)

theorem ratiosInAnyOrder_float : RatiosInAnyOrder Float := fun _ _ _ _ _ _ =>
  Doubles.larger_right_comm (ratio_ne_negativeZero _ _) (ratio_ne_negativeZero _ _)
    (ratio_ne_negativeZero _ _)

/-- The similarity of two names is that of the second and the first: as a double, bit for bit, and
as an exact number. -/
theorem similarity_comm (x y : String) :
    similarity (α := Float) x y = similarity y x ∧ similarity (α := Rat) x y = similarity y x :=
  ⟨normalSimilarity_comm ratiosInAnyOrder_float _ _, normalSimilarity_comm ratiosInAnyOrder_rat _ _⟩

end LegalEntity.Name
