import LegalEntity.Proofs.Names.Bands
import LegalEntity.Proofs.Names.NormalForm

namespace LegalEntity.Name

open Text Scalar

theorem words_normalForm_ne_nil {s : List Char} (h : normalForm s ≠ []) :
    words (normalForm s) ≠ [] := by
  intro hwords
  apply h
  rw [← unwords_words_normalForm, hwords]
  rfl

theorem words_normalForm_eq_flatMap (s : List Char) :
    words (normalForm s) = (words s).flatMap fun w => words (w.map normalChar) := by
  rw [words_normalForm]
  exact words_map (fun _ => normalChar_isBlank) s

theorem sortedRatio_of_perm {s t : List Char} (h : (words s).Perm (words t)) :
    sortedRatio s t = (100 : Rat) := by
  rw [sortedRatio, sorted, sorted, sortWords_eq_iff_perm.2 h]
  exact ratio_self _

theorem unwords_filter_isEmpty (s : List Char) (p : List Char → Bool) :
    (unwords ((wordSet s).filter p)).isEmpty = ((wordSet s).filter p).isEmpty := by
  rw [Bool.eq_iff_iff, List.isEmpty_iff, List.isEmpty_iff,
    unwords_eq_nil (areWords_of_subset (List.filter_subset_self _))]

theorem filter_wordSet_isEmpty {s t : List Char} :
    ((wordSet s).filter (!(wordSet t).contains ·)).isEmpty = true ↔ words s ⊆ words t := by
  simp [List.isEmpty_iff, List.filter_eq_nil_iff, mem_wordSet, List.subset_def]

theorem wordSetRatio_of_subset {s t : List Char} (hs : words s ≠ []) (ht : words t ≠ [])
    (h : words s ⊆ words t ∨ words t ⊆ words s) : wordSetRatio s t = (100 : Rat) := by
  have hcommon : ((wordSet s).filter (wordSet t).contains).isEmpty = false := by
    obtain ⟨w, hws, hwt⟩ : ∃ w, w ∈ words s ∧ w ∈ words t := by
      cases h with
      | inl h =>
        obtain ⟨w, hw⟩ := List.exists_mem_of_ne_nil _ hs
        exact ⟨w, hw, h hw⟩
      | inr h =>
        obtain ⟨w, hw⟩ := List.exists_mem_of_ne_nil _ ht
        exact ⟨w, h hw, hw⟩
    rw [List.isEmpty_eq_false_iff_exists_mem]
    exact ⟨w, List.mem_filter.2 ⟨mem_wordSet.2 hws, by simpa [mem_wordSet] using hwt⟩⟩
  have hone : (((wordSet s).filter (!(wordSet t).contains ·)).isEmpty ||
      ((wordSet t).filter (!(wordSet s).contains ·)).isEmpty) = true := by
    rw [Bool.or_eq_true, filter_wordSet_isEmpty, filter_wordSet_isEmpty]
    exact h
  simp only [wordSetRatio, unwords_filter_isEmpty, hcommon, hone]
  norm_num

theorem length_eq_of_perm {s t : List Char}
    (h : (words (normalForm s)).Perm (words (normalForm t))) :
    (normalForm s).length = (normalForm t).length := by
  rw [← unwords_words_normalForm s, ← unwords_words_normalForm t]
  exact length_unwords_of_perm h

theorem proportion_of_length_eq {s t : List Char} (hs : s ≠ []) (h : s.length = t.length) :
    proportion s t = 1 := by
  have hpos : (0 : Rat) < s.length := Nat.cast_pos.2 (List.length_pos_of_ne_nil hs)
  rw [proportion, ← h, max_self, min_self]
  exact div_self hpos.ne'

section

variable {s t : List Char} (hs : normalForm s ≠ []) (ht : normalForm t ≠ [])

include hs ht

theorem normalSimilarity_of_subset (h : proportion (normalForm s) (normalForm t) < 3 / 2)
    (hwords : words (normalForm s) ⊆ words (normalForm t) ∨
      words (normalForm t) ⊆ words (normalForm s)) :
    (95 : Rat) ≤ normalSimilarity (normalForm s) (normalForm t) := by
  rw [normalSimilarity_eq hs ht, if_pos h, wordSetRatio_of_subset (words_normalForm_ne_nil hs)
    (words_normalForm_ne_nil ht) hwords]
  apply le_max_of_le_right
  norm_num

theorem normalSimilarity_of_perm (h : (words (normalForm s)).Perm (words (normalForm t))) :
    normalSimilarity (normalForm s) (normalForm t) =
      max 95 (ratio (normalForm s) (normalForm t) : Rat) := by
  have hproportion := proportion_of_length_eq hs (length_eq_of_perm h)
  have hwords := wordSetRatio_of_subset (words_normalForm_ne_nil hs) (words_normalForm_ne_nil ht)
    (.inl h.subset)
  rw [normalSimilarity_eq hs ht, hproportion, if_pos (by norm_num), sortedRatio_of_perm h, hwords,
    max_assoc, max_self, max_comm]
  norm_num

end

theorem words_normalForm_perm {s t : List Char} (h : (words s).Perm (words t)) :
    (words (normalForm s)).Perm (words (normalForm t)) := by
  rw [words_normalForm_eq_flatMap, words_normalForm_eq_flatMap]
  exact h.flatMap_right _

theorem words_normalForm_subset {s t : List Char} (h : words s ⊆ words t) :
    words (normalForm s) ⊆ words (normalForm t) := by
  intro w hw
  rw [words_normalForm_eq_flatMap, List.mem_flatMap] at hw ⊢
  obtain ⟨v, hv, hw⟩ := hw
  exact ⟨v, h hv, hw⟩

/-- Names of the same words in any order score 95, or more if they are that similar as they stand.
Names of about one length score no less if the words of the one are among those of the other, however
often. The words are those of the normal forms, of which all of this holds if it does of the words
as they are written. -/
theorem words_in_any_order (x y : String) (hx : normalForm x.toList ≠ [])
    (hy : normalForm y.toList ≠ []) :
    ((words (normalForm x.toList)).Perm (words (normalForm y.toList)) →
      similarity x y = max 95 (ratio (normalForm x.toList) (normalForm y.toList) : Rat)) ∧
    (proportion (normalForm x.toList) (normalForm y.toList) < 3 / 2 →
      words (normalForm x.toList) ⊆ words (normalForm y.toList) ∨
        words (normalForm y.toList) ⊆ words (normalForm x.toList) →
      (95 : Rat) ≤ similarity x y) ∧
    ((words x.toList).Perm (words y.toList) →
      (words (normalForm x.toList)).Perm (words (normalForm y.toList))) ∧
    (words x.toList ⊆ words y.toList →
      words (normalForm x.toList) ⊆ words (normalForm y.toList)) :=
  ⟨normalSimilarity_of_perm hx hy, normalSimilarity_of_subset hx hy, words_normalForm_perm,
    words_normalForm_subset⟩

theorem words_in_any_order_royce :
    similarity "Rolls-Royce Holdings" "Royce Holdings: Rolls" = (95 : Rat) ∧
      (95 : Rat) ≤ similarity "Acme Acme Holdings" "Holdings, ACME" := by
  have hroyce := words_in_any_order "Rolls-Royce Holdings" "Royce Holdings: Rolls"
    (by decide +kernel) (by decide +kernel)
  have hacme := words_in_any_order "Acme Acme Holdings" "Holdings, ACME"
    (by decide +kernel) (by decide +kernel)
  have hratio : (ratio (normalForm "Rolls-Royce Holdings".toList)
      (normalForm "Royce Holdings: Rolls".toList) : Rat) ≤ 95 := by decide +kernel
  constructor
  · rw [hroyce.1 (by decide +kernel), max_eq_left hratio]
  · exact hacme.2.1 (by decide +kernel) (.inr (by decide +kernel))

end LegalEntity.Name
