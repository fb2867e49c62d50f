import LegalEntity.Proofs.Names.Distance
import LegalEntity.Settings

namespace LegalEntity.Name

open Text Scalar

/-- The characters of two texts side by side, with the number of those that are not kept. -/
inductive Edits : Nat → List Char → List Char → Prop
  | nil : Edits 0 [] []
  | keep {n : Nat} {s t : List Char} (c : Char) (h : Edits n s t) : Edits n (c :: s) (c :: t)
  | change {n : Nat} {s t : List Char} (c d : Char) (h : Edits n s t) :
      Edits (n + 1) (c :: s) (d :: t)
  | delete {n : Nat} {s t : List Char} (c : Char) (h : Edits n s t) : Edits (n + 1) (c :: s) t
  | insert {n : Nat} {s t : List Char} (d : Char) (h : Edits n s t) : Edits (n + 1) s (d :: t)

theorem editDistance_cons_left_le (c : Char) (s t : List Char) :
    editDistance (c :: s) t ≤ editDistance s t + 1 := by
  cases t with
  | nil => simp only [editDistance_nil_right, List.length_cons, Nat.le_refl]
  | cons d t =>
    rw [editDistance_cons_cons]
    exact (Nat.min_le_right _ _).trans (Nat.min_le_left _ _)

theorem editDistance_cons_right_le (d : Char) (s t : List Char) :
    editDistance s (d :: t) ≤ editDistance s t + 1 := by
  cases s with
  | nil => simp only [editDistance_nil_left, List.length_cons, Nat.le_refl]
  | cons c s =>
    rw [editDistance_cons_cons]
    exact (Nat.min_le_right _ _).trans (Nat.min_le_right _ _)

theorem Edits.editDistance_le {n : Nat} {s t : List Char} (h : Edits n s t) :
    editDistance s t ≤ n := by
  induction h with
  | nil => exact Nat.le_refl 0
  | keep c h ih =>
    rw [editDistance_cons_cons, if_pos rfl]
    exact (Nat.min_le_left _ _).trans ih
  | @change n s t c d h ih =>
    have hfirst : editDistance (c :: s) (d :: t) ≤
        if c = d then editDistance s t else editDistance s t + 1 := by
      rw [editDistance_cons_cons]
      exact Nat.min_le_left _ _
    split at hfirst <;> omega
  | delete c h ih => exact (editDistance_cons_left_le c _ _).trans (Nat.succ_le_succ ih)
  | insert d h ih => exact (editDistance_cons_right_le d _ _).trans (Nat.succ_le_succ ih)

theorem edits_nil_left (t : List Char) : Edits t.length [] t := by
  induction t with
  | nil => exact .nil
  | cons d t ih => exact ih.insert d

theorem edits_nil_right (s : List Char) : Edits s.length s [] := by
  induction s with
  | nil => exact .nil
  | cons c s ih => exact ih.delete c

theorem edits_editDistance (s t : List Char) : Edits (editDistance s t) s t := by
  induction s generalizing t with
  | nil =>
    rw [editDistance_nil_left]
    exact edits_nil_left t
  | cons c s ih =>
    induction t with
    | nil =>
      rw [editDistance_nil_right]
      exact edits_nil_right _
    | cons d t ih' =>
      have hdelete := (ih (d :: t)).delete c
      have hinsert := ih'.insert d
      have hboth : Edits (if c = d then editDistance s t else editDistance s t + 1)
          (c :: s) (d :: t) := by
        split
        · subst d
          exact (ih t).keep c
        · exact (ih t).change c d
      rw [editDistance_cons_cons]
      rcases min_choice (if c = d then editDistance s t else editDistance s t + 1)
        (min (editDistance s (d :: t) + 1) (editDistance (c :: s) t + 1)) with h | h <;> rw [h]
      · exact hboth
      · rcases min_choice (editDistance s (d :: t) + 1) (editDistance (c :: s) t + 1) with h | h <;>
          rw [h]
        · exact hdelete
        · exact hinsert

theorem editDistance_isLeast (s t : List Char) : IsLeast {n | Edits n s t} (editDistance s t) :=
  ⟨edits_editDistance s t, fun _ h => h.editDistance_le⟩

theorem Edits.length_le {n : Nat} {s t : List Char} (h : Edits n s t) :
    s.length ≤ t.length + n ∧ t.length ≤ s.length + n := by
  induction h <;> simp only [List.length_nil, List.length_cons] <;> omega

theorem exists_edits_le_max (s t : List Char) : ∃ n ≤ max s.length t.length, Edits n s t := by
  induction s generalizing t with
  | nil => exact ⟨_, Nat.le_max_right _ _, edits_nil_left t⟩
  | cons c s ih =>
    cases t with
    | nil => exact ⟨_, Nat.le_max_left _ _, edits_nil_right _⟩
    | cons d t =>
      obtain ⟨n, hn, hedits⟩ := ih t
      refine ⟨n + 1, ?_, hedits.change c d⟩
      simp only [List.length_cons]
      omega

theorem editDistance_le_max (s t : List Char) : editDistance s t ≤ max s.length t.length := by
  obtain ⟨n, hn, hedits⟩ := exists_edits_le_max s t
  exact hedits.editDistance_le.trans hn

theorem max_le_min_add_editDistance (s t : List Char) :
    max s.length t.length ≤ min s.length t.length + editDistance s t := by
  have hlength := (edits_editDistance s t).length_le
  omega

theorem ratio_nonneg (s t : List Char) : (0 : Rat) ≤ ratio s t := by
  by_cases hnot : s ≠ [] ∨ t ≠ []
  · have hdistance : (editDistance s t : Rat) ≤ (max s.length t.length : Nat) :=
      Nat.cast_le.2 (editDistance_le_max s t)
    have hshare : (editDistance s t : Rat) / (max s.length t.length : Nat) ≤ 1 :=
      div_le_one_of_le₀ hdistance (Nat.cast_nonneg _)
    rw [ratio_eq hnot]
    linarith
  · simp only [ne_eq, not_or, not_not] at hnot
    rw [hnot.1, hnot.2, ratio_nil_nil]
    norm_num

theorem ratio_le_of_proportion {s t : List Char} (hs : s ≠ []) (ht : t ≠ []) {r : Rat} (hr : 0 < r)
    (h : r ≤ ((max s.length t.length : Nat) : Rat) / (min s.length t.length : Nat)) :
    ratio s t ≤ 100 / r := by
  have hmin : (0 : Rat) < (min s.length t.length : Nat) := by
    have := List.length_pos_of_ne_nil hs
    have := List.length_pos_of_ne_nil ht
    exact Nat.cast_pos.2 (by omega)
  have hmax : (0 : Rat) < (max s.length t.length : Nat) := by
    have := List.length_pos_of_ne_nil hs
    exact Nat.cast_pos.2 (by omega)
  have hdistance : ((max s.length t.length : Nat) : Rat) ≤
      (min s.length t.length : Nat) + editDistance s t := by
    exact_mod_cast max_le_min_add_editDistance s t
  rw [le_div_iff₀ hmin] at h
  have hkept : 1 - (editDistance s t : Rat) / (max s.length t.length : Nat) ≤ 1 / r := by
    rw [one_sub_div hmax.ne', div_le_div_iff₀ hmax hr]
    nlinarith
  rw [ratio_eq (.inl hs), ← one_div_mul_eq_div r]
  linarith

def shorter (s t : List Char) : List Char := if s.length ≤ t.length then s else t

def longer (s t : List Char) : List Char := if s.length ≤ t.length then t else s

theorem mem_windows {n : Nat} (hn : 0 < n) {v l : List Char} :
    v ∈ windows n l ↔ v <:+: l ∧ v.length = n := by
  induction l with
  | nil =>
    simp only [windows, List.not_mem_nil, List.infix_nil, false_iff, not_and]
    rintro rfl h
    exact absurd h hn.ne
  | cons c l ih =>
    rw [windows]
    split
    · rename_i hle
      rw [List.mem_cons, ih, List.infix_cons_iff]
      have htake : v = (c :: l).take n ↔ v <+: c :: l ∧ v.length = n := by
        rw [List.prefix_iff_eq_take]
        constructor
        · intro h
          have hlength : v.length = n := by
            rw [h, List.length_take, List.length_cons]
            omega
          exact ⟨hlength ▸ h, hlength⟩
        · rintro ⟨h, hlength⟩
          exact hlength ▸ h
      rw [htake]
      tauto
    · rename_i hlt
      simp only [List.not_mem_nil, false_iff, not_and]
      intro hpart hlength
      have hle := hpart.length_le
      rw [List.length_cons] at hle
      omega

theorem foldl_larger_lt {l : List Rat} {x z : Rat} :
    l.foldl larger x < z ↔ x < z ∧ ∀ y ∈ l, y < z := by
  induction l generalizing x with
  | nil => simp
  | cons y l ih =>
    rw [List.foldl_cons, ih, larger_eq_max, max_lt_iff, List.forall_mem_cons, and_assoc]

theorem windowRatio_eq {s t : List Char} (hs : s ≠ []) (ht : t ≠ []) : windowRatio s t =
    ((windows (shorter s t).length (longer s t)).map
      (ratio (shorter s t))).foldl larger (0.0 : Rat) := by
  have hempty : ¬s.isEmpty := by simpa using hs
  have hempty' : ¬t.isEmpty := by simpa using ht
  rw [windowRatio, shorter, longer]
  by_cases h : s.length ≤ t.length
  · simp only [if_pos h]
    exact if_neg hempty
  · simp only [if_neg h]
    exact if_neg hempty'

theorem shorter_ne_nil {s t : List Char} (hs : s ≠ []) (ht : t ≠ []) : shorter s t ≠ [] := by
  rw [shorter]
  split <;> assumption

theorem windowRatio_eq_hundred {s t : List Char} (hs : s ≠ []) (ht : t ≠ []) :
    windowRatio s t = (100 : Rat) ↔ shorter s t <:+: longer s t := by
  have hlength : 0 < (shorter s t).length := List.length_pos_of_ne_nil (shorter_ne_nil hs ht)
  have hlt : windowRatio s t < (100 : Rat) ↔ ¬shorter s t <:+: longer s t := by
    rw [windowRatio_eq hs ht, foldl_larger_lt, List.forall_mem_map]
    constructor
    · rintro ⟨-, hall⟩ hpart
      exact (hall _ ((mem_windows hlength).2 ⟨hpart, rfl⟩)).ne (ratio_self _)
    · intro hpart
      refine ⟨by norm_num, fun v hv => ratio_lt ?_⟩
      rintro rfl
      exact hpart ((mem_windows hlength).1 hv).1
  rw [← not_iff_not, ← hlt]
  exact (windowRatio_le s t).lt_iff_ne.symm

def proportion (s t : List Char) : Rat :=
  ((max s.length t.length : Nat) : Rat) / (min s.length t.length : Nat)

theorem normalSimilarity_eq_zero {s t : List Char} (h : s = [] ∨ t = []) :
    normalSimilarity s t = (0 : Rat) := by
  have hempty : (s.isEmpty || t.isEmpty) = true := by simpa using h
  rw [normalSimilarity, if_pos hempty]
  norm_num

section

variable {s t : List Char} (hs : s ≠ []) (ht : t ≠ [])

include hs ht

theorem normalSimilarity_eq : normalSimilarity s t =
    if proportion s t < 3 / 2 then
      max (max (ratio s t) (sortedRatio s t * (95 / 100))) (wordSetRatio s t * (95 / 100 : Rat))
    else
      max (max (ratio s t) (windowRatio s t * if proportion s t < 8 then 9 / 10 else 6 / 10))
        (windowRatio (sorted s) (sorted t) * (95 / 100) *
          if proportion s t < 8 then 9 / 10 else 6 / 10) := by
  have hempty : ¬(s.isEmpty || t.isEmpty) = true := by simp [hs, ht]
  have hproportion : proportion s t =
    ofNat (max s.length t.length) / ofNat (min s.length t.length) := rfl
  rw [normalSimilarity, if_neg hempty, hproportion]
  norm_num [larger_eq_max]

theorem normalSimilarity_nonneg : (0 : Rat) ≤ normalSimilarity s t := by
  rw [normalSimilarity_eq hs ht]
  split <;> exact le_max_of_le_left (le_max_of_le_left (ratio_nonneg s t))

theorem normalSimilarity_le : normalSimilarity s t ≤ (100 : Rat) := by
  have hwhole : ratio s t ≤ (100 : Rat) := ratio_le s t
  have hsorted := sortedRatio_le s t
  have hwords := wordSetRatio_le s t
  have hwindow := windowRatio_le s t
  have hwindow' := windowRatio_le (sorted s) (sorted t)
  rw [normalSimilarity_eq hs ht]
  split
  · simp only [max_le_iff]
    refine ⟨⟨hwhole, ?_⟩, ?_⟩ <;> linarith
  · simp only [max_le_iff]
    refine ⟨⟨hwhole, ?_⟩, ?_⟩ <;> split <;> linarith

theorem normalSimilarity_eq_hundred : normalSimilarity s t = (100 : Rat) ↔ s = t := by
  constructor
  · intro h
    by_contra hne
    exact (normalSimilarity_lt hne).ne h
  · rintro rfl
    exact le_antisymm (normalSimilarity_le hs ht) (normalSimilarity_self hs)

theorem band {d : Rat} (hd : 0 < d) (hwhole : ratio s t < 100 * d)
    (h : normalSimilarity s t = max (max (ratio s t) (windowRatio s t * d))
      (windowRatio (sorted s) (sorted t) * (95 / 100) * d)) :
    normalSimilarity s t ≤ 100 * d ∧
      (normalSimilarity s t = 100 * d ↔ shorter s t <:+: longer s t) := by
  have hwindow : windowRatio s t * d ≤ 100 * d :=
    mul_le_mul_of_nonneg_right (windowRatio_le s t) hd.le
  have hsorted : windowRatio (sorted s) (sorted t) * (95 / 100) * d < 100 * d := by
    have hle := windowRatio_le (sorted s) (sorted t)
    exact mul_lt_mul_of_pos_right (by linarith) hd
  have hlt : normalSimilarity s t < 100 * d ↔ ¬shorter s t <:+: longer s t := by
    rw [h, max_lt_iff, max_lt_iff, ← windowRatio_eq_hundred hs ht, mul_lt_mul_iff_left₀ hd,
      (windowRatio_le s t).lt_iff_ne]
    exact ⟨fun hall => hall.1.2, fun hne => ⟨⟨hwhole, hne⟩, hsorted⟩⟩
  have hle : normalSimilarity s t ≤ 100 * d := by
    rw [h, max_le_iff, max_le_iff]
    exact ⟨⟨hwhole.le, hwindow⟩, hsorted.le⟩
  refine ⟨hle, ?_⟩
  rw [← not_iff_not, ← hlt]
  exact hle.lt_iff_ne.symm

theorem middle_band (h : 3 / 2 ≤ proportion s t) (h' : proportion s t < 8) :
    normalSimilarity s t ≤ (90 : Rat) ∧
      (normalSimilarity s t = (90 : Rat) ↔ shorter s t <:+: longer s t) := by
  have hwhole := ratio_le_of_proportion hs ht (by norm_num) h
  have hviews := normalSimilarity_eq hs ht
  rw [if_neg (not_lt.2 h), if_pos h'] at hviews
  have hband := band hs ht (by norm_num) (by linarith) hviews
  norm_num at hband
  exact hband

theorem low_band (h : 8 ≤ proportion s t) : normalSimilarity s t ≤ (60 : Rat) ∧
    (normalSimilarity s t = (60 : Rat) ↔ shorter s t <:+: longer s t) := by
  have hwhole := ratio_le_of_proportion hs ht (by norm_num) h
  have hviews := normalSimilarity_eq hs ht
  rw [if_neg (by linarith), if_neg (not_lt.2 h)] at hviews
  have hband := band hs ht (by norm_num) (by linarith) hviews
  norm_num at hband
  exact hband

end

theorem legalName_ne_of_mem_ranking {x y : String} {cutoff : Rat} (h : similarity x y ≤ cutoff)
    (es : List Entity) : ∀ s ∈ ranking x cutoff es, s.entity.legalName ≠ y := by
  intro s hs
  obtain ⟨hmem, hpass⟩ := List.mem_filter.1 (List.mem_mergeSort.1 hs)
  obtain ⟨e, -, rfl⟩ := List.mem_map.1 hmem
  rintro rfl
  simp only [passes, Bool.and_eq_true, decide_eq_true_eq] at hpass
  exact absurd hpass.2 (not_lt.2 h)

structure InBand (s t : List Char) (score : Rat) : Prop where
  eq_zero : s = [] ∨ t = [] → score = 0
  nonneg : 0 ≤ score
  le_hundred : score ≤ 100
  alike : s ≠ [] → t ≠ [] → proportion s t < 3 / 2 → (score = 100 ↔ s = t)
  middle : 3 / 2 ≤ proportion s t → proportion s t < 8 →
    score ≤ 90 ∧ (score = 90 ↔ shorter s t <:+: longer s t)
  low : 8 ≤ proportion s t → score ≤ 60 ∧ (score = 60 ↔ shorter s t <:+: longer s t)

theorem ne_nil_of_proportion {s t : List Char} (h : 0 < proportion s t) : s ≠ [] ∧ t ≠ [] := by
  constructor <;> rintro rfl <;> simp [proportion] at h

theorem inBand (s t : List Char) : InBand s t (normalSimilarity s t) := by
  by_cases hempty : s = [] ∨ t = []
  · have hzero := normalSimilarity_eq_zero hempty
    have hnot : ¬0 < proportion s t := fun h => by
      obtain ⟨hs, ht⟩ := ne_nil_of_proportion h
      exact hempty.elim hs ht
    exact {
      eq_zero := fun _ => hzero
      nonneg := hzero.ge
      le_hundred := by
        rw [hzero]
        norm_num
      alike := fun hs ht => (hempty.elim hs ht).elim
      middle := fun h => (hnot (by linarith)).elim
      low := fun h => (hnot (by linarith)).elim }
  · obtain ⟨hs, ht⟩ := not_or.1 hempty
    exact {
      eq_zero := fun h => (hempty h).elim
      nonneg := normalSimilarity_nonneg hs ht
      le_hundred := normalSimilarity_le hs ht
      alike := fun _ _ _ => normalSimilarity_eq_hundred hs ht
      middle := middle_band hs ht
      low := low_band hs ht }

/-- How similar two names can be at most depends on how many times longer the one normal form is
than the other. Names that differ in length by eight times or more are not ranked by default. -/
theorem similarity_bands (x y : String) :
    InBand (normalForm x.toList) (normalForm y.toList) (similarity x y) ∧
      (8 ≤ proportion (normalForm x.toList) (normalForm y.toList) → ∀ es : List Entity,
        ∀ c ∈ ranking x (Settings.default (α := Rat)).cutoff es, c.entity.legalName ≠ y) := by
  refine ⟨inBand _ _, ?_⟩
  intro h
  apply legalName_ne_of_mem_ranking
  have hlow : similarity x y ≤ (60 : Rat) := ((inBand _ _).low h).1
  have hcutoff : (Settings.default (α := Rat)).cutoff = 70 := by norm_num [Settings.default]
  linarith

end LegalEntity.Name
