import LegalEntity.Proofs.Names.Words
import LegalEntity.Proofs.Text.Case

namespace LegalEntity.Text

theorem pieces_map (p : Char → Bool) (f : Char → Char) (s : List Char) :
    pieces p (s.map f) = (pieces (p ∘ f) s).map (List.map f) := by
  induction s with
  | nil => rfl
  | cons c s ih =>
    obtain ⟨w, ws, hws⟩ := List.exists_cons_of_ne_nil (pieces_ne_nil (p ∘ f) s)
    rw [List.map_cons, pieces, pieces, ih, hws]
    cases hc : p (f c) <;> simp [hc]

section

variable {ws : List (List Char)} {c : Char}

theorem exists_of_mem_head?_unwords (h : AreWords ws) (hc : c ∈ (unwords ws).head?) :
    ∃ w ∈ ws, c ∈ w := by
  cases ws with
  | nil => cases hc
  | cons w ws =>
    have hhead : (unwords (w :: ws)).head? = w.head? := by
      cases ws with
      | nil => rw [unwords_singleton]
      | cons v ws => rw [unwords_cons_cons, List.head?_append_of_ne_nil _ (h w List.mem_cons_self).1]
    rw [hhead] at hc
    exact ⟨w, List.mem_cons_self, List.mem_of_mem_head? hc⟩

theorem exists_of_mem_getLast?_unwords (h : AreWords ws) (hc : c ∈ (unwords ws).getLast?) :
    ∃ w ∈ ws, c ∈ w := by
  induction ws with
  | nil => cases hc
  | cons v ws ih =>
    cases ws with
    | nil =>
      rw [unwords_singleton] at hc
      exact ⟨v, List.mem_cons_self, List.mem_of_mem_getLast? hc⟩
    | cons w ws =>
      have hrest : AreWords (w :: ws) := fun u hu => h u (List.mem_cons_of_mem v hu)
      have hne : unwords (w :: ws) ≠ [] := mt (unwords_eq_nil hrest).1 (List.cons_ne_nil w ws)
      rw [unwords_cons_cons, List.append_cons, List.getLast?_append_of_ne_nil _ hne] at hc
      obtain ⟨u, hu, hc⟩ := ih hrest hc
      exact ⟨u, List.mem_cons_of_mem v hu, hc⟩

end

end LegalEntity.Text

namespace LegalEntity.Name

open Text Scalar

def alphanumericRuns (s : List Char) : List (List Char) :=
  (pieces (!isAlphanumeric ·) s).filter (!·.isEmpty)

def IsGap (g : List Char) : Prop := ∀ c ∈ g, isAlphanumeric c = false

instance (g : List Char) : Decidable (IsGap g) := List.decidableBAll _ g

@[simp] theorem alphanumericRuns_nil : alphanumericRuns [] = [] := rfl

theorem of_mem_alphanumericRuns {s w : List Char} (h : w ∈ alphanumericRuns s) :
    w ≠ [] ∧ ∀ c ∈ w, isAlphanumeric c = true := by
  obtain ⟨hpiece, hne⟩ := List.mem_filter.1 h
  exact ⟨by simpa using hne, fun c hc => by simpa using forall_of_mem_pieces hpiece c hc⟩

section

variable {c : Char} {g g' : List Char}

theorem alphanumericRuns_append_cons (hc : isAlphanumeric c = false) (u v : List Char) :
    alphanumericRuns (u ++ c :: v) = alphanumericRuns u ++ alphanumericRuns v := by
  have hsep : (!isAlphanumeric c) = true := by rw [hc]; rfl
  rw [alphanumericRuns, pieces_append_sep hsep, List.filter_append]
  rfl

theorem alphanumericRuns_gap_append (hg : IsGap g) (v : List Char) :
    alphanumericRuns (g ++ v) = alphanumericRuns v := by
  induction g with
  | nil => rfl
  | cons c g ih =>
    obtain ⟨hc, hg⟩ := List.forall_mem_cons.1 hg
    have hcons := alphanumericRuns_append_cons hc [] (g ++ v)
    rwa [ih hg] at hcons

theorem alphanumericRuns_append_gap (hne : g ≠ []) (hg : IsGap g) (u v : List Char) :
    alphanumericRuns (u ++ g ++ v) = alphanumericRuns u ++ alphanumericRuns v := by
  cases g with
  | nil => exact absurd rfl hne
  | cons c g =>
    obtain ⟨hc, hg⟩ := List.forall_mem_cons.1 hg
    rw [List.append_assoc, List.cons_append, alphanumericRuns_append_cons hc,
      alphanumericRuns_gap_append hg]

theorem alphanumericRuns_between_gaps (hg : IsGap g) (hg' : IsGap g') (s : List Char) :
    alphanumericRuns (g ++ s ++ g') = alphanumericRuns s := by
  rw [List.append_assoc, alphanumericRuns_gap_append hg]
  by_cases hne : g' = []
  · rw [hne, List.append_nil]
  · have hlast := alphanumericRuns_append_gap hne hg' s []
    rwa [List.append_nil, alphanumericRuns_nil, List.append_nil] at hlast

end

theorem words_normalForm (s : List Char) : words (normalForm s) = words (s.map normalChar) :=
  words_unwords (areWords_words _)

theorem unwords_words_normalForm (s : List Char) : unwords (words (normalForm s)) = normalForm s := by
  rw [words_normalForm, normalForm]

theorem not_isBlank_of_isAlphanumeric {c : Char} (h : isAlphanumeric c = true) :
    isBlank c = false := by
  by_contra hblank
  have hnot := not_isAlphanumeric_of_isBlank (Bool.not_eq_false _ ▸ hblank)
  exact Bool.false_ne_true (hnot.symm.trans h)

theorem isBlank_normalChar (c : Char) : isBlank (normalChar c) = !isAlphanumeric c := by
  rw [normalChar]
  cases hc : isAlphanumeric c with
  | false => rfl
  | true => exact not_isBlank_of_isAlphanumeric (isAlphanumeric_lowerFirst hc)

theorem words_normalForm_eq_map (s : List Char) :
    words (normalForm s) = (alphanumericRuns s).map (List.map lowerFirst) := by
  have hblank : isBlank ∘ normalChar = (!isAlphanumeric ·) := funext isBlank_normalChar
  have hfilter : (fun w : List Char => !w.isEmpty) ∘ List.map normalChar = (!·.isEmpty) := by
    funext w
    simp
  have hruns : words (s.map normalChar) = (alphanumericRuns s).map (List.map normalChar) := by
    rw [words, pieces_map, hblank, List.filter_map, hfilter]
    rfl
  rw [words_normalForm, hruns]
  refine List.map_congr_left fun w hw => List.map_congr_left fun c hc => ?_
  exact if_pos ((of_mem_alphanumericRuns hw).2 c hc)

theorem normalForm_eq_iff {s t : List Char} : normalForm s = normalForm t ↔
    (alphanumericRuns s).map (List.map lowerFirst) =
      (alphanumericRuns t).map (List.map lowerFirst) := by
  rw [← words_normalForm_eq_map, ← words_normalForm_eq_map]
  constructor
  · exact congrArg words
  · intro h
    rw [← unwords_words_normalForm s, h, unwords_words_normalForm]

theorem normalForm_congr {s t : List Char} (h : alphanumericRuns s = alphanumericRuns t) :
    normalForm s = normalForm t := normalForm_eq_iff.2 (congrArg _ h)

structure IsNormalWord (w : List Char) : Prop where
  ne_nil : w ≠ []
  alphanumeric : ∀ c ∈ w, isAlphanumeric c = true
  lower : ∀ c ∈ w, lowerFirst c = c

theorem isNormalWord_of_mem {s w : List Char} (h : w ∈ words (normalForm s)) : IsNormalWord w := by
  rw [words_normalForm_eq_map] at h
  obtain ⟨v, hv, rfl⟩ := List.mem_map.1 h
  obtain ⟨hne, halphanumeric⟩ := of_mem_alphanumericRuns hv
  exact {
    ne_nil := mt List.map_eq_nil_iff.1 hne
    alphanumeric := List.forall_mem_map.2 fun c hc => isAlphanumeric_lowerFirst (halphanumeric c hc)
    lower := List.forall_mem_map.2 fun c _ => lowerFirst_lowerFirst c }

section

variable {ws : List (List Char)} (h : ∀ w ∈ ws, IsNormalWord w)

include h

theorem areWords_of_isNormalWord : AreWords ws := fun w hw =>
  ⟨(h w hw).ne_nil, fun c hc => not_isBlank_of_isAlphanumeric ((h w hw).alphanumeric c hc)⟩

theorem normalForm_unwords : normalForm (unwords ws) = unwords ws := by
  have hchars : ∀ c ∈ unwords ws, normalChar c = c := by
    intro c hc
    rcases mem_unwords hc with rfl | ⟨w, hw, hc⟩
    · decide +kernel
    · exact (if_pos ((h w hw).alphanumeric c hc)).trans ((h w hw).lower c hc)
  have hmap : (unwords ws).map normalChar = unwords ws :=
    (List.map_congr_left hchars).trans (List.map_id' _)
  rw [normalForm, hmap, words_unwords (areWords_of_isNormalWord h)]

end

theorem exists_normalForm_eq (s : List Char) :
    ∃ ws, (∀ w ∈ ws, IsNormalWord w) ∧ normalForm s = unwords ws :=
  ⟨words (normalForm s), fun _ => isNormalWord_of_mem, (unwords_words_normalForm s).symm⟩

theorem normalForm_eq_self_iff {s : List Char} :
    normalForm s = s ↔ ∃ ws, (∀ w ∈ ws, IsNormalWord w) ∧ s = unwords ws := by
  constructor
  · intro h
    have hwords := exists_normalForm_eq s
    rwa [h] at hwords
  · rintro ⟨ws, hws, rfl⟩
    exact normalForm_unwords hws

@[simp] theorem normalForm_normalForm (s : List Char) : normalForm (normalForm s) = normalForm s :=
  normalForm_eq_self_iff.2 (exists_normalForm_eq s)

theorem isAlphanumeric_of_mem_ends {s : List Char} {c : Char}
    (hc : c ∈ (normalForm s).head? ∨ c ∈ (normalForm s).getLast?) : isAlphanumeric c = true := by
  obtain ⟨ws, hws, heq⟩ := exists_normalForm_eq s
  have hwords := areWords_of_isNormalWord hws
  rw [heq] at hc
  obtain ⟨w, hw, hc⟩ : ∃ w ∈ ws, c ∈ w :=
    hc.elim (exists_of_mem_head?_unwords hwords) (exists_of_mem_getLast?_unwords hwords)
  exact (hws w hw).alphanumeric c hc

theorem similarity_normalForm {α : Type} [Scalar α] (x y : String) : (similarity x y : α) =
    similarity (String.ofList (normalForm x.toList)) (String.ofList (normalForm y.toList)) := by
  simp only [similarity, String.toList_ofList, normalForm_normalForm]

/-- The normal form of a text is its runs of letters and numbers in lower case, one space between two
of them and none at the ends. So it is its own normal form, and it does not matter what stands between
the runs, or around them, as long as something stands between two. Similarity is that of the normal
forms, whatever the arithmetic. -/
theorem runs_kept_in_normal_form (x : String) :
    (∃ ws, (∀ w ∈ ws, IsNormalWord w) ∧ normalForm x.toList = unwords ws) ∧
    (∀ c, c ∈ (normalForm x.toList).head? ∨ c ∈ (normalForm x.toList).getLast? →
      isAlphanumeric c = true) ∧
    normalForm (normalForm x.toList) = normalForm x.toList ∧
    (∀ u c v g, x.toList = u ++ c :: v → isAlphanumeric c = false → g ≠ [] → IsGap g →
      normalForm (u ++ g ++ v) = normalForm x.toList) ∧
    (∀ g g', IsGap g → IsGap g' → normalForm (g ++ x.toList ++ g') = normalForm x.toList) ∧
    ∀ y : String,
      (normalForm x.toList = normalForm y.toList ↔
        (alphanumericRuns x.toList).map (List.map lowerFirst) =
          (alphanumericRuns y.toList).map (List.map lowerFirst)) ∧
      ∀ (α : Type) [Scalar α], (similarity x y : α) =
        similarity (String.ofList (normalForm x.toList)) (String.ofList (normalForm y.toList)) := by
  refine ⟨exists_normalForm_eq _, fun c => isAlphanumeric_of_mem_ends, normalForm_normalForm _, ?_,
    fun g g' hg hg' => normalForm_congr (alphanumericRuns_between_gaps hg hg' _),
    fun y => ⟨normalForm_eq_iff, fun α _ => similarity_normalForm x y⟩⟩
  intro u c v g hx hc hne hg
  apply normalForm_congr
  rw [hx, alphanumericRuns_append_gap hne hg, alphanumericRuns_append_cons hc]

theorem runs_kept_in_normal_form_turkish :
    normalForm "İş,A.Ş.".toList = "iş a ş".toList ∧
    normalForm ("İş".toList ++ [' ', '('] ++ "A.Ş.".toList) = normalForm "İş,A.Ş.".toList ∧
    normalForm (['('] ++ "İş,A.Ş.".toList ++ [')', '.']) = normalForm "İş,A.Ş.".toList := by
  obtain ⟨-, -, -, hreplaced, hwrapped, -⟩ := runs_kept_in_normal_form "İş,A.Ş."
  refine ⟨by decide +kernel, hreplaced _ ',' _ _ (by decide +kernel) ?_ ?_ ?_, hwrapped _ _ ?_ ?_⟩
  all_goals decide +kernel

end LegalEntity.Name
