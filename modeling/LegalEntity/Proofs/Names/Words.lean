import LegalEntity.Name.Similarity
import LegalEntity.Proofs.Names.Spelling

namespace LegalEntity.Text

def AreWords (ws : List (List Char)) : Prop := ∀ w ∈ ws, w ≠ [] ∧ ∀ c ∈ w, isBlank c = false

theorem forall_of_mem_pieces {p : Char → Bool} {s w : List Char} (hw : w ∈ pieces p s) :
    ∀ c ∈ w, p c = false := by
  induction s generalizing w with
  | nil =>
    rw [pieces, List.mem_singleton] at hw
    subst hw
    intro c hc
    cases hc
  | cons d s ih =>
    rw [pieces] at hw
    split at hw
    · rcases List.mem_cons.1 hw with rfl | hw
      · intro c hc
        cases hc
      · exact ih hw
    · rename_i hd
      obtain ⟨v, vs, hvs⟩ := List.exists_cons_of_ne_nil (pieces_ne_nil p s)
      rw [hvs] at ih
      rw [hvs, List.modifyHead_cons] at hw
      rcases List.mem_cons.1 hw with rfl | hw
      · exact List.forall_mem_cons.2 ⟨Bool.eq_false_iff.2 hd, ih List.mem_cons_self⟩
      · exact ih (List.mem_cons_of_mem v hw)

theorem areWords_words (s : List Char) : AreWords (words s) := by
  intro w hw
  obtain ⟨hpiece, hne⟩ := List.mem_filter.1 hw
  exact ⟨by simpa using hne, forall_of_mem_pieces hpiece⟩

theorem pieces_of_forall {p : Char → Bool} {w : List Char} (h : ∀ c ∈ w, p c = false) :
    pieces p w = [w] := by
  induction w with
  | nil => rfl
  | cons c w ih =>
    obtain ⟨hc, hw⟩ := List.forall_mem_cons.1 h
    rw [pieces, ih hw, hc]
    rfl

theorem words_of_word {w : List Char} (h : w ≠ [] ∧ ∀ c ∈ w, isBlank c = false) : words w = [w] := by
  rw [words, pieces_of_forall h.2]
  exact List.filter_cons_of_pos (by simpa using h.1)

theorem words_unwords {ws : List (List Char)} (h : AreWords ws) : words (unwords ws) = ws := by
  have hid := words_map_unwords (f := id) (fun _ hc => hc) ws
  simp only [List.map_id_fun, id_eq] at hid
  rw [hid]
  clear hid
  induction ws with
  | nil => rfl
  | cons w ws ih =>
    obtain ⟨hw, hws⟩ := List.forall_mem_cons.1 h
    rw [List.flatMap_cons, words_of_word hw, ih hws, List.singleton_append]

theorem unwords_eq_nil {ws : List (List Char)} (h : AreWords ws) : unwords ws = [] ↔ ws = [] := by
  have hwords := unwords_words_eq_nil (s := unwords ws)
  rwa [words_unwords h] at hwords

theorem unwords_singleton (w : List Char) : unwords [w] = w := by
  rw [unwords, List.intercalate, List.intersperse_singleton, List.flatten_singleton]

theorem length_unwords (ws : List (List Char)) :
    (unwords ws).length = (ws.flatMap (' ' :: ·)).length - 1 := by
  induction ws with
  | nil => rfl
  | cons v ws ih =>
    rw [List.flatMap_cons, List.cons_append, List.length_cons, Nat.add_sub_cancel,
      List.length_append]
    cases ws with
    | nil =>
      rw [unwords_singleton]
      rfl
    | cons w ws =>
      rw [unwords_cons_cons, List.length_append, List.length_cons, ih, List.flatMap_cons,
        List.cons_append, List.length_cons, Nat.add_sub_cancel]

theorem length_unwords_of_perm {vs ws : List (List Char)} (h : vs.Perm ws) :
    (unwords vs).length = (unwords ws).length := by
  rw [length_unwords, length_unwords, (h.flatMap_right _).length_eq]

end LegalEntity.Text

namespace LegalEntity.Name

open Text

def InOrder (ws : List (List Char)) : Prop := ws.Pairwise fun v w => ¬w < v

theorem sortWords_perm (ws : List (List Char)) : (sortWords ws).Perm ws := List.mergeSort_perm ..

theorem inOrder_sortWords (ws : List (List Char)) : InOrder (sortWords ws) := by
  have hsorted : (sortWords ws).Pairwise fun v w => (!decide (w < v)) = true := by
    refine List.pairwise_mergeSort (fun u v w => ?_) (fun v w => ?_) ws
    · simp only [Bool.not_eq_true', decide_eq_false_iff_not, List.not_lt]
      exact List.le_trans
    · simp only [Bool.or_eq_true, Bool.not_eq_true', decide_eq_false_iff_not, List.not_lt]
      exact List.le_total v w
  exact hsorted.imp fun h => by simpa using h

theorem InOrder.eq_of_perm {vs ws : List (List Char)} (hvs : InOrder vs) (hws : InOrder ws)
    (h : vs.Perm ws) : vs = ws :=
  h.eq_of_pairwise (fun _ _ _ _ hle hge => List.le_antisymm (List.not_lt.1 hle) (List.not_lt.1 hge))
    hvs hws

theorem sortWords_eq_iff_perm {vs ws : List (List Char)} :
    sortWords vs = sortWords ws ↔ vs.Perm ws := by
  constructor
  · intro h
    exact (sortWords_perm vs).symm.trans (h ▸ sortWords_perm ws)
  · intro h
    exact (inOrder_sortWords vs).eq_of_perm (inOrder_sortWords ws)
      (((sortWords_perm vs).trans h).trans (sortWords_perm ws).symm)

theorem sorted_of_word {w : List Char} (h : words w = [w]) : sorted w = w := by
  rw [sorted, h, sortWords, List.mergeSort_singleton]
  exact List.append_nil w

theorem mem_wordSet {s w : List Char} : w ∈ wordSet s ↔ w ∈ words s := by
  rw [wordSet, (sortWords_perm _).mem_iff, List.mem_eraseDups]

theorem areWords_of_subset {s : List Char} {ws : List (List Char)} (h : ws ⊆ wordSet s) :
    AreWords ws := fun w hw => areWords_words s w (mem_wordSet.1 (h hw))

theorem nodup_eraseDups (ws : List (List Char)) : ws.eraseDups.Nodup := by
  match ws with
  | [] => exact List.nodup_nil
  | w :: ws =>
    rw [List.eraseDups_cons, List.nodup_cons, List.mem_eraseDups]
    exact ⟨by simp, nodup_eraseDups _⟩
termination_by ws.length
decreasing_by exact Nat.lt_succ_of_le (List.length_filter_le _ _)

theorem wordSet_of_word {w : List Char} (h : words w = [w]) : wordSet w = [w] := by
  rw [wordSet, h]
  exact List.mergeSort_singleton w

theorem nodup_wordSet (s : List Char) : (wordSet s).Nodup :=
  (sortWords_perm _).nodup_iff.2 (nodup_eraseDups _)

theorem filter_wordSet_comm (s t : List Char) :
    (wordSet s).filter (wordSet t).contains = (wordSet t).filter (wordSet s).contains := by
  have hinOrder (u v : List Char) : InOrder ((wordSet u).filter (wordSet v).contains) :=
    (inOrder_sortWords _).sublist List.filter_sublist
  refine (hinOrder s t).eq_of_perm (hinOrder t s) ?_
  rw [List.perm_ext_iff_of_nodup ((nodup_wordSet s).filter _) ((nodup_wordSet t).filter _)]
  intro w
  simp only [List.mem_filter, List.contains_iff_mem]
  exact and_comm

end LegalEntity.Name
