import LegalEntity.Proofs.Names.Score

namespace LegalEntity.Name

open Doubles

section

variable {β : Type} {le : β → β → Bool} {p : β → Bool}

theorem filter_append_of_below {a : β} {l₁ l₂ : List β} (h₁ : ∀ b ∈ l₁, le a b = false)
    (h₂ : ∀ b ∈ l₂, le a b = true) : (l₁ ++ l₂).filter (!le a ·) = l₁ := by
  rw [List.filter_append, List.filter_eq_self.2, List.filter_eq_nil_iff.2, List.append_nil]
  · simpa using h₂
  · simpa using h₁

theorem append_inj_of_below {a : β} {l₁ l₂ l₁' l₂' : List β} (h : l₁ ++ l₂ = l₁' ++ l₂')
    (h₁ : ∀ b ∈ l₁, le a b = false) (h₂ : ∀ b ∈ l₂, le a b = true)
    (h₁' : ∀ b ∈ l₁', le a b = false) (h₂' : ∀ b ∈ l₂', le a b = true) : l₁ = l₁' ∧ l₂ = l₂' := by
  have hleft := filter_append_of_below h₁ h₂
  rw [h, filter_append_of_below h₁' h₂'] at hleft
  subst hleft
  exact ⟨rfl, List.append_cancel_left h⟩

/-- Sorting and selecting commute, as the sort is stable. -/
theorem filter_mergeSort (trans : ∀ a b c, le a b → le b c → le a c)
    (total : ∀ a b, le a b || le b a) (p : β → Bool) (l : List β) :
    (l.mergeSort le).filter p = (l.filter p).mergeSort le := by
  induction l with
  | nil => simp
  | cons a l ih =>
    obtain ⟨l₁, l₂, hcons, hsort, hbelow⟩ := List.mergeSort_cons trans total a l
    cases ha : p a with
    | false =>
      rw [List.filter_cons_of_neg (by simp [ha]), ← ih, hcons, hsort, List.filter_append,
        List.filter_append, List.filter_cons_of_neg (by simp [ha])]
    | true =>
      obtain ⟨k₁, k₂, hcons', hsort', hbelow'⟩ := List.mergeSort_cons trans total a (l.filter p)
      have hsorted := List.pairwise_mergeSort trans total (a :: l)
      have hsorted' := List.pairwise_mergeSort trans total (a :: l.filter p)
      rw [hcons, List.pairwise_append, List.pairwise_cons] at hsorted
      rw [hcons', List.pairwise_append, List.pairwise_cons] at hsorted'
      rw [← ih, hsort, List.filter_append] at hsort'
      obtain ⟨rfl, rfl⟩ := append_inj_of_below hsort'
        (fun b hb => by simpa using hbelow b (List.mem_filter.1 hb).1)
        (fun b hb => hsorted.2.1.1 b (List.mem_filter.1 hb).1)
        (fun b hb => by simpa using hbelow' b hb) (fun b hb => hsorted'.2.1.1 b hb)
      rw [List.filter_cons_of_pos ha, hcons', hcons, List.filter_append, List.filter_cons_of_pos ha]

theorem filter_isPrefix {l : List β} {r : β → β → Prop} (h : l.Pairwise r)
    (hr : ∀ a b, r a b → p b → p a) : l.filter p <+: l := by
  induction l with
  | nil => exact List.nil_prefix
  | cons a l ih =>
    obtain ⟨ha, hl⟩ := List.pairwise_cons.1 h
    cases hp : p a with
    | true =>
      rw [List.filter_cons_of_pos hp]
      exact (List.prefix_cons_inj a).2 (ih hl)
    | false =>
      have hnone : (a :: l).filter p = [] := by
        rw [List.filter_eq_nil_iff]
        intro b hb hpb
        rcases List.mem_cons.1 hb with rfl | hb
        · simp [hp] at hpb
        · simp [hr a b (ha b hb) hpb] at hp
      rw [hnone]
      exact List.nil_prefix

end

def passing (name : String) (cutoff : Float) (es : List Entity) : List (Scored Float) :=
  (es.filter fun e => (0.0 : Float) < similarity name e.legalName ∧
    cutoff < similarity name e.legalName).map fun e => ⟨e, similarity name e.legalName⟩

def NotWorse (s t : Scored Float) : Prop := totalKey t.score ≤ totalKey s.score

instance (s t : Scored Float) : Decidable (NotWorse s t) :=
  inferInstanceAs (Decidable (totalKey t.score ≤ totalKey s.score))

theorem notWorse_trans (s t u : Scored Float) (h : decide (NotWorse s t) = true)
    (h' : decide (NotWorse t u) = true) : decide (NotWorse s u) = true :=
  decide_eq_true (Int.le_trans (of_decide_eq_true h') (of_decide_eq_true h))

theorem notWorse_total (s t : Scored Float) :
    (decide (NotWorse s t) || decide (NotWorse t s)) = true := by
  rw [← Bool.decide_or, decide_eq_true_iff]
  exact Int.le_total _ _

theorem ranking_eq_mergeSort (name : String) (cutoff : Float) (es : List Entity) :
    ranking name cutoff es =
      (passing name cutoff es).mergeSort fun s t => decide (NotWorse s t) := by
  rw [passing, ranking, List.filter_map]
  have hpasses : passes cutoff ∘ scored name = fun e => decide ((0.0 : Float) <
      similarity name e.legalName ∧ cutoff < similarity name e.legalName) := by
    funext e
    exact (Bool.decide_and ..).symm
  rw [hpasses]
  rfl

theorem filter_ranking (name : String) (cutoff : Float) (es : List Entity)
    (p : Scored Float → Bool) : (ranking name cutoff es).filter p =
      ((passing name cutoff es).filter p).mergeSort fun s t => decide (NotWorse s t) := by
  rw [ranking_eq_mergeSort]
  exact filter_mergeSort notWorse_trans notWorse_total _ _

theorem ranking_sorted (name : String) (cutoff : Float) (es : List Entity) :
    (ranking name cutoff es).Pairwise NotWorse := by
  rw [ranking_eq_mergeSort]
  exact (List.pairwise_mergeSort notWorse_trans notWorse_total _).imp of_decide_eq_true

theorem score_of_mem_passing {name : String} {cutoff : Float} {es : List Entity} {s : Scored Float}
    (h : s ∈ passing name cutoff es) : 0.0 < s.score ∧ cutoff < s.score := by
  obtain ⟨e, he, rfl⟩ := List.mem_map.1 h
  simpa using (List.mem_filter.1 he).2

theorem filter_ranking_beq (name : String) (cutoff : Float) (es : List Entity) (x : Float) :
    (ranking name cutoff es).filter (·.score == x) =
      (passing name cutoff es).filter (·.score == x) := by
  rw [filter_ranking]
  apply List.mergeSort_of_pairwise
  have hplace (s : Scored Float) (hs : s ∈ (passing name cutoff es).filter (·.score == x)) :
      totalKey s.score = place x := by
    obtain ⟨hmem, heq⟩ := List.mem_filter.1 hs
    rw [totalKey_eq_place (score_of_mem_passing hmem).1]
    exact (beq_iff.1 heq).2.2
  refine List.pairwise_of_forall_mem_list ?_
  intro s hs t ht
  exact decide_eq_true ((hplace t ht).trans (hplace s hs).symm).le

theorem passing_of_le (name : String) {cutoff cutoff' : Float} (h : cutoff ≤ cutoff')
    (es : List Entity) :
    passing name cutoff' es = (passing name cutoff es).filter fun s => cutoff' < s.score := by
  rw [passing, passing, List.filter_map, List.filter_filter]
  congr 2
  funext e
  have hcutoff : cutoff' < similarity name e.legalName → cutoff < similarity name e.legalName :=
    lt_of_le_of_lt h
  rw [Function.comp_apply, ← Bool.decide_and, decide_eq_decide]
  exact ⟨fun hpass => ⟨hpass.2, hpass.1, hcutoff hpass.2⟩, fun hpass => ⟨hpass.2.1, hpass.1⟩⟩

theorem ranking_pairwise_le (name : String) (cutoff : Float) (es : List Entity) :
    (ranking name cutoff es).Pairwise fun s t => t.score ≤ s.score := by
  refine (ranking_sorted name cutoff es).imp_of_mem ?_
  intro s t hs ht hnotWorse
  rw [ranking_eq_mergeSort, List.mem_mergeSort] at hs ht
  have hpositive := (score_of_mem_passing hs).1
  have hpositive' := (score_of_mem_passing ht).1
  rw [NotWorse, totalKey_eq_place hpositive, totalKey_eq_place hpositive'] at hnotWorse
  exact le_iff.2 ⟨(lt_iff.1 hpositive').2.1, (lt_iff.1 hpositive).2.1, hnotWorse⟩

theorem ranking_isPrefix (name : String) {cutoff cutoff' : Float} (h : cutoff ≤ cutoff')
    (es : List Entity) : ranking name cutoff' es <+: ranking name cutoff es := by
  have hfilter : ranking name cutoff' es =
      (ranking name cutoff es).filter fun s => cutoff' < s.score := by
    rw [ranking_eq_mergeSort, passing_of_le name h, filter_ranking]
  rw [hfilter]
  refine filter_isPrefix (ranking_pairwise_le name cutoff es) ?_
  intro s t hle hpass
  exact decide_eq_true (lt_of_lt_of_le (of_decide_eq_true hpass) hle)

/-- The ranking is what passes the cutoff, each entity as often as it is given, the best scores
first and equal ones in the order given. A higher cutoff cuts it short. -/
theorem ranking_sorts_passing (name : String) (es : List Entity) (cutoff : Float) :
    (ranking name cutoff es).Perm (passing name cutoff es) ∧
      (ranking name cutoff es).Pairwise NotWorse ∧
      (∀ x : Float, (ranking name cutoff es).filter (·.score == x) =
        (passing name cutoff es).filter (·.score == x)) ∧
      ∀ cutoff', cutoff ≤ cutoff' → ranking name cutoff' es <+: ranking name cutoff es := by
  refine ⟨?_, ranking_sorted name cutoff es, filter_ranking_beq name cutoff es, ?_⟩
  · rw [ranking_eq_mergeSort]
    exact List.mergeSort_perm _ _
  · intro cutoff' h
    exact ranking_isPrefix name h es

end LegalEntity.Name
