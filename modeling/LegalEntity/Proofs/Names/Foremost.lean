import LegalEntity.Proofs.Names.Ranked

namespace LegalEntity.Name

open Doubles

section

variable {β : Type} {le : β → β → Bool} {l : List β} {a : β}

def IsForemost (le : β → β → Bool) (l : List β) (a : β) : Prop :=
  ∃ before after, l = before ++ a :: after ∧ (∀ b ∈ before, le b a = false) ∧
    ∀ b ∈ after, le a b = true

theorem IsForemost.filter {p : β → Bool} (h : IsForemost le l a) (ha : p a = true) :
    IsForemost le (l.filter p) a := by
  obtain ⟨before, after, rfl, hbefore, hafter⟩ := h
  refine ⟨before.filter p, after.filter p, ?_, fun b hb => ?_, fun b hb => ?_⟩
  · rw [List.filter_append, List.filter_cons_of_pos ha]
  · exact hbefore b (List.mem_filter.1 hb).1
  · exact hafter b (List.mem_filter.1 hb).1

theorem IsForemost.head?_mergeSort (h : IsForemost le l a)
    (trans : ∀ a b c, le a b → le b c → le a c) (total : ∀ a b, le a b || le b a) :
    (l.mergeSort le).head? = some a := by
  obtain ⟨before, after, rfl, hbefore, hafter⟩ := h
  have hself : le a a = true := by simpa using total a a
  -- What goes before `a` or ties with it keeps its order, and `a` stands first of that.
  have hties : ((before ++ a :: after).mergeSort le).filter (le · a) =
      a :: after.filter (le · a) := by
    rw [filter_mergeSort trans total, List.filter_append,
      List.filter_cons_of_pos (p := (le · a)) hself,
      List.filter_eq_nil_iff.2 fun b hb => Bool.eq_false_iff.1 (hbefore b hb), List.nil_append]
    apply List.mergeSort_of_pairwise
    rw [List.pairwise_cons]
    refine ⟨fun b hb => hafter b (List.mem_filter.1 hb).1, List.pairwise_of_forall_mem_list ?_⟩
    intro b hb c hc
    exact trans b a c (List.mem_filter.1 hb).2 (hafter c (List.mem_filter.1 hc).1)
  have hmem : a ∈ (before ++ a :: after).mergeSort le := by simp
  have hsorted := List.pairwise_mergeSort trans total (before ++ a :: after)
  cases hsort : (before ++ a :: after).mergeSort le with
  | nil => simp [hsort] at hmem
  | cons b others =>
    rw [hsort] at hmem hsorted hties
    have hfirst : le b a = true := by
      rcases List.mem_cons.1 hmem with rfl | ha
      · exact hself
      · exact (List.pairwise_cons.1 hsorted).1 a ha
    rw [List.filter_cons_of_pos (p := (le · a)) hfirst] at hties
    exact congrArg some (List.cons.inj hties).1

end

section

variable {β : Type} {name : String} {cutoff : Float} {f : β → Entity} {l : List β} {b : β}

def rankingOf (name : String) (cutoff : Float) (f : β → Entity) (l : List β) : List β :=
  (l.filter fun b => passes cutoff (scored name (f b))).mergeSort fun b c =>
    decide (NotWorse (scored name (f b)) (scored name (f c)))

theorem map_rankingOf (name : String) (cutoff : Float) (f : β → Entity) (l : List β) :
    (rankingOf name cutoff f l).map (fun b => scored name (f b)) =
      ranking name cutoff (l.map f) := by
  rw [rankingOf, ranking, List.map_map, List.filter_map]
  exact List.map_mergeSort fun _ _ _ _ => rfl

theorem passes_iff {s : Scored Float} :
    passes cutoff s = true ↔ 0.0 < s.score ∧ cutoff < s.score := by
  rw [passes, Bool.and_eq_true, decide_eq_true_iff, decide_eq_true_iff]

theorem IsFirstBestOf.le (h : IsFirstBestOf name f l b) {c : β} (hc : c ∈ l) :
    similarity (α := Float) name (f c).legalName ≤ similarity name (f b).legalName := by
  obtain ⟨before, after, rfl, hbefore, hafter⟩ := h
  rcases List.mem_append.1 hc with hc | hc
  · exact le_of_lt (hbefore c hc)
  rcases List.mem_cons.1 hc with rfl | hc
  · exact le_iff.2 ⟨similarity_ne_nan _ _, similarity_ne_nan _ _, Int.le_refl _⟩
  · exact hafter c hc

theorem IsFirstBestOf.isForemost (h : IsFirstBestOf name f l b)
    (hb : passes cutoff (scored name (f b)) = true) :
    IsForemost (fun b c => decide (NotWorse (scored name (f b)) (scored name (f c))))
      (l.filter fun b => passes cutoff (scored name (f b))) b := by
  obtain ⟨before, after, rfl, hbefore, hafter⟩ := h
  have hplace := totalKey_eq_place (passes_iff.1 hb).1
  have hsplit := List.filter_append (p := fun b => passes cutoff (scored name (f b)))
    before (b :: after)
  rw [List.filter_cons_of_pos (p := fun b => passes cutoff (scored name (f b))) hb] at hsplit
  refine ⟨_, _, hsplit, fun c hc => ?_, fun c hc => ?_⟩
  · obtain ⟨hc, hpasses⟩ := List.mem_filter.1 hc
    have hlt := (lt_iff.1 (hbefore c hc)).2.2
    rw [decide_eq_false_iff_not, NotWorse, hplace, totalKey_eq_place (passes_iff.1 hpasses).1]
    exact Int.not_le.2 hlt
  · obtain ⟨hc, hpasses⟩ := List.mem_filter.1 hc
    have hle := (le_iff.1 (hafter c hc)).2.2
    rw [decide_eq_true_iff, NotWorse, hplace, totalKey_eq_place (passes_iff.1 hpasses).1]
    exact hle

theorem head?_rankingOf (h : rankingOf name cutoff f l ≠ []) :
    (rankingOf name cutoff f l).head? = closestOf? name f l := by
  obtain ⟨c, hc⟩ := List.exists_mem_of_ne_nil _ h
  obtain ⟨hc, hpasses⟩ := List.mem_filter.1 (List.mem_mergeSort.1 hc)
  obtain ⟨b, hb⟩ : ∃ b, closestOf? name f l = some b := by
    cases l with
    | nil => cases hc
    | cons b l => exact ⟨_, rfl⟩
  have hbest := isFirstBestOf_closestOf hb
  have hb' : passes cutoff (scored name (f b)) = true := by
    have hpasses := passes_iff.1 hpasses
    exact passes_iff.2 ⟨lt_of_lt_of_le hpasses.1 (hbest.le hc),
      lt_of_lt_of_le hpasses.2 (hbest.le hc)⟩
  rw [hb, rankingOf]
  exact (hbest.isForemost hb').head?_mergeSort (fun _ _ _ => notWorse_trans _ _ _)
    fun _ _ => notWorse_total _ _

end

def rankedPlaces (name : String) (cutoff : Float) (es : List Entity) : List Nat :=
  (rankingOf name cutoff Prod.fst es.zipIdx).map Prod.snd

def closestPlace? (name : String) (es : List Entity) : Option Nat :=
  (closestOf? name Prod.fst es.zipIdx).map Prod.snd

/-- No entity of the list scores higher than the one at this place, and none before it as high. -/
structure IsFirstBestAt (name : String) (es : List Entity) (i : Nat) : Prop where
  lt : i < es.length
  best : ∀ d ∈ es, similarity (α := Float) name d.legalName ≤ similarity name es[i].legalName
  first : ∀ j, (hj : j < i) →
    similarity (α := Float) name es[j].legalName < similarity name es[i].legalName

section

variable {name : String} {es : List Entity} {i j : Nat}

theorem IsFirstBestOf.at_place {e : Entity} (h : IsFirstBestOf name Prod.fst es.zipIdx (e, i)) :
    es[i]? = some e ∧ IsFirstBestAt name es i := by
  have hle := fun c hc => h.le (c := c) hc
  obtain ⟨before, after, hsplit, hbefore, -⟩ := h
  have hplaces (k : Nat) : (before ++ (e, i) :: after)[k]? = es[k]?.map fun d => (d, k) := by
    rw [← hsplit, List.getElem?_zipIdx]
    simp only [Nat.zero_add]
  have hmiddle : (before ++ (e, i) :: after)[before.length]? = some (e, i) := by simp
  obtain ⟨d, hd, heq⟩ := Option.map_eq_some_iff.1 ((hplaces before.length).symm.trans hmiddle)
  obtain ⟨rfl, rfl⟩ := Prod.mk.inj heq
  obtain ⟨hlt, hget⟩ := List.getElem?_eq_some_iff.1 hd
  refine ⟨hd, hlt, fun c hc => ?_, fun j hj => ?_⟩
  · obtain ⟨j, hj⟩ := List.getElem?_of_mem hc
    rw [hget]
    exact hle (c, j) (List.mk_mem_zipIdx_iff_getElem?.2 hj)
  · have hj' := hplaces j
    rw [List.getElem?_append_left hj, List.getElem?_eq_getElem (Nat.lt_trans hj hlt),
      Option.map_some] at hj'
    rw [hget]
    exact hbefore (es[j], j) (List.mem_of_getElem? hj')

theorem IsFirstBestAt.eq (hi : IsFirstBestAt name es i) (hj : IsFirstBestAt name es j) : i = j := by
  have hnot {i j : Nat} (hi : IsFirstBestAt name es i) (hj : IsFirstBestAt name es j) : ¬i < j := by
    intro hlt
    have hworse := lt_of_lt_of_le (hj.first i hlt) (hi.best _ (List.getElem_mem hj.lt))
    exact Int.lt_irrefl _ (lt_iff.1 hworse).2.2
  exact Nat.le_antisymm (Nat.not_lt.1 (hnot hj hi)) (Nat.not_lt.1 (hnot hi hj))

theorem closestPlace?_eq_some : closestPlace? name es = some i ↔ IsFirstBestAt name es i := by
  have hplace {j : Nat} (h : closestPlace? name es = some j) : IsFirstBestAt name es j := by
    obtain ⟨⟨e, j⟩, hclosest, rfl⟩ := Option.map_eq_some_iff.1 h
    exact (isFirstBestOf_closestOf hclosest).at_place.2
  constructor
  · exact hplace
  · intro hi
    obtain ⟨j, hj⟩ : ∃ j, closestPlace? name es = some j := by
      cases es with
      | nil => exact absurd hi.lt (Nat.not_lt_zero i)
      | cons e es => exact ⟨_, rfl⟩
    rw [hj, (hplace hj).eq hi]

theorem closest?_eq_bind (name : String) (es : List Entity) :
    closest? Float name es = (closestPlace? name es).bind (es[·]?) := by
  have hclosest := map_closestOf name Prod.fst es.zipIdx
  rw [List.zipIdx_map_fst] at hclosest
  rw [← hclosest, closestPlace?]
  cases h : closestOf? name Prod.fst es.zipIdx with
  | none => rfl
  | some p => exact (isFirstBestOf_closestOf h).at_place.1.symm

theorem map_rankedPlaces (name : String) (cutoff : Float) (es : List Entity) :
    (rankedPlaces name cutoff es).map (es[·]?) =
      (ranking name cutoff es).map fun s => some s.entity := by
  have hranking := map_rankingOf name cutoff Prod.fst es.zipIdx
  rw [List.zipIdx_map_fst] at hranking
  rw [← hranking, rankedPlaces, List.map_map, List.map_map]
  apply List.map_congr_left
  intro p hp
  exact List.mk_mem_zipIdx_iff_getElem?.1 (List.mem_filter.1 (List.mem_mergeSort.1 hp)).1

theorem head?_of_ranking_ne_nil {cutoff : Float} (h : ranking name cutoff es ≠ []) :
    (rankedPlaces name cutoff es).head? = closestPlace? name es ∧
      (ranking name cutoff es).head? = (closest? Float name es).map (scored name) := by
  have hranking := map_rankingOf name cutoff Prod.fst es.zipIdx
  have hclosest := map_closestOf name Prod.fst es.zipIdx
  rw [List.zipIdx_map_fst] at hranking hclosest
  have hhead : (rankingOf name cutoff Prod.fst es.zipIdx).head? =
      closestOf? name Prod.fst es.zipIdx := by
    apply head?_rankingOf
    intro hnil
    rw [hnil] at hranking
    exact h hranking.symm
  constructor
  · rw [rankedPlaces, List.head?_map, hhead]
    rfl
  · rw [← hranking, ← hclosest, List.head?_map, hhead, Option.map_map]
    rfl

end

/-- No entity is the closest of none. Otherwise it is the first of those with the highest score, as
all scores are numbers, and a ranking that has any entity leads with it: not only with the like, but
with the one at the same place in the list. -/
theorem closest_leads_ranking (name : String) (es : List Entity) :
    (∀ e ∈ es, similarity (α := Float) name e.legalName ≠ Float.nan) ∧
    (closest? Float name es = none ↔ es = []) ∧
    closest? Float name es = (closestPlace? name es).bind (es[·]?) ∧
    (∀ i, closestPlace? name es = some i ↔ IsFirstBestAt name es i) ∧
    ∀ cutoff : Float,
      (rankedPlaces name cutoff es).map (es[·]?) =
        (ranking name cutoff es).map (fun s => some s.entity) ∧
      (ranking name cutoff es ≠ [] →
        (rankedPlaces name cutoff es).head? = closestPlace? name es ∧
          (ranking name cutoff es).head? = (closest? Float name es).map (scored name)) :=
  ⟨fun _ _ => similarity_ne_nan _ _, closest?_eq_none, closest?_eq_bind name es,
    fun _ => closestPlace?_eq_some,
    fun cutoff => ⟨map_rankedPlaces name cutoff es, head?_of_ranking_ne_nil⟩⟩

/-- The second and the third entity score alike, and both higher than the first. -/
theorem closest_leads_ranking_tie :
    (ranking "Acme" (70.0 : Float) [⟨"Zeta", "Z"⟩, ⟨"ACME", "A"⟩, ⟨"Acme.", "B"⟩]).head? =
      some (scored "Acme" ⟨"ACME", "A"⟩) := by
  have hpasses : passes (70.0 : Float) (scored "Acme" ⟨"ACME", "A"⟩) = true := by decide +kernel
  have hsome : ranking "Acme" 70.0 [⟨"Zeta", "Z"⟩, ⟨"ACME", "A"⟩, ⟨"Acme.", "B"⟩] ≠ [] :=
    List.ne_nil_of_mem (List.mem_mergeSort.2 (List.mem_filter.2 ⟨by simp, hpasses⟩))
  have hclosest : closest? Float "Acme" [⟨"Zeta", "Z"⟩, ⟨"ACME", "A"⟩, ⟨"Acme.", "B"⟩] =
      some ⟨"ACME", "A"⟩ := by decide +kernel
  have hagree := closest_leads_ranking "Acme" [⟨"Zeta", "Z"⟩, ⟨"ACME", "A"⟩, ⟨"Acme.", "B"⟩]
  rw [((hagree.2.2.2.2 70.0).2 hsome).2, hclosest]
  rfl

end LegalEntity.Name
