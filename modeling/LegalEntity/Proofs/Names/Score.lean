import LegalEntity.Name.Ranking
import LegalEntity.Proofs.Doubles.Numbers

namespace LegalEntity.Name

open Doubles Scalar

theorem larger_ne_nan {x : Float} (hx : x ≠ Float.nan) (y : Float) :
    larger x y ≠ Float.nan := by
  rw [larger]
  split
  · exact hx
  · split
    · rename_i h
      exact (beq_iff.1 h).1
    · exact hx

theorem larger_ne_nan_of_right (x : Float) {y : Float} (hy : y ≠ Float.nan) :
    larger x y ≠ Float.nan := by
  rw [larger]
  split
  · rename_i h
    exact (lt_iff.1 h).2.1
  · rw [if_pos (Float.beq_self_iff.2 hy)]
    exact hy

theorem foldl_larger_ne_nan {x : Float} (hx : x ≠ Float.nan) (l : List Float) :
    l.foldl larger x ≠ Float.nan := by
  induction l generalizing x with
  | nil => exact hx
  | cons y l ih => exact ih (larger_ne_nan hx y)

theorem isOrdinary_hundred : IsOrdinary 100.0 := ⟨_, _, _, _, rfl⟩

theorem isOrdinary_scale : IsOrdinary 0.95 := ⟨_, _, _, _, rfl⟩

theorem isOrdinary_discount (b : Prop) [Decidable b] : IsOrdinary (if b then 0.9 else 0.6) := by
  split <;> exact ⟨_, _, _, _, rfl⟩

theorem ofNat_ne_nan (n : Nat) : Float.ofNat n ≠ Float.nan := by
  cases n with
  | zero => decide +kernel
  | succ n => exact (isPositive_ofNat n.succ_pos).ne_nan

theorem ratio_ne_nan {s t : List Char} (h : IsOrdinary (Float.ofNat (max s.length t.length))) :
    ratio s t ≠ Float.nan := by
  rw [ratio]
  split
  · decide +kernel
  · have hone : IsOrdinary 1.0 := ⟨_, _, _, _, rfl⟩
    exact mul_ne_nan (sub_ne_nan hone (div_ne_nan (ofNat_ne_nan _) h)) isOrdinary_hundred

theorem windowRatio_ne_nan (s t : List Char) : windowRatio s t ≠ Float.nan := by
  have hzero : (0.0 : Float) ≠ Float.nan := by decide +kernel
  unfold windowRatio
  split
  split
  · exact hzero
  · exact foldl_larger_ne_nan hzero _

theorem isOrdinary_of_proportion {m n : Nat} (hn : 0 < n) (hm : 0 < m)
    (h : Float.ofNat m / Float.ofNat n < 1.5) : IsOrdinary (Float.ofNat m) := by
  rcases isPositive_ofNat hm with hinfinite | ⟨k, e, hk, hfinite⟩
  · exact absurd h (not_lt_of_infinite hinfinite (isPositive_ofNat hn) _)
  · exact ⟨_, _, _, _, hfinite⟩

theorem normalSimilarity_ne_nan (s t : List Char) :
    normalSimilarity s t ≠ Float.nan := by
  unfold normalSimilarity
  split
  · decide +kernel
  · rename_i hempty
    have hs : 0 < s.length := List.length_pos_iff.2 fun h => hempty (by simp [h])
    have ht : 0 < t.length := List.length_pos_iff.2 fun h => hempty (by simp [h])
    dsimp only
    split
    · rename_i hproportion
      have hlength := isOrdinary_of_proportion (by omega) (by omega) hproportion
      exact larger_ne_nan (larger_ne_nan (ratio_ne_nan hlength) _) _
    · apply larger_ne_nan_of_right
      have hsorted := windowRatio_ne_nan (sorted s) (sorted t)
      exact mul_ne_nan (mul_ne_nan hsorted isOrdinary_scale) (isOrdinary_discount _)

theorem similarity_ne_nan (s t : String) : similarity s t ≠ Float.nan :=
  normalSimilarity_ne_nan _ _

def IsFirstBest (name : String) (es : List Entity) (e : Entity) : Prop :=
  ∃ before after, es = before ++ e :: after ∧
    (∀ d ∈ before, similarity (α := Float) name d.legalName < similarity name e.legalName) ∧
    ∀ d ∈ after, similarity (α := Float) name d.legalName ≤ similarity name e.legalName

section

variable {β : Type} {name : String} {f : β → Entity}

def IsFirstBestOf (name : String) (f : β → Entity) (l : List β) (b : β) : Prop :=
  ∃ before after, l = before ++ b :: after ∧
    (∀ c ∈ before,
      similarity (α := Float) name (f c).legalName < similarity name (f b).legalName) ∧
    ∀ c ∈ after, similarity (α := Float) name (f c).legalName ≤ similarity name (f b).legalName

def closerOf (name : String) (f : β → Entity) (b c : β) : β :=
  if similarity (α := Float) name (f b).legalName < similarity name (f c).legalName then c else b

def closestOf? (name : String) (f : β → Entity) : List β → Option β
  | [] => none
  | b :: bs => some (bs.foldl (closerOf name f) b)

theorem isFirstBestOf_foldl {before after : List β} {b : β} (l : List β)
    (hbefore : ∀ c ∈ before,
      similarity (α := Float) name (f c).legalName < similarity name (f b).legalName)
    (hafter : ∀ c ∈ after,
      similarity (α := Float) name (f c).legalName ≤ similarity name (f b).legalName) :
    IsFirstBestOf name f (before ++ b :: after ++ l) (l.foldl (closerOf name f) b) := by
  induction l generalizing before b after with
  | nil =>
    rw [List.append_nil]
    exact ⟨before, after, rfl, hbefore, hafter⟩
  | cons d l ih =>
    rw [List.foldl_cons, closerOf]
    split
    · rename_i hlt
      rw [show before ++ b :: after ++ d :: l = (before ++ b :: after) ++ d :: [] ++ l by simp]
      refine ih ?_ nofun
      intro c hc
      rcases List.mem_append.1 hc with hc | hc
      · exact lt_of_lt_of_le (hbefore c hc) (le_of_lt hlt)
      rcases List.mem_cons.1 hc with rfl | hc
      · exact hlt
      · exact lt_of_le_of_lt (hafter c hc) hlt
    · rename_i hnot
      rw [show before ++ b :: after ++ d :: l = before ++ b :: (after ++ [d]) ++ l by simp]
      refine ih hbefore ?_
      intro c hc
      rcases List.mem_append.1 hc with hc | hc
      · exact hafter c hc
      · obtain rfl := List.mem_singleton.1 hc
        exact (not_lt_iff (similarity_ne_nan _ _) (similarity_ne_nan _ _)).1 hnot

theorem isFirstBestOf_closestOf {l : List β} {b : β} (h : closestOf? name f l = some b) :
    IsFirstBestOf name f l b := by
  cases l with
  | nil => cases h
  | cons c l =>
    obtain rfl := Option.some.inj h
    have hbest : IsFirstBestOf name f ([] ++ c :: [] ++ l) _ := isFirstBestOf_foldl l nofun nofun
    exact hbest

theorem scored_foldl (name : String) (f : β → Entity) (l : List β) (b : β) :
    (l.map fun c => scored (α := Float) name (f c)).foldl
        (fun best s => if best.score < s.score then s else best) (scored name (f b)) =
      scored name (f (l.foldl (closerOf name f) b)) := by
  induction l generalizing b with
  | nil => rfl
  | cons c l ih =>
    have hcloser : (if (scored (α := Float) name (f b)).score < (scored name (f c)).score
        then scored name (f c) else scored name (f b)) =
        scored (α := Float) name (f (closerOf name f b c)) := by
      rw [closerOf]
      exact (apply_ite (fun d => scored (α := Float) name (f d)) _ c b).symm
    rw [List.map_cons, List.foldl_cons, List.foldl_cons, hcloser, ih]

theorem map_closestOf (name : String) (f : β → Entity) (l : List β) :
    (closestOf? name f l).map f = closest? Float name (l.map f) := by
  cases l with
  | nil => rfl
  | cons b l =>
    have hfoldl := congrArg (fun s : Scored Float => some s.entity) (scored_foldl name f l b)
    rw [closestOf?, List.map_cons, closest?, List.map_map]
    exact hfoldl.symm

end

theorem closest?_eq_some {name : String} {es : List Entity} {e : Entity}
    (h : closest? Float name es = some e) : IsFirstBest name es e := by
  have hclosest : (closestOf? name id es).map id = closest? Float name (es.map id) :=
    map_closestOf name id es
  rw [List.map_id, Option.map_id_apply] at hclosest
  exact isFirstBestOf_closestOf (hclosest.trans h)

theorem closest?_eq_none {name : String} {es : List Entity} :
    closest? Float name es = none ↔ es = [] := by
  cases es with
  | nil => exact ⟨fun _ => rfl, fun _ => rfl⟩
  | cons d es => exact ⟨nofun, nofun⟩

section

variable {α : Type} [Scalar α] {name : String} {d e : Entity}

theorem ranking_of_pair {cutoff : α} {es : List Entity}
    (hpassing : (es.map (scored (α := α) name)).filter (passes cutoff) =
      [scored name d, scored name e])
    (hbetter : Scalar.totalLE (scored (α := α) name e).score (scored name d).score = false) :
    ranking name cutoff es = [scored name e, scored name d] := by
  rw [ranking, hpassing]
  simp [List.mergeSort, List.MergeSort.Internal.splitInTwo, hbetter]

theorem closest?_of_pair (hbetter : (scored (α := α) name d).score < (scored name e).score) :
    closest? α name [d, e] = some e := by
  rw [closest?, List.map_singleton, List.foldl_cons, if_pos hbetter]
  rfl

end

end LegalEntity.Name
