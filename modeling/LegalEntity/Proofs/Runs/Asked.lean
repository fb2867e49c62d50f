import LegalEntity.Proofs.Runs.Contract
import LegalEntity.Proofs.Runs.Counts

namespace LegalEntity.Resolver

variable {σ α γ : Type} {s t : State σ α} {i : Nat} {op : Op}

theorem Dialogue.op?_eq_some {t : Dialogue α} : t.op? = some op ↔ ∃ next, t = .ask op next := by
  cases t with
  | done a => simp [Dialogue.op?]
  | ask op' next =>
    simp only [Dialogue.op?, Option.some.injEq]
    constructor
    · rintro rfl
      exact ⟨next, rfl⟩
    · rintro ⟨next', h⟩
      cases h
      rfl

theorem State.mem_askedBy : op ∈ s.askedBy i ↔
    s.StandsAt i op ∨ ∃ e ∈ s.log, e.caller = i ∧ e.op = op := by
  simp only [State.askedBy, List.mem_append, Option.mem_toList, Option.bind_eq_some_iff,
    Dialogue.op?_eq_some, List.mem_map, List.mem_filter, beq_iff_eq, and_assoc]
  refine or_congr_left ⟨?_, ?_⟩
  · rintro ⟨_, hi, next, rfl⟩
    exact ⟨next, hi⟩
  · rintro ⟨next, hi⟩
    exact ⟨_, hi, next, rfl⟩

theorem State.countP_asked (p : Op → Bool) : s.asked.countP p =
    s.calls.countP (fun t => t.op?.any p) + s.log.countP (p ·.op) := by
  rw [State.asked, List.countP_append, List.countP_filterMap, List.countP_map]
  congr 1
  apply List.countP_congr
  intro t _
  cases t <;> rfl

theorem State.countP_asked_le {p : Op → Bool} {most : Nat}
    (hlog : s.log.countP (p ·.op) ≤ most)
    (hstands : ∀ i op, s.StandsAt i op → p op = true → s.log.countP (p ·.op) < most ∧
      ∀ j op', s.StandsAt j op' → p op' = true → i = j) : s.asked.countP p ≤ most := by
  have hasked := s.countP_asked p
  have hask {i : Nat} {t : Dialogue α} (hi : s.calls[i]? = some t) (ht : t.op?.any p = true) :
      ∃ op, s.StandsAt i op ∧ p op = true := by
    cases t with
    | done a => cases ht
    | ask op next => exact ⟨op, ⟨next, hi⟩, ht⟩
  have hone : s.calls.countP (fun t => t.op?.any p) ≤ 1 := by
    refine countP_le_one fun i j t u hi hj ht hu => ?_
    obtain ⟨op, hop, hp⟩ := hask hi ht
    obtain ⟨op', hop', hp'⟩ := hask hj hu
    exact (hstands i op hop hp).2 j op' hop' hp'
  rcases Nat.eq_zero_or_pos (s.calls.countP fun t => t.op?.any p) with hzero | hpos
  · omega
  · obtain ⟨t, ht, htp⟩ := List.countP_pos_iff.1 hpos
    obtain ⟨i, hi⟩ := List.mem_iff_getElem?.1 ht
    obtain ⟨op, hop, hp⟩ := hask hi htp
    have := (hstands i op hop hp).1
    omega

theorem Invariant.allowed {c : Nat → Contract γ} {post : Nat → α → γ → Prop} {w : Surroundings σ}
    {I : State σ α → Prop} (hI : Invariant w c post I) (h : Run w s t) (hs : I s)
    (hf : s.Follows c post) (hlog : s.log = []) {op : Op} (hop : op ∈ t.askedBy i) :
    ∃ g, (c i).allows g op := by
  have hevents : ∀ e ∈ t.log, ∃ g, (c e.caller).allows g e.op := by
    clear hop
    induction h with
    | refl => simp [hlog]
    | tail hrun step ih =>
      cases step with
      | answer hi hw =>
        intro e he
        rcases List.mem_cons.1 he with rfl | he
        · exact ⟨_, (hI.run hrun hs hf).2.allows ⟨_, hi⟩⟩
        · exact ih e he
      | wait hi hb => exact ih
  rcases State.mem_askedBy.1 hop with hi | ⟨e, he, rfl, rfl⟩
  · exact ⟨_, (hI.run h hs hf).2.allows hi⟩
  · exact hevents e he

end LegalEntity.Resolver
