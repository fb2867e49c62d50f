import LegalEntity.Proofs.Runs.Completion
import Mathlib.Order.RelClasses
import Mathlib.Order.WellFounded

namespace LegalEntity.Resolver

variable {σ α : Type} {w : Surroundings σ} {s t : State σ α} {i : Nat} {op : Op}

/-- A step that changes something. -/
def Advance (w : Surroundings σ) (s t : State σ α) : Prop := Step w s t ∧ t ≠ s

def State.unqueued (s : State σ α) : Nat :=
  (List.range s.calls.length).countP fun i => !s.shared.gate.waiting.contains i

theorem Gate.eq_or_queued_of_blocked {g g' : Gate} (h : g.enter i = (false, g')) :
    g' = g ∨ i ∉ g.waiting ∧ g'.waiting = g.waiting ++ [i] := by
  simp only [Gate.enter] at h
  split at h
  · cases h
  · split at h
    · cases h
    · split at h
      · cases h
        exact .inl rfl
      · rename_i hout
        cases h
        exact .inr ⟨fun hin => hout (List.contains_iff_mem.2 hin), rfl⟩

theorem Shared.eq_or_queued_of_blocked {x y : Shared} (h : x.serve i op = some (.blocked y)) :
    y = x ∨ i ∉ x.gate.waiting ∧ y.gate.waiting = x.gate.waiting ++ [i] := by
  have hgate : y.gate = x.gate ∨ i ∉ x.gate.waiting ∧ y.gate.waiting = x.gate.waiting ++ [i] := by
    cases Shared.gate_of_blocked h with
    | inl henter => exact Gate.eq_or_queued_of_blocked henter.2
    | inr hgate => exact .inl hgate
  apply hgate.imp_left
  intro hgate
  obtain ⟨hscratch, hscratches⟩ := Shared.scratch_of_blocked h
  have hindex := Shared.index_of_blocked h
  cases x
  cases y
  simp_all

theorem State.unqueued_wait {shared : Shared} (hi : i < s.calls.length)
    (hout : i ∉ s.shared.gate.waiting)
    (hqueued : shared.gate.waiting = s.shared.gate.waiting ++ [i]) :
    State.unqueued { s with shared } < s.unqueued := by
  have hothers (j : Nat) (hij : i ≠ j) :
      (!shared.gate.waiting.contains j) = !s.shared.gate.waiting.contains j := by
    simp [hqueued, Ne.symm hij]
  have hbefore : (!s.shared.gate.waiting.contains i) = true := by simp [hout]
  have hafter : (!shared.gate.waiting.contains i) = false := by simp [hqueued]
  have hcount := countP_range_update hi hothers
  rw [hbefore, hafter] at hcount
  exact Nat.lt_of_succ_le hcount.le

theorem Step.callsAfter_or_unqueued (h : Step w s t) (hne : t ≠ s) :
    CallsAfter t.calls s.calls ∨ t.calls = s.calls ∧ t.unqueued < s.unqueued := by
  cases h with
  | answer hi hw => exact .inl (State.callsAfter_goOn hi ..)
  | wait hi hb =>
    right
    cases Shared.eq_or_queued_of_blocked hb with
    | inl heq =>
      subst heq
      exact absurd rfl hne
    | inr hqueued =>
      exact ⟨rfl, State.unqueued_wait (List.getElem?_eq_some_iff.1 hi).1 hqueued.1 hqueued.2⟩

theorem advance_wellFounded (w : Surroundings σ) :
    WellFounded fun t s : State σ α => Advance w s t := by
  apply Subrelation.wf (r := InvImage (Prod.Lex CallsAfter (· < ·)) fun s : State σ α =>
    (s.calls, s.unqueued))
  · -- An answer shortens a call, whatever it does to the queue; all else is to join the queue.
    intro t s h
    cases h.1.callsAfter_or_unqueued h.2 with
    | inl hcalls => exact .left _ _ hcalls
    | inr hqueue =>
      obtain ⟨hcalls, hlt⟩ := hqueue
      change Prod.Lex _ _ (t.calls, t.unqueued) (s.calls, s.unqueued)
      rw [hcalls]
      exact .right _ hlt
  · exact InvImage.wf _ (callsAfter_wellFounded.prod_lex Nat.lt_wfRel.wf)

theorem exists_not_advance (w : Surroundings σ) (run : Nat → State σ α) :
    ∃ n, ¬Advance w (run n) (run (n + 1)) :=
  have : IsWellFounded (State σ α) fun t s => Advance w s t := ⟨advance_wellFounded w⟩
  WellFounded.not_rel_apply_succ (r := fun t s => Advance w s t) run

/-- Every run from a state comes to an end, and there a property holds. -/
structure State.Ends (w : Surroundings σ) (P : State σ α → Prop) (s : State σ α) : Prop where
  finite : ∀ run : Nat → State σ α, run 0 = s → ∃ n, ¬Advance w (run n) (run (n + 1))
  last : ∀ t, Run w s t → (∀ u, ¬Advance w t u) → P t

theorem State.Ends.of_run {P : State σ α → Prop} (h : s.Ends w P) (hrun : Run w s t) : t.Ends w P where
  finite run _ := exists_not_advance w run
  last u hu hend := h.last u (hrun.trans hu) hend

theorem State.CanGoOn.advance (h : s.CanGoOn w) : ∃ t, Advance w s t := by
  obtain ⟨i, op, a, shared, outside, ⟨next, hi⟩, hw⟩ := h
  refine ⟨s.goOn i op next a shared outside, .answer hi hw, fun heq => ?_⟩
  have hlog := congrArg (·.log.length) heq
  simp [State.goOn] at hlog

theorem State.Finished.not_advance (h : s.Finished) : ¬Advance w s t := by
  intro hadvance
  cases hadvance.1 with
  | answer hi hw => exact h.not_stands ⟨_, hi⟩
  | wait hi hb => exact h.not_stands ⟨_, hi⟩

theorem State.ends_of_canGoOn (h : ∀ t, Run w s t → ¬t.Finished → t.CanGoOn w) :
    s.Ends w State.Finished where
  finite run _ := exists_not_advance w run
  last t hrun hend := by
    by_contra hnot
    obtain ⟨u, hu⟩ := (h t hrun hnot).advance
    exact hend u hu

def State.results? (s : State σ α) : Option (List α) := s.calls.mapM Dialogue.value?

theorem State.results?_eq_some {rs : List α} :
    s.results? = some rs ↔ s.calls = rs.map .done := by
  unfold State.results?
  generalize s.calls = ts
  induction ts generalizing rs with
  | nil => cases rs <;> simp
  | cons t ts ih =>
    cases t with
    | done a => cases rs <;> simp [Dialogue.value?, Option.bind_eq_some_iff, ih, and_comm]
    | ask op next => cases rs <;> simp [Dialogue.value?]

theorem State.result?_of_results {rs : List α} (h : s.results? = some rs) (i : Nat) :
    s.result? i = rs[i]? := by
  rw [State.result?, State.results?_eq_some.1 h, List.getElem?_map]
  cases rs[i]? <;> rfl

theorem State.Finished.results (h : s.Finished) :
    ∃ rs, s.results? = some rs ∧ rs.length = s.calls.length := by
  have hcalls : ∃ rs : List α, s.calls = rs.map .done := by
    unfold State.Finished at h
    generalize s.calls = ts at h
    induction ts with
    | nil => exact ⟨[], rfl⟩
    | cons t ts ih =>
      obtain ⟨a, rfl⟩ := h t List.mem_cons_self
      obtain ⟨rs, rfl⟩ := ih fun u hu => h u (List.mem_cons_of_mem _ hu)
      exact ⟨a :: rs, rfl⟩
  obtain ⟨rs, hrs⟩ := hcalls
  exact ⟨rs, State.results?_eq_some.2 hrs, by simp [hrs]⟩

end LegalEntity.Resolver
