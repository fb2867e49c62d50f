import LegalEntity.Proofs.Index.ByRow
import LegalEntity.Proofs.Runs.Alone

namespace LegalEntity.Resolver

def indexed? (q : Query) (x : Option IsinIndex) : Option String :=
  q.canonicalIsin?.bind fun isin => x.bind (·.get? isin)

section

variable {σ α : Type} {w : Surroundings σ} {needs : Nat → Bool} {most : Nat} {s t : State σ α}
  {x : Option IsinIndex} {post : Nat → α → Knowledge → Prop}

theorem OneLoad.not_loading (hs : OneLoad needs most s) (hx : s.shared.index = .ready x) (i : Nat) :
    (s.knowledge needs i).isLoading = false := by
  rw [OneLoad, hx] at hs
  rcases hs.1 i with h | h <;> rw [h] <;> rfl

theorem OneLoad.ready_of_step (hs : OneLoad needs most s)
    (hf : s.Follows (fun i => indexContract (needs i)) post) (hx : s.shared.index = .ready x)
    (hstep : Step w s t) : t.shared.index = .ready x := by
  cases hstep with
  | @answer i op next a shared outside hi hw =>
    have hallow : (indexContract (needs i)).allows (s.knowledge needs i) op := hf.allows ⟨next, hi⟩
    have hquiet : op.ofIndex = true → op = .claimIndex := by
      have hk := hs.not_loading hx i
      intro hop
      cases hknows : s.knowledge needs i with
      | loading => rw [hknows] at hk; cases hk
      | nothing | told =>
        rw [hknows] at hallow
        exact (hallow hop).1
    change shared.index = .ready x
    by_cases hclaim : op = .claimIndex
    · subst hclaim
      rcases hw.claimIndex with ⟨hcell, -⟩ | ⟨y, hcell, -, hcell'⟩
      · cases hx.symm.trans hcell
      · exact hcell'.trans (hcell.symm.trans hx)
    · rw [hw.index_eq hclaim fun r hr => ?_]
      · exact hx
      · subst hr
        exact hclaim (hquiet rfl)
  | wait hi hb => exact (Shared.index_of_blocked hb).trans hx

theorem OneLoad.ready_of_run (hs : OneLoad needs most s)
    (hf : s.Follows (fun i => indexContract (needs i)) post) (hx : s.shared.index = .ready x)
    (hrun : Run w s t) : t.shared.index = .ready x := by
  induction hrun with
  | refl => exact hx
  | tail hrun step ih =>
    obtain ⟨hs', hf'⟩ := OneLoad.invariant.run hrun hs hf
    exact hs'.ready_of_step hf' ih step

end

section

variable {σ α : Type} {w : Surroundings σ} {settings : Settings α} {slots : Nat} {shared y : Shared}
  {outside p : σ} {log : List Event} {q : Query} {r : Option Identity}

theorem byIsin_of_none (hisin : q.canonicalIsin? = none) : byIsin settings q = .done none := by
  rw [byIsin, hisin]
  rfl

theorem byIsin_alone_of_none (hisin : q.canonicalIsin? = none)
    (hrun : Run w (.start [byIsin settings q] shared outside) ⟨[.done r], y, p, log⟩) :
    r = none ∧ y = shared ∧ p = outside ∧ log = [] := by
  rw [byIsin_of_none hisin] at hrun
  cases hrun.eq_of_finished (by simp [State.Finished, State.start])
  exact ⟨rfl, rfl, rfl, rfl⟩

theorem byIsin_alone (hshared : shared.AtRest slots)
    (hrun : Run w (.start [byIsin settings q] shared outside) ⟨[.done r], y, p, log⟩) :
    (∀ e ∈ log, e.op.getsIndex settings) ∧
      ∃ x, (q.canonicalIsin?.isSome →
          y.index = .ready x ∧ ∀ z, shared.index = .ready z → z = x) ∧
        r = (indexed? q x).map (q.identity · .isinIndex) := by
  have hasked := hrun.askedBy (i := 0) rfl (byIsin_asks q)
  have hlog : ∀ e ∈ log, e.op.getsIndex settings := by
    intro e he
    have hlt : e.caller < 1 := hrun.caller_lt nofun e he
    exact hasked e.op (State.mem_askedBy.2 (.inr ⟨e, he, Nat.lt_one_iff.1 hlt, rfl⟩))
  refine ⟨hlog, ?_⟩
  have hstart : (State.start [byIsin settings q] shared outside).Follows
      (fun _ => indexContract (Call.resolve q).needsIndex) fun _ r k => k.isLoading = false ∧
        ∃ x, (q.canonicalIsin?.isSome → k = .told x) ∧
          r = (indexed? q x).map (q.identity · .isinIndex) := by
    apply State.Follows.start
    intro i t hi
    obtain ⟨rfl, rfl⟩ := eq_zero_of_getElem?_singleton hi
    exact byIsin_keeps_told q
  have hone : OneLoad (fun _ => (Call.resolve q).needsIndex) 1
      (State.start [byIsin settings q] shared outside) := .of_not_loading hshared.index
  obtain ⟨hs, hf⟩ := OneLoad.invariant.run hrun hone hstart
  obtain ⟨-, x, htold, hr⟩ := hf.result (i := 0) (b := r) rfl
  refine ⟨x, fun hisin => ?_, hr⟩
  have hready : y.index = .ready x := hs.ready_of_told (htold hisin)
  refine ⟨hready, fun z hz => ?_⟩
  cases hready.symm.trans (hone.ready_of_run hstart hz hrun)
  rfl

end

end LegalEntity.Resolver
