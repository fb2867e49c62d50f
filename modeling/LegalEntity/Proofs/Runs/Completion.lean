import LegalEntity.Proofs.Index.OneLoad
import LegalEntity.Proofs.Runs.Slots

namespace LegalEntity.Resolver

section

variable {α : Type}

def Dialogue.After (u t : Dialogue α) : Prop := ∃ op next a, t = .ask op next ∧ u = next a

def CallsAfter (us ts : List (Dialogue α)) : Prop :=
  ∃ i t u, ts[i]? = some t ∧ Dialogue.After u t ∧ us = ts.set i u

theorem Dialogue.acc_after (t : Dialogue α) : Acc Dialogue.After t := by
  induction t with
  | done a =>
    constructor
    rintro u ⟨op, next, a, h, -⟩
    cases h
  | ask op next ih =>
    constructor
    rintro u ⟨op', next', a, h, rfl⟩
    cases h
    exact ih a

theorem acc_callsAfter_cons {t : Dialogue α} {ts : List (Dialogue α)} (ht : Acc Dialogue.After t)
    (hts : Acc CallsAfter ts) : Acc CallsAfter (t :: ts) := by
  -- Either the first call goes on, to an earlier `t`, or one of the others, with the same `t`.
  induction ht generalizing ts with
  | intro t _ iht =>
    induction hts with
    | intro ts hts ihts =>
      constructor
      rintro us ⟨i, v, u, hi, hu, rfl⟩
      cases i with
      | zero =>
        cases hi
        exact iht u hu (.intro ts hts)
      | succ i => exact ihts _ ⟨i, v, u, hi, hu, rfl⟩

theorem callsAfter_wellFounded : WellFounded (CallsAfter (α := α)) := by
  constructor
  intro ts
  induction ts with
  | nil =>
    constructor
    rintro us ⟨i, t, u, hi, -⟩
    cases hi
  | cons t ts ih => exact acc_callsAfter_cons t.acc_after ih

theorem State.callsAfter_goOn {σ : Type} {s : State σ α} {i : Nat} {op : Op}
    {next : op.Answer → Dialogue α} (hi : s.calls[i]? = some (.ask op next)) (a : op.Answer)
    (shared : Shared) (outside : σ) :
    CallsAfter (s.goOn i op next a shared outside).calls s.calls :=
  ⟨i, _, _, hi, ⟨op, next, a, rfl, rfl⟩, rfl⟩

end

section

variable {σ α : Type} {w : Surroundings σ} {s : State σ α} {i : Nat} {op : Op}

structure Surroundings.Responsive (w : Surroundings σ) : Prop where
  reads : ∀ o key, ∃ a p, w.reads o key a p
  writes : ∀ o key v, ∃ a p, w.writes o key v a p
  replies : ∀ o url parameters, ∃ a p, w.replies o url parameters a p
  delivers : ∀ o url, ∃ a file p, w.delivers o url a file p

theorem Surroundings.offline_responsive : Surroundings.offline.Responsive where
  reads o _ := ⟨.ok none, o, rfl⟩
  writes o _ _ := ⟨.ok (), o, rfl⟩
  replies o _ _ := ⟨.error .io, o, rfl⟩
  delivers o _ := ⟨.error .io, none, o, rfl, rfl⟩

theorem Surroundings.Responsive.serves (hw : w.Responsive) (x : Shared) (o : σ)
    (henter : op = .enter → (x.gate.enter i).1 = true)
    (hclaim : op = .claimIndex → x.index ≠ .loading) :
    ∃ a y p, w.Serves i op a (x, o) (y, p) := by
  cases op with
  | lookUp key =>
    obtain ⟨a, p, h⟩ := hw.reads o key
    exact ⟨a, x, p, h, rfl⟩
  | keep key v =>
    obtain ⟨a, p, h⟩ := hw.writes o key v
    exact ⟨a, x, p, h, rfl⟩
  | fetch url parameters =>
    obtain ⟨a, p, h⟩ := hw.replies o url parameters
    exact ⟨a, x, p, h, rfl⟩
  | download url scratch =>
    obtain ⟨a, file, p, h⟩ := hw.delivers o url
    exact ⟨a, _, p, file, h, rfl⟩
  | pause span => exact ⟨(), x, o, rfl⟩
  | draw => exact ⟨(0 : UInt64), x, o, rfl⟩
  | enter =>
    refine ⟨(), { x with gate := (x.gate.enter i).2 }, o, ?_, rfl⟩
    simp only [Shared.serve, henter rfl, if_true]
  | claimIndex =>
    cases hcell : x.index with
    | unclaimed => exact ⟨.load, { x with index := .loading }, o, by simp [Shared.serve, hcell], rfl⟩
    | loading => exact absurd hcell (hclaim rfl)
    | ready y => exact ⟨.ready y, x, o, by simp [Shared.serve, hcell], rfl⟩
  | openScratch => exact ⟨_, _, o, .inl rfl, rfl⟩
  | leave | publishIndex | readScratch | closeScratch => exact ⟨_, _, o, rfl, rfl⟩

def State.Finished (s : State σ α) : Prop := ∀ t ∈ s.calls, ∃ a, t = .done a

def State.CanGoOn (w : Surroundings σ) (s : State σ α) : Prop :=
  ∃ i op a shared outside, s.StandsAt i op ∧
    w.Serves i op a (s.shared, s.outside) (shared, outside)

theorem State.stands_of_not_finished (h : ¬s.Finished) : ∃ i op, s.StandsAt i op := by
  simp only [State.Finished, not_forall] at h
  obtain ⟨t, ht, hnot⟩ := h
  obtain ⟨i, hi⟩ := List.mem_iff_getElem?.1 ht
  cases t with
  | done a => exact absurd ⟨a, rfl⟩ hnot
  | ask op next => exact ⟨i, op, next, hi⟩

theorem State.Finished.not_stands (h : s.Finished) : ¬s.StandsAt i op := by
  rintro ⟨next, hi⟩
  obtain ⟨a, ha⟩ := h _ (List.mem_of_getElem? hi)
  cases ha

theorem State.Finished.result (h : s.Finished) (hi : i < s.calls.length) :
    ∃ a, s.result? i = some a := by
  obtain ⟨a, ha⟩ := h _ (List.getElem_mem hi)
  refine ⟨a, ?_⟩
  rw [State.result?, List.getElem?_eq_getElem hi, ha]
  rfl

theorem Run.caller_lt {t : State σ α} (h : Run w s t) (hs : ∀ e ∈ s.log, e.caller < s.calls.length) :
    ∀ e ∈ t.log, e.caller < t.calls.length := by
  induction h with
  | refl => exact hs
  | tail _ step ih =>
    cases step with
    | answer hi hw =>
      intro e he
      rw [State.goOn, List.length_set]
      cases List.mem_cons.1 he with
      | inl he =>
        subst he
        exact (List.getElem?_eq_some_iff.1 hi).1
      | inr he => exact ih e he
    | wait hi hb => exact ih

theorem State.stands_of_loading {needs : Nat → Bool} {most : Nat} {post : Nat → α → Knowledge → Prop}
    (hs : OneLoad needs most s) (hf : s.Follows (fun i => indexContract (needs i)) post)
    (hpost : ∀ i a k, post i a k → k.isLoading = false)
    (hcallers : ∀ e ∈ s.log, e.caller < s.calls.length) (hcell : s.shared.index = .loading) :
    ∃ i op, s.StandsAt i op ∧ op ≠ .enter ∧ op ≠ .claimIndex := by
  unfold OneLoad at hs
  rw [hcell] at hs
  obtain ⟨-, i, m, b, hk, -⟩ := hs
  have hi : i < s.calls.length := by
    by_contra hnot
    have hfresh : ∀ e ∈ s.log, e.caller ≠ i := by
      rintro e he rfl
      exact hnot (hcallers e he)
    rw [State.knowledge, Contract.place_of_forall_ne _ hfresh] at hk
    cases hk
  have ht : s.calls[i]? = some s.calls[i] := List.getElem?_eq_getElem hi
  cases hcall : s.calls[i] with
  | done a =>
    rw [hcall] at ht
    have hloading := hpost i a _ (hf i _ ht)
    change (s.knowledge needs i).isLoading = false at hloading
    rw [hk] at hloading
    cases hloading
  | ask op next =>
    rw [hcall] at ht
    have hallow := hf.allows ⟨next, ht⟩
    change (indexContract (needs i)).allows (s.knowledge needs i) op at hallow
    rw [hk] at hallow
    refine ⟨i, op, ⟨next, ht⟩, ?_, ?_⟩
    · rintro rfl
      exact hallow.2
    · rintro rfl
      exact hallow.2

/-- If every call that has not ended had to wait, then for nobody's slot and nobody's index. -/
theorem State.can_go_on {slots : Nat} (hw : w.Responsive) (hturn : InTurn slots s)
    (hslots : 0 < slots)
    (hslot : s.Follows (fun _ => slotContract) fun _ _ holds => holds = false)
    (hload : s.shared.index = .loading → ∃ i op, s.StandsAt i op ∧ op ≠ .enter ∧ op ≠ .claimIndex)
    (hnot : ¬s.Finished) : s.CanGoOn w := by
  by_contra hstuck
  have waits {i : Nat} {op : Op} (hi : s.StandsAt i op) :
      (op = .enter ∧ (s.shared.gate.enter i).1 = false) ∨
        (op = .claimIndex ∧ s.shared.index = .loading) := by
    by_contra hfree
    simp only [not_or, not_and, Bool.not_eq_false] at hfree
    obtain ⟨a, y, p, h⟩ := hw.serves s.shared s.outside hfree.1 hfree.2
    exact hstuck ⟨i, op, a, y, p, hi, h⟩
  -- Whoever loads the index waits for nothing, so that nobody waits for it.
  have hcell : s.shared.index ≠ .loading := by
    intro hcell
    obtain ⟨i, op, hi, henter, hclaim⟩ := hload hcell
    cases waits hi with
    | inl h => exact henter h.1
    | inr h => exact hclaim h.1
  have atGate {i : Nat} {op : Op} (hi : s.StandsAt i op) :
      op = .enter ∧ (s.shared.gate.enter i).1 = false := by
    cases waits hi with
    | inl h => exact h
    | inr h => exact absurd h.2 hcell
  -- All stand at the gate then, none of them holds a slot, and some slot is free or handed over.
  have hinside : s.inside = 0 := by
    apply List.countP_eq_zero.2
    intro i hi hholds
    obtain ⟨op, hop, henter⟩ := State.stands_of_holds hslot (List.mem_range.1 hi) hholds
    exact henter (atGate hop).1
  have hspare := hturn.spare
  rw [hinside, Nat.add_zero, Gate.spare] at hspare
  obtain ⟨i, op, hi⟩ := State.stands_of_not_finished hnot
  obtain ⟨rfl, hout⟩ := atGate hi
  have hfree : ¬0 < s.shared.gate.free := by
    intro hfree
    rw [Gate.enter_of_free hfree] at hout
    cases hout
  obtain ⟨j, hj⟩ := List.exists_mem_of_length_pos (l := s.shared.gate.handed) (by omega)
  have hin := Gate.enter_of_mem_handed hj
  rw [(atGate (hturn.stands j (List.mem_append_right _ hj))).2] at hin
  cases hin

theorem Run.completes {s : State σ α} (h : ∀ t, Run w s t → ¬t.Finished → t.CanGoOn w) :
    ∃ t, Run w s t ∧ t.Finished := by
  generalize hcalls : s.calls = ts
  induction callsAfter_wellFounded.apply ts generalizing s with
  | intro ts _ ih =>
    subst hcalls
    by_cases hfinished : s.Finished
    · exact ⟨s, .refl, hfinished⟩
    · obtain ⟨i, op, a, shared, outside, ⟨next, hi⟩, hw⟩ := h s .refl hfinished
      have step : Step w s (s.goOn i op next a shared outside) := .answer hi hw
      obtain ⟨t, hrun, ht⟩ := ih _ (State.callsAfter_goOn hi a shared outside)
        (fun t hrun => h t (.head step hrun)) rfl
      exact ⟨t, .head step hrun, ht⟩

end

structure Shared.AtRest (slots : Nat) (x : Shared) : Prop where
  gate : x.gate = ⟨slots, [], []⟩
  index : x.index ≠ .loading

theorem Shared.AtRest.ofSettings {α : Type} {settings : Settings α} {given : Option IsinIndex}
    {shared : Shared} (h : Shared.ofSettings? settings given = some shared) : shared.AtRest settings.slots := by
  obtain ⟨hgate, hindex⟩ := Shared.ofSettings_eq h
  refine ⟨hgate, ?_⟩
  rw [hindex]
  intro h
  cases given with
  | none => cases h
  | some x => cases h

structure WellBehaved (needs : Nat → Bool) (ts : List (Dialogue α)) : Prop where
  slot : ∀ (i : Nat) (t : Dialogue α), ts[i]? = some t →
    t.Keeps slotContract (fun _ holds => holds = false) false
  index : ∀ (i : Nat) (t : Dialogue α), ts[i]? = some t →
    t.Keeps (indexContract (needs i)) (fun _ k => k.isLoading = false) .nothing

section

variable {σ α : Type} {w : Surroundings σ} {needs : Nat → Bool} {ts : List (Dialogue α)}
  {shared : Shared} {outside : σ} {slots : Nat} {s : State σ α}

theorem Shared.AtRest.follows (h : shared.AtRest slots) (hts : WellBehaved needs ts)
    (hrun : Run w (.start ts shared outside) s) :
    InTurn slots s ∧ s.Follows (fun _ => slotContract) fun _ _ holds => holds = false :=
  InTurn.invariant.run hrun (.start _ outside h.gate) (.start hts.slot)

theorem Shared.AtRest.oneLoad (h : shared.AtRest slots) (hts : WellBehaved needs ts)
    (hrun : Run w (.start ts shared outside) s) :
    OneLoad needs 1 s ∧
      s.Follows (fun i => indexContract (needs i)) fun _ _ k => k.isLoading = false :=
  OneLoad.invariant.run hrun (.of_not_loading h.index) (.start hts.index)

theorem Shared.AtRest.stands_of_loading (h : shared.AtRest slots) (hts : WellBehaved needs ts)
    (hrun : Run w (.start ts shared outside) s) (hcell : s.shared.index = .loading) :
    ∃ i op, s.StandsAt i op ∧ op ≠ .enter ∧ op ≠ .claimIndex := by
  obtain ⟨hs, hf⟩ := h.oneLoad hts hrun
  exact State.stands_of_loading hs hf (fun _ _ _ hk => hk) (hrun.caller_lt nofun) hcell

theorem Shared.AtRest.can_go_on (h : shared.AtRest slots) (hslots : 0 < slots) (hw : w.Responsive)
    (hts : WellBehaved needs ts) (hrun : Run w (.start ts shared outside) s) (hnot : ¬s.Finished) :
    s.CanGoOn w := by
  obtain ⟨hturn, hslot⟩ := h.follows hts hrun
  exact State.can_go_on hw hturn hslots hslot (h.stands_of_loading hts hrun) hnot

end

section

variable {σ α : Type} [Scalar α] {w : Surroundings σ} {settings : Settings α} {shared : Shared}
  {outside : σ} {calls : List Call} {slots : Nat} {s : State σ (Return α)}

theorem calls_wellBehaved : WellBehaved (fun i => calls[i]?.any (·.needsIndex))
    (calls.map (·.dialogue settings)) where
  slot i t hi := by
    rw [List.getElem?_map, Option.map_eq_some_iff] at hi
    obtain ⟨call, -, rfl⟩ := hi
    exact call.keeps_slot settings
  index i t hi := by
    rw [List.getElem?_map, Option.map_eq_some_iff] at hi
    obtain ⟨call, hcall, rfl⟩ := hi
    rw [hcall]
    exact call.keeps_index.mono fun _ _ hk => hk.1

theorem Shared.AtRest.completes (h : shared.AtRest slots) (hslots : 0 < slots) (hw : w.Responsive)
    (hrun : Run w (.start (calls.map (·.dialogue settings)) shared outside) s) :
    ∃ t, Run w s t ∧ t.Finished := by
  apply Run.completes
  intro t ht hnot
  exact h.can_go_on hslots hw calls_wellBehaved (hrun.trans ht) hnot

theorem Shared.AtRest.of_finished (h : shared.AtRest slots)
    (hrun : Run w (.start (calls.map (·.dialogue settings)) shared outside) s) (hs : s.Finished) :
    s.shared.AtRest slots := by
  obtain ⟨hturn, hslot⟩ := h.follows calls_wellBehaved hrun
  refine ⟨hturn.gate_of_idle hslot fun i hi => ?_, fun hcell => ?_⟩
  · obtain ⟨op, hop⟩ := hi.1
    exact hs.not_stands hop
  · obtain ⟨i, op, hi, -⟩ := h.stands_of_loading calls_wellBehaved hrun hcell
    exact hs.not_stands hi

end

end LegalEntity.Resolver
