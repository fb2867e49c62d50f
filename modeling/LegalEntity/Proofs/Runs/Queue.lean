import LegalEntity.Proofs.Runs.Counts
import LegalEntity.Proofs.Runs.Served

namespace LegalEntity.Resolver

namespace Gate

variable {g g' : Gate} {caller : Nat}

def queue (g : Gate) : List Nat := g.waiting ++ g.handed

structure Orderly (g : Gate) : Prop where
  full : g.waiting ≠ [] → g.free = 0
  nodup : g.queue.Nodup

theorem orderly_of_slots (slots : Nat) : Orderly ⟨slots, [], []⟩ where
  full h := absurd rfl h
  nodup := List.nodup_nil

theorem Orderly.enter (h : g.Orderly) (he : g.enter caller = (true, g')) :
    g'.Orderly ∧ ∀ j, j ∈ g'.queue → j ∈ g.queue ∧ j ≠ caller := by
  have hnodup := h.nodup
  simp only [Gate.enter] at he
  split at he
  · rename_i hmem
    have hhanded : caller ∈ g.handed := List.contains_iff_mem.1 hmem
    cases he
    have hsub : (g.waiting ++ g.handed.erase caller).Sublist g.queue :=
      List.erase_sublist.append_left _
    refine ⟨⟨h.full, hnodup.sublist hsub⟩, fun j hj => ⟨hsub.subset hj, ?_⟩⟩
    rintro rfl
    cases List.mem_append.1 hj with
    | inl hj => exact (List.nodup_append.1 hnodup).2.2 j hj j hhanded rfl
    | inr hj => exact (List.nodup_append.1 hnodup).2.1.not_mem_erase hj
  · rename_i hmem
    have hhanded : caller ∉ g.handed := fun h => hmem (List.contains_iff_mem.2 h)
    split at he
    · rename_i hfree
      cases he
      have hwaiting : g.waiting = [] := by
        by_contra hne
        exact absurd (h.full hne) (Nat.ne_of_gt hfree)
      refine ⟨⟨fun hne => absurd hwaiting hne, hnodup⟩, fun j hj => ⟨hj, ?_⟩⟩
      rintro rfl
      rw [queue, hwaiting] at hj
      exact hhanded hj
    · split at he <;> cases he

theorem Orderly.enter_blocked (h : g.Orderly) (he : g.enter caller = (false, g')) :
    g'.Orderly ∧ ∀ j, j ∈ g'.queue → j ∈ g.queue ∨ j = caller := by
  simp only [Gate.enter] at he
  split at he
  · cases he
  · rename_i hmem
    have hhanded : caller ∉ g.handed := fun h => hmem (List.contains_iff_mem.2 h)
    split at he
    · cases he
    · rename_i hfree
      split at he
      · cases he
        exact ⟨h, fun j hj => .inl hj⟩
      · rename_i hmem'
        have hwaiting : caller ∉ g.waiting := fun h => hmem' (List.contains_iff_mem.2 h)
        cases he
        have hperm : ((g.waiting ++ [caller]) ++ g.handed).Perm (caller :: g.queue) := by
          rw [List.append_assoc, List.singleton_append]
          exact List.perm_middle
        refine ⟨⟨fun _ => Nat.eq_zero_of_not_pos hfree, hperm.nodup_iff.2 ?_⟩, fun j hj => ?_⟩
        · apply List.nodup_cons.2
          refine ⟨fun hin => ?_, h.nodup⟩
          cases List.mem_append.1 hin with
          | inl hin => exact hwaiting hin
          | inr hin => exact hhanded hin
        · cases List.mem_cons.1 (hperm.mem_iff.1 hj) with
          | inl hj => exact .inr hj
          | inr hj => exact .inl hj

theorem Orderly.leave (h : g.Orderly) : g.leave.Orderly ∧ ∀ j, j ∈ g.leave.queue → j ∈ g.queue := by
  have hfull := h.full
  have hnodup := h.nodup
  unfold Gate.leave
  unfold queue at hnodup ⊢
  split
  · rename_i hwaiting
    exact ⟨⟨fun hne => absurd hwaiting hne, hnodup⟩, fun j hj => hj⟩
  · rename_i caller rest hwaiting
    rw [hwaiting] at hfull hnodup
    have hperm : (rest ++ caller :: g.handed).Perm (caller :: rest ++ g.handed) := List.perm_middle
    refine ⟨⟨fun _ => hfull (List.cons_ne_nil _ _), hperm.nodup_iff.2 hnodup⟩, fun j hj => ?_⟩
    rw [hwaiting]
    exact hperm.mem_iff.1 hj

theorem enter_of_mem_handed (h : caller ∈ g.handed) : (g.enter caller).1 = true := by
  rw [Gate.enter, if_pos (List.contains_iff_mem.2 h)]

theorem enter_of_free (h : 0 < g.free) : (g.enter caller).1 = true := by
  simp only [Gate.enter, if_pos h]
  split <;> rfl

end Gate

def slotContract : Contract Bool where
  start := false
  allows
    | false, op => op ≠ .leave
    | true, op => op ≠ .enter
  expects _ _ _ := True
  next
    | _, .enter, _ => true
    | _, .leave, _ => false
    | holds, _, _ => holds

theorem slot_quiet {op : Op} (h : op.ofGate = false) (holds : Bool) :
    slotContract.allows holds op ∧ ∀ a, slotContract.next holds op a = holds := by
  cases op with
  | enter | leave => cases h
  | _ => cases holds <;> exact ⟨nofun, fun _ => rfl⟩

theorem Op.ofGate_of_ofSearch {op : Op} (h : op.ofSearch = true) : op.ofGate = false := by
  cases op with
  | enter | leave => cases h
  | _ => rfl

theorem Op.ofGate_of_ofName {key : String} {op : Op} (h : op.ofName key) : op.ofGate = false := by
  rcases h with h | rfl | ⟨v, rfl⟩
  · exact Op.ofGate_of_ofSearch h
  · rfl
  · rfl

def searchContract : Contract Bool where
  start := false
  allows holds op := slotContract.allows holds op ∧ (op.ofSearch = true → holds = true)
  expects _ _ _ := True
  next := slotContract.next

@[simp] theorem place_searchContract (i : Nat) (log : List Event) :
    searchContract.place i log = slotContract.place i log := by
  induction log with
  | nil => rfl
  | cons e log ih =>
    change (if e.caller = i then slotContract.next (searchContract.place i log) e.op e.answer
      else searchContract.place i log) = _
    rw [ih]
    rfl

theorem Dialogue.Asks.keeps_search {t : Dialogue α} {P : Op → Prop} {holds : Bool} (h : t.Asks P)
    (hP : ∀ op, P op → op.ofGate = false ∧ (op.ofSearch = true → holds = true)) :
    t.Keeps searchContract (fun _ holds' => holds' = holds) holds :=
  h.keeps (fun op hop => ⟨⟨(slot_quiet (hP op hop).1 holds).1, (hP op hop).2⟩,
    (slot_quiet (hP op hop).1 holds).2⟩) fun _ => rfl

theorem outside_keeps_search {s : Settings α} {t : Dialogue β} (h : t.Asks (·.getsIndex s)) :
    t.Keeps searchContract (fun _ holds => holds = false) false :=
  h.keeps_search fun _ hop =>
    ⟨(Op.quiet_of_getsIndex hop).1, fun h => nomatch (Op.quiet_of_getsIndex hop).2.symm.trans h⟩

theorem inside_keeps_search {t : Dialogue α} {P : Op → Prop} (h : t.Asks P)
    (hP : ∀ op, P op → op.ofGate = false) :
    (Dialogue.bind (.perform .enter) fun _ => t.bind fun r =>
      Dialogue.bind (.perform .leave) fun _ => .done r).Keeps searchContract
      (fun _ holds => holds = false) false := by
  apply Dialogue.keeps_perform_bind.2
  refine ⟨⟨nofun, nofun⟩, fun _ _ => ?_⟩
  apply Dialogue.keeps_bind.2
  apply (h.keeps_search fun op hop => ⟨hP op hop, fun _ => rfl⟩).mono
  intro r holds hholds
  subst hholds
  exact ⟨⟨nofun, nofun⟩, fun _ _ => rfl⟩

section

variable [Scalar α] (s : Settings α)

theorem resolve_keeps_search (q : Query) :
    (resolve s q).Keeps searchContract (fun _ holds => holds = false) false := by
  apply Dialogue.keeps_bind.2
  apply (outside_keeps_search (byIsin_asks q)).mono
  intro r holds hholds
  subst hholds
  cases r with
  | some r => rfl
  | none =>
    apply Dialogue.keeps_bind.2
    apply cachedOutcome_keeps.2
    refine ⟨⟨nofun, nofun⟩, fun a _ => ?_⟩
    cases Cache.decoded? NameOutcome.ofDocument? a with
    | some outcome => rfl
    | none => exact inside_keeps_search (bySearch_asks q _) (fun _ => Op.ofGate_of_ofName)

theorem explain_keeps_search (name : String) :
    (explain s name).Keeps searchContract (fun _ holds => holds = false) false :=
  inside_keeps_search (search_asks name) fun _ => Op.ofGate_of_ofSearch

theorem Call.keeps_search (call : Call) :
    (call.dialogue s).Keeps searchContract (fun _ holds => holds = false) false := by
  cases call with
  | resolve q => exact Dialogue.keeps_bind.2 (resolve_keeps_search s q)
  | index => exact Dialogue.keeps_bind.2 (outside_keeps_search theIndex_asks)
  | explain name => exact Dialogue.keeps_bind.2 (explain_keeps_search s name)

theorem Dialogue.Keeps.slot {t : Dialogue β} {post : β → Bool → Prop} {holds : Bool}
    (h : t.Keeps searchContract post holds) : t.Keeps slotContract post holds :=
  h.weaken (fun _ _ hallow => hallow.1) (fun _ _ _ _ => trivial) fun _ _ _ => rfl

theorem Call.keeps_slot (call : Call) :
    (call.dialogue s).Keeps slotContract (fun _ holds => holds = false) false :=
  (call.keeps_search s).slot

end

section

variable {σ α : Type} {w : Surroundings σ} {s t : State σ α} {i j : Nat} {op : Op}
  {next : op.Answer → Dialogue α} {a : op.Answer} {shared : Shared} {outside : σ} {slots : Nat}

def State.holds (s : State σ α) (i : Nat) : Bool := slotContract.place i s.log

def State.inside (s : State σ α) : Nat := (List.range s.calls.length).countP s.holds

theorem State.StandsAt.unique {op' : Op} (h : s.StandsAt i op) (h' : s.StandsAt i op') : op = op' := by
  obtain ⟨next, h⟩ := h
  obtain ⟨next', h'⟩ := h'
  cases h.symm.trans h'
  rfl

theorem State.StandsAt.goOn {op' : Op} (h : s.StandsAt j op') (hij : i ≠ j) :
    (s.goOn i op next a shared outside).StandsAt j op' := by
  obtain ⟨next', h⟩ := h
  exact ⟨next', (State.calls_goOn_of_ne hij shared outside).trans h⟩

theorem State.inside_goOn (hi : i < s.calls.length) :
    (s.goOn i op next a shared outside).inside + (s.holds i).toNat =
      s.inside + (slotContract.next (s.holds i) op a).toNat := by
  have hself : (s.goOn i op next a shared outside).holds i = slotContract.next (s.holds i) op a :=
    Contract.place_cons_self ..
  have hothers (j : Nat) (hij : i ≠ j) :
      (s.goOn i op next a shared outside).holds j = s.holds j :=
    Contract.place_cons_of_ne _ hij ..
  have hlength : (s.goOn i op next a shared outside).calls.length = s.calls.length :=
    List.length_set
  rw [State.inside, hlength, ← hself]
  exact countP_range_update hi hothers

/-- No slot is lost, and whoever is in the queue at the gate stands there. -/
structure InTurn (slots : Nat) (s : State σ α) : Prop where
  orderly : s.shared.gate.Orderly
  spare : s.shared.gate.spare + s.inside = slots
  stands : ∀ i, i ∈ s.shared.gate.queue → s.StandsAt i .enter

theorem InTurn.start (calls : List (Dialogue α)) (outside : σ)
    (h : shared.gate = ⟨slots, [], []⟩) : InTurn slots (.start calls shared outside) where
  orderly := by
    rw [show (State.start calls shared outside).shared = shared from rfl, h]
    exact Gate.orderly_of_slots slots
  spare := by
    have hnone : (State.start calls shared outside).inside = 0 := by
      simp [State.inside, State.holds, State.start, slotContract]
    rw [hnone, show (State.start calls shared outside).shared = shared from rfl, h]
    rfl
  stands i hi := by
    rw [show (State.start calls shared outside).shared = shared from rfl, h] at hi
    cases hi

theorem InTurn.queue_answer (hs : InTurn slots s) (hi : s.StandsAt i op)
    (h : w.Serves i op a (s.shared, s.outside) (shared, outside)) :
    shared.gate.Orderly ∧ ∀ j, j ∈ shared.gate.queue → j ∈ s.shared.gate.queue ∧ j ≠ i := by
  have hother (hop : op ≠ .enter) (j : Nat) (hj : j ∈ s.shared.gate.queue) : j ≠ i := by
    rintro rfl
    exact hop (hi.unique (hs.stands j hj))
  by_cases henter : op = .enter
  · subst henter
    exact hs.orderly.enter h.enter_gate
  · by_cases hleave : op = .leave
    · subst hleave
      obtain ⟨horderly, hqueue⟩ := hs.orderly.leave
      rw [h.leave_gate]
      exact ⟨horderly, fun j hj => ⟨hqueue j hj, hother henter j (hqueue j hj)⟩⟩
    · rw [h.gate_eq henter hleave]
      exact ⟨hs.orderly, fun j hj => ⟨hj, hother henter j hj⟩⟩

theorem InTurn.spare_answer (hs : InTurn slots s) (hi : s.calls[i]? = some (.ask op next))
    (hop : slotContract.allows (s.holds i) op)
    (h : w.Serves i op a (s.shared, s.outside) (shared, outside)) :
    shared.gate.spare + (s.goOn i op next a shared outside).inside = slots := by
  have hinside : (s.goOn i op next a shared outside).inside + (s.holds i).toNat =
      s.inside + (slotContract.next (s.holds i) op a).toNat :=
    State.inside_goOn (List.getElem?_eq_some_iff.1 hi).1
  have hspare := hs.spare
  by_cases henter : op = .enter
  · subst henter
    have hout : s.holds i = false := by
      cases hholds : s.holds i with
      | false => rfl
      | true =>
        rw [hholds] at hop
        exact absurd rfl hop
    have hgate := h.enter
    rw [hout] at hinside
    simp only [slotContract, Bool.toNat_true, Bool.toNat_false] at hinside
    omega
  · by_cases hleave : op = .leave
    · subst hleave
      have hin : s.holds i = true := by
        cases hholds : s.holds i with
        | true => rfl
        | false =>
          rw [hholds] at hop
          exact absurd rfl hop
      have hgate := h.leave
      rw [hin] at hinside
      simp only [slotContract, Bool.toNat_true, Bool.toNat_false] at hinside
      omega
    · have hquiet : op.ofGate = false := by
        cases op with
        | enter => exact absurd rfl henter
        | leave => exact absurd rfl hleave
        | _ => rfl
      rw [(slot_quiet hquiet _).2 a] at hinside
      rw [h.gate_eq henter hleave]
      omega

theorem InTurn.invariant {post : Nat → α → Bool → Prop} :
    Invariant w (fun _ => slotContract) post (InTurn slots) where
  answer hs hf hi h := by
    refine ⟨trivial, ?_⟩
    obtain ⟨horderly, hqueue⟩ := hs.queue_answer ⟨_, hi⟩ h
    refine ⟨horderly, hs.spare_answer hi (hf.allows ⟨_, hi⟩) h, fun j hj => ?_⟩
    obtain ⟨hj, hne⟩ := hqueue j hj
    exact (hs.stands j hj).goOn (Ne.symm hne)
  wait {s i op next shared} hs hf hi hb := by
    have hspare : shared.gate.spare = s.shared.gate.spare := Shared.spare_of_blocked hb
    cases Shared.gate_of_blocked hb with
    | inl henter =>
      obtain ⟨rfl, hgate⟩ := henter
      obtain ⟨horderly, hqueue⟩ := hs.orderly.enter_blocked hgate
      refine ⟨horderly, hspare ▸ hs.spare, fun j hj => ?_⟩
      cases hqueue j hj with
      | inl hj => exact hs.stands j hj
      | inr hj =>
        subst hj
        exact ⟨next, hi⟩
    | inr hgate => exact ⟨hgate ▸ hs.orderly, hspare ▸ hs.spare, fun j hj => hs.stands j (hgate ▸ hj)⟩

end

end LegalEntity.Resolver
