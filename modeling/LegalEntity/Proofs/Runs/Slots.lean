import LegalEntity.Proofs.Runs.Queue

namespace LegalEntity.Resolver

section

variable {σ α : Type} {w : Surroundings σ} {s : State σ α} {i : Nat} {op : Op} {slots : Nat}

def State.admitted (s : State σ α) (i : Nat) : Bool := s.holds i || s.shared.gate.handed.contains i

def State.taken (s : State σ α) : Nat := (List.range s.calls.length).countP s.admitted

/-- The number of calls that wait for the reply to a request of their search, or for the next
attempt at one. -/
def State.searching (s : State σ α) : Nat := s.calls.countP fun t => t.op?.any Op.ofSearch

def State.Underway (s : State σ α) (i : Nat) : Prop :=
  (∃ op, s.StandsAt i op) ∧ ((∃ e ∈ s.log, e.caller = i) ∨ i ∈ s.shared.gate.queue)

theorem State.StandsAt.lt (h : s.StandsAt i op) : i < s.calls.length := by
  obtain ⟨next, h⟩ := h
  exact (List.getElem?_eq_some_iff.1 h).1

theorem State.stands_of_holds (hf : s.Follows (fun _ => slotContract) fun _ _ holds => holds = false)
    (hi : i < s.calls.length) (hholds : s.holds i = true) : ∃ op, s.StandsAt i op ∧ op ≠ .enter := by
  have ht : s.calls[i]? = some s.calls[i] := List.getElem?_eq_getElem hi
  cases hcall : s.calls[i] with
  | done a =>
    rw [hcall] at ht
    exact nomatch hholds.symm.trans (hf i _ ht)
  | ask op next =>
    rw [hcall] at ht
    have hallow := hf.allows ⟨next, ht⟩
    change slotContract.allows (s.holds i) op at hallow
    rw [hholds] at hallow
    exact ⟨op, ⟨next, ht⟩, hallow⟩

theorem State.follows_slots (hf : s.Follows (fun _ => searchContract) fun _ _ holds => holds = false) :
    s.Follows (fun _ => slotContract) fun _ _ holds => holds = false := by
  intro i t hi
  have h := (hf i t hi).slot
  rwa [place_searchContract] at h

theorem State.holds_of_ofSearch
    (hf : s.Follows (fun _ => searchContract) fun _ _ holds => holds = false)
    (hi : s.StandsAt i op) (hop : op.ofSearch = true) : s.holds i = true := by
  have hallow := (hf.allows hi).2 hop
  rwa [place_searchContract] at hallow

theorem InTurn.holds_of_handed (hs : InTurn slots s)
    (hf : s.Follows (fun _ => slotContract) fun _ _ holds => holds = false)
    (hi : i ∈ s.shared.gate.handed) : s.holds i = false := by
  have hallow := hf.allows (hs.stands i (List.mem_append_right _ hi))
  cases hholds : s.holds i with
  | false => rfl
  | true =>
    change slotContract.allows (s.holds i) .enter at hallow
    rw [hholds] at hallow
    exact absurd rfl hallow

theorem InTurn.free_add_taken (hs : InTurn slots s)
    (hf : s.Follows (fun _ => slotContract) fun _ _ holds => holds = false) :
    s.shared.gate.free + s.taken = slots := by
  have hhanded : (List.range s.calls.length).countP (s.shared.gate.handed.contains ·) =
      s.shared.gate.handed.length :=
    countP_range_contains (List.nodup_append.1 hs.orderly.nodup).2.1 fun i hi =>
      (hs.stands i (List.mem_append_right _ hi)).lt
  -- Whoever has been handed a slot is not inside yet, so that nobody is counted twice.
  have htaken : s.taken = s.inside + s.shared.gate.handed.length := by
    rw [← hhanded]
    apply countP_or_of_disjoint
    intro i _ hholds
    apply Bool.eq_false_iff.2
    intro hi
    rw [hs.holds_of_handed hf (List.contains_iff_mem.1 hi)] at hholds
    cases hholds
  have hspare := hs.spare
  rw [Gate.spare] at hspare
  omega

theorem State.searching_le_inside
    (hf : s.Follows (fun _ => searchContract) fun _ _ holds => holds = false) :
    s.searching ≤ s.inside := by
  rw [State.searching, countP_eq_countP_range]
  apply List.countP_mono_left
  intro i _ hi
  obtain ⟨t, ht, hop⟩ := (Option.any_eq_true ..).1 hi
  cases t with
  | done a => cases hop
  | ask op next => exact State.holds_of_ofSearch hf ⟨next, ht⟩ hop

theorem InTurn.gate_of_idle (hs : InTurn slots s)
    (hf : s.Follows (fun _ => slotContract) fun _ _ holds => holds = false)
    (hidle : ∀ i, ¬s.Underway i) : s.shared.gate = ⟨slots, [], []⟩ := by
  have hqueue : s.shared.gate.queue = [] := by
    apply List.eq_nil_iff_forall_not_mem.2
    intro j hj
    exact hidle j ⟨⟨_, hs.stands j hj⟩, .inr hj⟩
  have hinside : s.inside = 0 := by
    apply List.countP_eq_zero.2
    intro i hi hholds
    obtain ⟨op, hop, -⟩ := State.stands_of_holds hf (List.mem_range.1 hi) hholds
    apply hidle i
    refine ⟨⟨op, hop⟩, .inl ?_⟩
    by_contra hnone
    rw [State.holds, Contract.place_of_forall_ne _ fun e he h => hnone ⟨e, he, h⟩] at hholds
    cases hholds
  have hspare := hs.spare
  obtain ⟨hwaiting, hhanded⟩ := List.append_eq_nil_iff.1 hqueue
  rw [hinside, Gate.spare, hhanded] at hspare
  cases hgate : s.shared.gate with
  | mk free waiting handed =>
    rw [hgate] at hspare hwaiting hhanded
    cases hspare
    cases hwaiting
    cases hhanded
    rfl

end

section

variable {σ α : Type} [Scalar α] {w : Surroundings σ} {settings : Settings α}
  {given : Option IsinIndex} {shared : Shared} {outside : σ} {calls : List Call}
  {s : State σ (Return α)}

theorem calls_follow_search :
    (State.start (calls.map (·.dialogue settings)) shared outside).Follows
      (fun _ => searchContract) fun _ _ holds => holds = false :=
  calls_follow fun _ call _ => call.keeps_search settings

theorem calls_follow_slots :
    (State.start (calls.map (·.dialogue settings)) shared outside).Follows
      (fun _ => slotContract) fun _ _ holds => holds = false :=
  State.follows_slots calls_follow_search

/-- Whatever cache and registry do, and in whatever order the calls go on. Each slot is free or a
call has it, a request of a search is sent, or waited for before it is sent again, only by a call that
has a slot, one at a time, and when no call is under way all slots are free. -/
theorem slots_conserved (hshared : Shared.ofSettings? settings given = some shared)
    (hrun : Run w (.start (calls.map (·.dialogue settings)) shared outside) s) :
    s.shared.gate.free + s.taken = max settings.concurrency 1 ∧
      (∀ i op, s.StandsAt i op → op.ofSearch = true →
        s.admitted i = true ∧ ∀ op', s.StandsAt i op' → op' = op) ∧
      s.searching ≤ max settings.concurrency 1 ∧
      ((∀ i, ¬s.Underway i) → s.shared.gate = ⟨max settings.concurrency 1, [], []⟩) := by
  have hgate := (Shared.ofSettings_eq hshared).1
  obtain ⟨hs, hslot⟩ := InTurn.invariant.run hrun (.start _ outside hgate) calls_follow_slots
  have hf := hrun.follows (fun _ _ _ _ => trivial) calls_follow_search
  refine ⟨hs.free_add_taken hslot, fun i op hi hop => ⟨?_, fun op' hi' => hi'.unique hi⟩, ?_,
    hs.gate_of_idle hslot⟩
  · rw [State.admitted, State.holds_of_ofSearch hf hi hop, Bool.true_or]
  · have hspare := hs.spare
    have hle := State.searching_le_inside hf
    change s.searching ≤ settings.slots
    omega

end

theorem slots_conserved_while_one_waits :
    ∃ shared s t, Shared.ofSettings? (Settings.default (α := Rat)) none = some shared ∧
      Run .offline (.start ([Call.resolve (named "Acme"), .explain "Umbrella"].map
        (·.dialogue (.default (α := Rat)))) shared ()) s ∧
      (∃ op, s.StandsAt 0 op ∧ op.isRequest = true) ∧ s.shared.gate = ⟨0, [1], []⟩ ∧
      s.shared.gate.free + s.taken = 1 ∧ s.admitted 0 = true ∧ s.searching ≤ 1 ∧
      Run .offline (.start ([Call.resolve (named "Acme"), .explain "Umbrella"].map
        (·.dialogue (.default (α := Rat)))) shared ()) t ∧
      (∀ i, ¬t.Underway i) ∧ t.shared.gate = ⟨1, [], []⟩ := by
  have hshared : Shared.ofSettings? (Settings.default (α := Rat)) none =
      some ⟨⟨1, [], []⟩, .unclaimed, [], 0⟩ := rfl
  have hwaits : Run .offline (.start ([Call.resolve (named "Acme"), .explain "Umbrella"].map
      (·.dialogue (.default (α := Rat)))) ⟨⟨1, [], []⟩, .unclaimed, [], 0⟩ ()) _ :=
    .answer 0 rfl (.ok none) ⟨rfl, rfl⟩ <| .answer 0 rfl () ⟨rfl, rfl⟩ <|
    .answer 0 rfl (.ok none) ⟨rfl, rfl⟩ <| .wait 1 rfl rfl <| .answer 0 rfl (0 : UInt64) rfl .refl
  obtain ⟨t, hended, r, trace, hcalls⟩ : ∃ t, Run .offline (.start
      ([Call.resolve (named "Acme"), .explain "Umbrella"].map (·.dialogue (.default (α := Rat))))
      ⟨⟨1, [], []⟩, .unclaimed, [], 0⟩ ()) t ∧
      ∃ r trace, t.calls = [.done (.resolved r), .done (.explained trace)] := by
    have hended : Run .offline (.start ([Call.resolve (named "Acme"), .explain "Umbrella"].map
        (·.dialogue (.default (α := Rat)))) ⟨⟨1, [], []⟩, .unclaimed, [], 0⟩ ()) _ :=
      .answer 0 rfl (.ok none) ⟨rfl, rfl⟩ <| .answer 0 rfl () ⟨rfl, rfl⟩ <|
      .answer 0 rfl (.ok none) ⟨rfl, rfl⟩ <| .wait 1 rfl rfl <|
      .answer 0 rfl (0 : UInt64) rfl <| .answer 0 rfl (.error .io) ⟨rfl, rfl⟩ <|
      .answer 0 (show _ = some (.resolved <$> afterMiss (.default (α := Rat)) (named "Acme")) by
        with_unfolding_all rfl) (.ok ()) ⟨rfl, rfl⟩ <|
      .answer 0 rfl () ⟨rfl, rfl⟩ <| .answer 1 rfl () ⟨rfl, rfl⟩ <|
      .answer 1 rfl (0 : UInt64) rfl <| .answer 1 rfl (.error .io) ⟨rfl, rfl⟩ <|
      .answer 1 (show _ = some (Dialogue.ask .leave fun _ =>
        .done (Return.explained (.start Rat "Umbrella"))) by with_unfolding_all rfl) ()
        ⟨rfl, rfl⟩ .refl
    exact ⟨_, hended, _, _, rfl⟩
  have hnone : ∀ i, ¬t.Underway i := by
    rintro i ⟨⟨op, next, hi⟩, -⟩
    rw [hcalls] at hi
    match i with
    | 0 | 1 | i + 2 => cases hi
  obtain ⟨hfree, hsearch, hbound, -⟩ := slots_conserved hshared hwaits
  obtain ⟨-, -, -, hidle⟩ := slots_conserved hshared hended
  exact ⟨_, _, t, hshared, hwaits, ⟨_, ⟨_, rfl⟩, rfl⟩, rfl, hfree, (hsearch 0 _ ⟨_, rfl⟩ rfl).1,
    hbound, hended, hnone, hidle hnone⟩

end LegalEntity.Resolver
