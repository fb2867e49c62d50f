import LegalEntity.Proofs.Runs.Asked
import LegalEntity.Proofs.Runs.Calls

namespace LegalEntity.Resolver

def Contract.atMost (p : Op → Bool) (most : Nat) : Contract Nat where
  start := 0
  allows n op := n + (p op).toNat ≤ most
  expects _ _ _ := True
  next n op _ := n + (p op).toNat

namespace Dialogue

variable {α β : Type} {p : Op → Bool} {t : Dialogue α} {m n : Nat}

def Costs (p : Op → Bool) (t : Dialogue α) (n : Nat) : Prop :=
  ∀ most k, k + n ≤ most → t.Keeps (.atMost p most) (fun _ k' => k' ≤ k + n) k

theorem Costs.mono (h : t.Costs p m) (hmn : m ≤ n) : t.Costs p n := by
  intro most k hk
  apply (h most k (by omega)).mono
  intro _ k' hk'
  omega

theorem Costs.bind {f : α → Dialogue β} (ht : t.Costs p m) (hf : ∀ a, (f a).Costs p n) :
    (t.bind f).Costs p (m + n) := by
  intro most k hk
  apply keeps_bind.2
  apply (ht most k (by omega)).mono
  intro a k' hk'
  apply (hf a most k' (by omega)).mono
  intro b k'' hk''
  omega

theorem Costs.done (a : α) : (done a).Costs p 0 := fun _ _ _ => Nat.le_refl _

theorem Costs.ask {op : Op} {next : op.Answer → Dialogue α} (h : ∀ a, (next a).Costs p n) :
    (ask op next).Costs p ((p op).toNat + n) := by
  intro most k hk
  refine ⟨?_, fun a _ => ?_⟩
  · change k + (p op).toNat ≤ most
    omega
  · apply (h a most (k + (p op).toNat) (by omega)).mono
    intro _ k' hk'
    omega

theorem Costs.ask_of_not {op : Op} {next : op.Answer → Dialogue α} (hop : p op = false)
    (h : ∀ a, (next a).Costs p n) : (Dialogue.ask op next).Costs p n := by
  have hask := Costs.ask h
  rwa [hop, Bool.toNat_false, Nat.zero_add] at hask

theorem Asks.costs {P : Op → Prop} (h : t.Asks P) (hP : ∀ op, P op → p op = false) :
    t.Costs p 0 := by
  intro most k hk
  apply h.keeps
  · intro op hop
    simp only [Contract.atMost, hP op hop]
    exact ⟨hk, fun _ => rfl⟩
  · exact fun _ => Nat.le_refl k

end Dialogue

section

variable {α : Type} {s : Settings α} {url : String} {parameters : Registry.Parameters}

theorem attempts_costs (h : parameters ≠ []) (delays : List Duration) :
    (attempts url parameters delays).Costs Op.isRequest delays.length := by
  induction delays with
  | nil => exact .done none
  | cons delay delays ih =>
    have send : (Dialogue.ask (.fetch url parameters) (onOutcome url parameters delays)).Costs
        Op.isRequest (delays.length + 1) := by
      rw [Nat.add_comm, show 1 = (Op.isRequest (.fetch url parameters)).toNat by simp [h]]
      apply Dialogue.Costs.ask
      intro outcome
      cases outcome with
      | error e => exact (Dialogue.Costs.done _).mono (Nat.zero_le _)
      | ok reply =>
        rw [onOutcome]
        split
        · exact ih
        · exact (Dialogue.Costs.done _).mono (Nat.zero_le _)
    rw [attempts_cons]
    split
    · exact send
    · exact .ask_of_not rfl fun _ => send

theorem length_schedule (p : Retry.Policy) (entropy : UInt64) :
    (p.schedule entropy).length = min p.attempts Retry.Policy.maxAttempts + 1 := by
  simp [Retry.Policy.schedule, Retry.Policy.backoff, Retry.backoffDelays]

theorem request_costs (h : parameters ≠ []) (p : Retry.Policy)
    (read : Registry.Reply → Option (List β)) :
    (request p url parameters read).Costs Op.isRequest
      (min p.attempts Retry.Policy.maxAttempts + 1) := by
  have hsend {f : Option Registry.Reply → Dialogue (List β)}
      (hf : ∀ r, (f r).Costs Op.isRequest 0) (entropy : UInt64) :
      ((attempts url parameters (p.schedule entropy)).bind f).Costs Op.isRequest
        (min p.attempts Retry.Policy.maxAttempts + 1) := by
    have hattempts : (attempts url parameters (p.schedule entropy)).Costs Op.isRequest
        (p.schedule entropy).length := attempts_costs h _
    rw [length_schedule] at hattempts
    exact hattempts.bind hf
  unfold request schedule
  split
  · apply hsend
    intro r
    cases r <;> exact .done _
  · apply Dialogue.Costs.ask_of_not rfl
    apply hsend
    intro r
    cases r <;> exact .done _

end

section

variable {α : Type} {s : Settings α}

theorem onlyActive_costs (es : List Entity) : (onlyActive s es).Costs Op.isRequest
    (min s.retry.attempts Retry.Policy.maxAttempts + 1) := by
  rw [onlyActive]
  split
  · exact (Dialogue.Costs.done _).mono (Nat.zero_le _)
  · exact (request_costs (by simp) _ _).bind (n := 0) fun _ => .done _

theorem search_costs [Scalar α] (name : String) : (search s name).Costs Op.isRequest
    (3 * (min s.retry.attempts Retry.Policy.maxAttempts + 1)) := by
  have hparents (lei : String) : (fetchParents s lei).Costs Op.isRequest
      (min s.retry.attempts Retry.Policy.maxAttempts + 1) := request_costs (by simp) _ _
  have hsearch : (searchByName s name).Costs Op.isRequest
      (2 * (min s.retry.attempts Retry.Policy.maxAttempts + 1)) := by
    rw [Nat.two_mul]
    exact (request_costs (by simp) _ _).bind fun es => onlyActive_costs es
  simp only [search]
  split
  · exact (Dialogue.Costs.done _).mono (Nat.zero_le _)
  · rw [Nat.succ_mul 2]
    apply hsearch.bind
    intro es
    split
    · exact (Dialogue.Costs.done _).mono (Nat.zero_le _)
    · exact (hparents _).bind (n := 0) fun _ => .done _

theorem bySearch_costs [Scalar α] (q : Query) (key : String) :
    (bySearch s q key).Costs Op.isRequest
      (3 * (min s.retry.attempts Retry.Policy.maxAttempts + 1)) := by
  refine .ask_of_not rfl fun a => ?_
  dsimp only [Dialogue.done_bind, Dialogue.pure_eq, Dialogue.bind_eq]
  cases Cache.decoded? NameOutcome.ofDocument? a with
  | some outcome => exact (Dialogue.Costs.done _).mono (Nat.zero_le _)
  | none => exact (search_costs q.name).bind (n := 0) fun _ => .ask_of_not rfl fun _ => .done _

/-- A call asks for three pages at the most, each once and then as often as its policy allows. -/
theorem resolve_costs [Scalar α] (q : Query) : (resolve s q).Costs Op.isRequest
    (3 * (min s.retry.attempts Retry.Policy.maxAttempts + 1)) := by
  have hindex : (byIsin s q).Costs Op.isRequest 0 := (byIsin_asks q).costs fun op hop =>
    Bool.eq_false_iff.2 fun hrequest =>
      nomatch (Op.quiet_of_getsIndex hop).2.symm.trans (Op.ofSearch_of_isRequest hrequest)
  rw [← Nat.zero_add (3 * _)]
  apply hindex.bind
  intro r
  cases r with
  | some r => exact (Dialogue.Costs.done _).mono (Nat.zero_le _)
  | none =>
    refine .ask_of_not rfl fun a => ?_
    dsimp only [Dialogue.done_bind, Dialogue.pure_eq, Dialogue.bind_eq]
    cases Cache.decoded? NameOutcome.ofDocument? a with
    | some outcome => exact (Dialogue.Costs.done _).mono (Nat.zero_le _)
    | none =>
      refine .ask_of_not rfl fun _ => ?_
      exact (bySearch_costs q _).bind (n := 0) fun _ => .ask_of_not rfl fun _ => .done _

end

section

variable {σ α : Type} {p : Op → Bool} {most i : Nat} {s : State σ α}

theorem Contract.place_atMost (p : Op → Bool) (most i : Nat) (log : List Event) :
    (Contract.atMost p most).place i log = (log.filter (·.caller == i)).countP (p ·.op) := by
  induction log with
  | nil => rfl
  | cons e log ih =>
    by_cases hi : e.caller = i
    · rw [Contract.place, if_pos hi, ih, List.filter_cons_of_pos (by simpa using hi),
        List.countP_cons]
      cases hop : p e.op <;> simp [Contract.atMost, hop]
    · rw [Contract.place, if_neg hi, ih, List.filter_cons_of_neg (by simpa using hi)]

theorem State.countP_askedBy (h : i < s.calls.length) : (s.askedBy i).countP p =
    (s.calls[i].op?.any p).toNat + (s.log.filter (·.caller == i)).countP (p ·.op) := by
  rw [State.askedBy, List.countP_append, List.countP_map, List.getElem?_eq_getElem h,
    Option.bind_some]
  congr 1
  cases s.calls[i].op? with
  | none => rfl
  | some op => cases hop : p op <;> simp [hop]

theorem State.Follows.countP_askedBy_le
    (hf : s.Follows (fun _ => .atMost p most) fun _ _ n => n ≤ most) (hi : i < s.calls.length) :
    (s.askedBy i).countP p ≤ most := by
  have hkeeps := hf i _ (List.getElem?_eq_getElem hi)
  rw [Contract.place_atMost] at hkeeps
  rw [State.countP_askedBy hi]
  cases hcall : s.calls[i] with
  | done a =>
    rw [hcall] at hkeeps
    exact (Nat.zero_add _).symm ▸ hkeeps
  | ask op next =>
    rw [hcall] at hkeeps
    rw [Nat.add_comm]
    exact hkeeps.1

theorem State.countP_asked_take_le (h : ∀ i, i < s.calls.length → (s.askedBy i).countP p ≤ most)
    {n : Nat} (hn : n ≤ s.calls.length) :
    (s.calls.take n).countP (fun t => t.op?.any p) +
      s.log.countP (fun e => decide (e.caller < n) && p e.op) ≤ n * most := by
  induction n with
  | zero => simp
  | succ n ih =>
    have hcall : n < s.calls.length := hn
    have hself := h n hcall
    rw [State.countP_askedBy hcall] at hself
    rw [List.take_succ_eq_append_getElem hcall, List.countP_append, List.countP_singleton,
      countP_lt_succ]
    have hrest := ih (Nat.le_of_lt hcall)
    rw [Nat.succ_mul]
    cases hop : s.calls[n].op?.any p <;> simp [hop] at hself ⊢ <;> omega

theorem State.countP_asked_le_mul (hcallers : ∀ e ∈ s.log, e.caller < s.calls.length)
    (h : ∀ i, i < s.calls.length → (s.askedBy i).countP p ≤ most) :
    s.asked.countP p ≤ s.calls.length * most := by
  have hall := State.countP_asked_take_le h (Nat.le_refl _)
  rw [List.take_length] at hall
  rw [State.countP_asked]
  have hlog : s.log.countP (p ·.op) =
      s.log.countP fun e => decide (e.caller < s.calls.length) && p e.op := by
    apply List.countP_congr
    intro e he
    simp [hcallers e he]
  rwa [hlog]

end

end LegalEntity.Resolver
