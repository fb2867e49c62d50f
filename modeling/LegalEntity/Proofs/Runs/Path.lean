import LegalEntity.Proofs.Runs.Asked
import LegalEntity.Proofs.Runs.Calls

namespace LegalEntity.Resolver

namespace Dialogue

/-- What is left of a dialogue after the events of its caller, last first. -/
inductive Path (i : Nat) (t : Dialogue α) : List Event → Dialogue α → Prop
  | start : Path i t [] t
  | answer {es : List Event} {op : Op} {next : op.Answer → Dialogue α}
      (h : Path i t es (.ask op next)) (a : op.Answer) : Path i t (⟨i, op, a⟩ :: es) (next a)

section

variable {i : Nat} {t u v : Dialogue α} {f : α → Dialogue β} {es es' : List Event}

namespace Path

theorem trans (h : t.Path i es u) (h' : u.Path i es' v) : t.Path i (es' ++ es) v := by
  induction h' with
  | start => exact h
  | answer _ a ih => exact ih.answer a

theorem bind (h : t.Path i es u) (f : α → Dialogue β) : (t.bind f).Path i es (u.bind f) := by
  induction h with
  | start => exact .start
  | answer _ a ih => exact ih.answer a

theorem of_bind {u : Dialogue β} (h : (t.bind f).Path i es u) :
    (∃ v, t.Path i es v ∧ u = v.bind f) ∨
      ∃ a before later, es = later ++ before ∧ t.Path i before (.done a) ∧ (f a).Path i later u := by
  induction h with
  | start => exact .inl ⟨t, .start, rfl⟩
  | @answer es op next _ a ih =>
    rcases ih with ⟨v, hv, hbind⟩ | ⟨b, before, later, rfl, hbefore, hlater⟩
    · cases v with
      | done b =>
        have hlater : (f b).Path i [⟨i, op, a⟩] (next a) := by
          rw [← done_bind b f, ← hbind]
          exact Path.start.answer a
        exact .inr ⟨b, es, _, rfl, hv, hlater⟩
      | ask op' next' =>
        cases hbind
        exact .inl ⟨next' a, hv.answer a, rfl⟩
    · exact .inr ⟨b, before, _ :: later, rfl, hbefore, hlater.answer a⟩

theorem of_done {a : α} (h : (done a).Path i es u) : es = [] ∧ u = .done a := by
  induction h with
  | start => exact ⟨rfl, rfl⟩
  | answer _ b ih => cases ih.2

theorem of_bind_done {g : α → β} {u : Dialogue β} (h : (t.bind fun a => .done (g a)).Path i es u) :
    ∃ v, t.Path i es v := by
  rcases h.of_bind with ⟨v, hv, -⟩ | ⟨a, before, later, rfl, hbefore, hlater⟩
  · exact ⟨v, hv⟩
  · obtain ⟨rfl, -⟩ := hlater.of_done
    exact ⟨_, hbefore⟩

theorem of_ask {op : Op} {next : op.Answer → Dialogue α} (h : (ask op next).Path i es u) :
    (es = [] ∧ u = .ask op next) ∨
      ∃ a later, es = later ++ [⟨i, op, a⟩] ∧ (next a).Path i later u := by
  induction h with
  | start => exact .inl ⟨rfl, rfl⟩
  | answer _ a ih =>
    rcases ih with ⟨rfl, hu⟩ | ⟨b, later, rfl, hlater⟩
    · cases hu
      exact .inr ⟨a, [], rfl, .start⟩
    · exact .inr ⟨b, _ :: later, rfl, hlater.answer a⟩

theorem asks {P : Op → Prop} (h : t.Path i es u) (ht : t.Asks P) :
    (∀ e ∈ es, P e.op) ∧ u.Asks P := by
  induction h with
  | start => exact ⟨nofun, ht⟩
  | answer _ a ih => exact ⟨List.forall_mem_cons.2 ⟨ih.2.1, ih.1⟩, ih.2.2 a⟩

theorem keeps {γ : Type} {c : Contract γ} {post : α → γ → Prop} (h : t.Path i es u)
    (hexpects : ∀ g op a, c.expects g op a) (ht : t.Keeps c post c.start) :
    u.Keeps c post (c.place i es) := by
  induction h with
  | start => exact ht
  | answer h a ih =>
    rw [Contract.place_cons_self]
    exact ih.2 a (hexpects ..)

end Path

/-- Of the operations that are picked out a dialogue asks for those of another one along a path of it,
so that it goes through that at most once. -/
def RunsOnce (t : Dialogue α) (p : Op → Bool) (part : Dialogue β) : Prop :=
  ∀ i es u, t.Path i es u → ∃ v, part.Path i (es.filter (p ·.op)) v ∧
    ∀ op, u.op? = some op → p op = true → v.op? = some op

theorem Asks.filter_eq_nil {p : Op → Bool} (ht : t.Asks fun op => p op = false)
    (h : t.Path i es u) : es.filter (p ·.op) = [] :=
  List.filter_eq_nil_iff.2 fun e he => Bool.eq_false_iff.1 ((h.asks ht).1 e he)

theorem Asks.op?_eq_false {P : Op → Prop} {op : Op} (ht : t.Asks P) (hop : t.op? = some op) :
    P op := by
  obtain ⟨next, rfl⟩ := op?_eq_some.1 hop
  exact ht.1

namespace RunsOnce

variable {γ : Type} {p : Op → Bool} {part : Dialogue γ}

theorem refl (ht : t.Asks fun op => p op = true) : t.RunsOnce p t := by
  intro i es u h
  refine ⟨u, ?_, fun op hop _ => hop⟩
  rw [List.filter_eq_self.2 fun e he => (h.asks ht).1 e he]
  exact h

theorem of_quiet (ht : t.Asks fun op => p op = false) : t.RunsOnce p part := by
  intro i es u h
  refine ⟨part, ?_, fun op hop hp => ?_⟩
  · rw [ht.filter_eq_nil h]
    exact .start
  · cases hp.symm.trans ((h.asks ht).2.op?_eq_false hop)

theorem after_quiet (ht : t.Asks fun op => p op = false) (hf : ∀ a, (f a).RunsOnce p part) :
    (t.bind f).RunsOnce p part := by
  intro i es u h
  rcases h.of_bind with ⟨v, hv, rfl⟩ | ⟨a, before, later, rfl, hbefore, hlater⟩
  · rw [ht.filter_eq_nil hv]
    cases v with
    | done a => exact hf a i [] (f a) .start
    | ask op next =>
      refine ⟨part, .start, fun op' hop hp => ?_⟩
      cases hop
      cases hp.symm.trans (hv.asks ht).2.1
  · rw [List.filter_append, ht.filter_eq_nil hbefore, List.append_nil]
    exact hf a i later u hlater

theorem before_quiet (ht : t.RunsOnce p part) (hf : ∀ a, (f a).Asks fun op => p op = false) :
    (t.bind f).RunsOnce p part := by
  intro i es u h
  rcases h.of_bind with ⟨v, hv, rfl⟩ | ⟨a, before, later, rfl, hbefore, hlater⟩
  · obtain ⟨w, hw, hstands⟩ := ht i es v hv
    refine ⟨w, hw, fun op hop hp => ?_⟩
    cases v with
    | done a => cases hp.symm.trans ((hf a).op?_eq_false hop)
    | ask op' next => exact hstands op hop hp
  · obtain ⟨w, hw, -⟩ := ht i before (.done a) hbefore
    refine ⟨w, ?_, fun op hop hp => ?_⟩
    · rw [List.filter_append, (hf a).filter_eq_nil hlater, List.nil_append]
      exact hw
    · cases hp.symm.trans ((hlater.asks (hf a)).2.op?_eq_false hop)

end RunsOnce

end

end Dialogue

def ownEvents (i : Nat) (log : List Event) : List Event := log.filter (·.caller == i)

section

variable {σ α : Type} {w : Surroundings σ} {i : Nat} {t u : Dialogue α} {es log log' : List Event}
  {x y z : Shared × σ}

theorem ownEvents_cons_self (op : Op) (a : op.Answer) :
    ownEvents i (⟨i, op, a⟩ :: log) = ⟨i, op, a⟩ :: ownEvents i log :=
  List.filter_cons_of_pos (beq_self_eq_true i)

theorem ownEvents_cons_of_ne {j : Nat} (h : i ≠ j) (op : Op) (a : op.Answer) :
    ownEvents j (⟨i, op, a⟩ :: log) = ownEvents j log :=
  List.filter_cons_of_neg fun heq => h (beq_iff_eq.1 heq)

theorem Run.path {calls : List (Dialogue α)} {shared : Shared} {outside : σ} {s : State σ α}
    (hrun : Run w (.start calls shared outside) s) (hi : calls[i]? = some t) :
    ∃ u, s.calls[i]? = some u ∧ t.Path i (ownEvents i s.log) u := by
  induction hrun with
  | refl => exact ⟨t, hi, .start⟩
  | tail _ step ih =>
    obtain ⟨u, hu, hpath⟩ := ih
    cases step with
    | @answer j op next a shared outside hj hw =>
      by_cases hji : j = i
      · subst hji
        cases hu.symm.trans hj
        refine ⟨next a, State.calls_goOn_self hj .., ?_⟩
        rw [State.goOn, ownEvents_cons_self]
        exact hpath.answer a
      · refine ⟨u, (State.calls_goOn_of_ne hji ..).trans hu, ?_⟩
        rw [State.goOn, ownEvents_cons_of_ne hji]
        exact hpath
    | wait hj hb => exact ⟨u, hu, hpath⟩

/-- Of the operations that are picked out a call has asked for those of one dialogue, as far as it has
come with it. -/
def State.RunsOnce (s : State σ α) (i : Nat) (p : Op → Bool) (part : Dialogue β) : Prop :=
  ∃ v, part.Path i ((ownEvents i s.log).filter (p ·.op)) v ∧
    ∀ op, s.StandsAt i op → p op = true → v.op? = some op

theorem Run.runsOnce {calls : List (Dialogue α)} {shared : Shared} {outside : σ} {s : State σ α}
    {p : Op → Bool} {part : Dialogue β} (hrun : Run w (.start calls shared outside) s)
    (hi : calls[i]? = some t) (ht : t.RunsOnce p part) : s.RunsOnce i p part := by
  obtain ⟨u, hu, hpath⟩ := hrun.path hi
  obtain ⟨v, hv, hstands⟩ := ht i _ u hpath
  refine ⟨v, hv, fun op hop hp => ?_⟩
  obtain ⟨next, hnext⟩ := hop
  cases hu.symm.trans hnext
  exact hstands op rfl hp

theorem Run.askedBy {P : Op → Prop} {calls : List (Dialogue α)} {shared : Shared} {outside : σ}
    {s : State σ α} (hrun : Run w (.start calls shared outside) s) (hi : calls[i]? = some t)
    (ht : t.Asks P) : ∀ op ∈ s.askedBy i, P op := by
  intro op hop
  obtain ⟨u, hu, hpath⟩ := hrun.path hi
  obtain ⟨hevents, hleft⟩ := hpath.asks ht
  rcases State.mem_askedBy.1 hop with ⟨next, hnext⟩ | ⟨e, he, hcaller, rfl⟩
  · cases hu.symm.trans hnext
    exact hleft.1
  · exact hevents e (List.mem_filter.2 ⟨he, beq_iff_eq.2 hcaller⟩)

inductive Surroundings.Allows (w : Surroundings σ) (i : Nat) :
    List Event → Shared × σ → Shared × σ → Prop
  | nil {x : Shared × σ} : Allows w i [] x x
  | serve {es : List Event} {x y z : Shared × σ} (h : w.Allows i es x y) (op : Op) (a : op.Answer)
      (hw : w.Serves i op a y z) : w.Allows i (⟨i, op, a⟩ :: es) x z

theorem Dialogue.Path.run (h : t.Path 0 es u) (hw : w.Allows 0 es x y) :
    Run w (.start [t] x.1 x.2) ⟨[u], y.1, y.2, es⟩ := by
  induction h generalizing y with
  | start =>
    cases hw
    exact .refl
  | answer _ a ih =>
    cases hw with
    | serve hbefore _ _ hserves => exact (ih hbefore).tail (.answer (i := 0) rfl hserves)

end

end LegalEntity.Resolver
