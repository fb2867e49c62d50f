import LegalEntity.Proofs.Runs.Calls

namespace LegalEntity.Resolver

def Op.isClaim : Op → Bool
  | claimIndex => true
  | _ => false

def State.eventsButClaims {σ α : Type} (s : State σ α) : List Event :=
  s.log.filter (!·.op.isClaim)

section

variable {σ α : Type} {w : Surroundings σ} {i j : Nat} {R R' : Dialogue α → Dialogue α → Prop}
  {s s' t t' : State σ α} {op : Op} {next next' : op.Answer → Dialogue α} {a : op.Answer}
  {shared : Shared} {outside : σ}

structure AlikeBut (i : Nat) (R : Dialogue α → Dialogue α → Prop) (s s' : State σ α) : Prop where
  own : ∃ d d', s.calls[i]? = some d ∧ s'.calls[i]? = some d' ∧ R d d'
  others : ∀ j, i ≠ j → s.calls[j]? = s'.calls[j]?
  shared_eq : s.shared = s'.shared
  outside_eq : s.outside = s'.outside
  events_eq : s.eventsButClaims = s'.eventsButClaims

def State.put (s : State σ α) (i : Nat) (d : Dialogue α) : State σ α :=
  { s with calls := s.calls.set i d }

def Follow (R : Dialogue α → Dialogue α → Prop) : Prop :=
  ∀ {op : Op} {next : op.Answer → Dialogue α} {d' : Dialogue α}, R (.ask op next) d' →
    ∃ next', d' = .ask op next' ∧ ∀ a, R (next a) (next' a)

namespace AlikeBut

theorem of_put {d d' : Dialogue α} (hi : s.calls[i]? = some d) (hR : R d d') :
    AlikeBut i R s (s.put i d') where
  own := by
    obtain ⟨hlt, -⟩ := List.getElem?_eq_some_iff.1 hi
    exact ⟨d, d', hi, List.getElem?_set_self hlt, hR⟩
  others j hij := (List.getElem?_set_ne hij).symm
  shared_eq := rfl
  outside_eq := rfl
  events_eq := rfl

theorem symm (h : AlikeBut i R s s') : AlikeBut i (flip R) s' s where
  own := by
    obtain ⟨d, d', hd, hd', hR⟩ := h.own
    exact ⟨d', d, hd', hd, hR⟩
  others j hij := (h.others j hij).symm
  shared_eq := h.shared_eq.symm
  outside_eq := h.outside_eq.symm
  events_eq := h.events_eq.symm

theorem mono (h : AlikeBut i R s s') (hR : ∀ d d', R d d' → R' d d') : AlikeBut i R' s s' where
  own := by
    obtain ⟨d, d', hd, hd', hown⟩ := h.own
    exact ⟨d, d', hd, hd', hR d d' hown⟩
  others := h.others
  shared_eq := h.shared_eq
  outside_eq := h.outside_eq
  events_eq := h.events_eq

theorem cons_events (h : s.eventsButClaims = s'.eventsButClaims) (e : Event) :
    (e :: s.log).filter (!·.op.isClaim) = (e :: s'.log).filter (!·.op.isClaim) := by
  simp only [List.filter_cons]
  split
  · exact congrArg _ h
  · exact h

theorem goOn_self (h : AlikeBut i R s s') (hi : s.calls[i]? = some (.ask op next))
    (hi' : s'.calls[i]? = some (.ask op next')) (hR : R' (next a) (next' a)) (shared : Shared)
    (outside : σ) :
    AlikeBut i R' (s.goOn i op next a shared outside) (s'.goOn i op next' a shared outside) where
  own := ⟨_, _, State.calls_goOn_self hi .., State.calls_goOn_self hi' .., hR⟩
  others j hij := by
    rw [State.calls_goOn_of_ne hij, State.calls_goOn_of_ne hij]
    exact h.others j hij
  shared_eq := rfl
  outside_eq := rfl
  events_eq := cons_events h.events_eq _

theorem goOn_of_ne (h : AlikeBut i R s s') (hij : i ≠ j) (hj : s.calls[j]? = some (.ask op next))
    (a : op.Answer) (shared : Shared) (outside : σ) :
    AlikeBut i R (s.goOn j op next a shared outside) (s'.goOn j op next a shared outside) where
  own := by
    rw [State.calls_goOn_of_ne hij.symm, State.calls_goOn_of_ne hij.symm]
    exact h.own
  others k hik := by
    by_cases hjk : j = k
    · subst hjk
      rw [State.calls_goOn_self hj, State.calls_goOn_self ((h.others j hij).symm.trans hj)]
    · rw [State.calls_goOn_of_ne hjk, State.calls_goOn_of_ne hjk]
      exact h.others k hik
  shared_eq := rfl
  outside_eq := rfl
  events_eq := cons_events h.events_eq _

theorem wait (h : AlikeBut i R s s') (shared : Shared) :
    AlikeBut i R { s with shared } { s' with shared } where
  own := h.own
  others := h.others
  shared_eq := rfl
  outside_eq := h.outside_eq
  events_eq := h.events_eq

theorem answer_of_ne (h : AlikeBut i R s s') (hij : i ≠ j)
    (hj : s.calls[j]? = some (.ask op next))
    (hw : w.Serves j op a (s.shared, s.outside) (shared, outside)) :
    ∃ t', Step w s' t' ∧ AlikeBut i R (s.goOn j op next a shared outside) t' := by
  rw [h.shared_eq, h.outside_eq] at hw
  exact ⟨_, .answer ((h.others j hij).symm.trans hj) hw, h.goOn_of_ne hij hj a shared outside⟩

theorem wait_of_ne (h : AlikeBut i R s s') (hij : i ≠ j)
    (hj : s.calls[j]? = some (.ask op next)) (hb : s.shared.serve j op = some (.blocked shared)) :
    ∃ t', Step w s' t' ∧ AlikeBut i R { s with shared } t' := by
  rw [h.shared_eq] at hb
  exact ⟨_, .wait ((h.others j hij).symm.trans hj) hb, h.wait shared⟩

theorem step (hR : Follow R) (h : AlikeBut i R s s') (hstep : Step w s t) :
    ∃ t', Step w s' t' ∧ AlikeBut i R t t' := by
  obtain ⟨d, d', hd, hd', hown⟩ := h.own
  cases hstep with
  | @answer j op next a shared outside hj hw =>
    by_cases hij : i = j
    · subst hij
      cases hd.symm.trans hj
      obtain ⟨next', rfl, hnext⟩ := hR hown
      rw [h.shared_eq, h.outside_eq] at hw
      exact ⟨_, .answer hd' hw, h.goOn_self hd hd' (hnext a) shared outside⟩
    · exact h.answer_of_ne hij hj hw
  | @wait j op next shared hj hb =>
    by_cases hij : i = j
    · subst hij
      cases hd.symm.trans hj
      obtain ⟨next', rfl, -⟩ := hR hown
      rw [h.shared_eq] at hb
      exact ⟨_, .wait hd' hb, h.wait shared⟩
    · exact h.wait_of_ne hij hj hb

theorem run (hR : Follow R) (h : AlikeBut i R s s') (hrun : Run w s t) :
    ∃ t', Run w s' t' ∧ AlikeBut i R t t' := by
  induction hrun with
  | refl => exact ⟨s', .refl, h⟩
  | tail _ hstep ih =>
    obtain ⟨u', hrun', hu⟩ := ih
    obtain ⟨t', hstep', ht⟩ := hu.step hR hstep
    exact ⟨t', hrun'.tail hstep', ht⟩

end AlikeBut

variable (w) in
/-- Each run from one of two states has its like from the other. -/
structure RunsAlike (i : Nat) (R : Dialogue α → Dialogue α → Prop) (s s' : State σ α) : Prop where
  right : ∀ t, Run w s t → ∃ t', Run w s' t' ∧ AlikeBut i R t t'
  left : ∀ t', Run w s' t' → ∃ t, Run w s t ∧ AlikeBut i R t t'

theorem RunsAlike.mono (h : RunsAlike w i R s s') (hR : ∀ d d', R d d' → R' d d') :
    RunsAlike w i R' s s' where
  right t hrun := by
    obtain ⟨t', hrun', ht⟩ := h.right t hrun
    exact ⟨t', hrun', ht.mono hR⟩
  left t' hrun := by
    obtain ⟨t, hrun', ht⟩ := h.left t' hrun
    exact ⟨t, hrun', ht.mono hR⟩

def Renders (g : α → α) (d d' : Dialogue α) : Prop := d = d'.bind fun a => .done (g a)

theorem follow_renders (g : α → α) : Follow (Renders g) := by
  intro op next d' h
  cases d' with
  | done a => cases h
  | ask op' next' =>
    cases h
    exact ⟨next', rfl, fun _ => rfl⟩

theorem follow_flip_renders (g : α → α) : Follow (flip (Renders g)) := by
  intro op next d' h
  cases h
  exact ⟨_, rfl, fun _ => rfl⟩

theorem Renders.value_eq {g : α → α} {d d' : Dialogue α} (h : Renders g d d') :
    d.value? = d'.value?.map g := by
  subst h
  cases d' <;> rfl

theorem AlikeBut.runsAlike {g : α → α} (h : AlikeBut i (Renders g) s s') :
    RunsAlike w i (Renders g) s s' where
  right t hrun := h.run (follow_renders g) hrun
  left t' hrun := by
    obtain ⟨t, hrun, ht⟩ := h.symm.run (follow_flip_renders g) hrun
    exact ⟨t, hrun, ht.symm⟩

end

end LegalEntity.Resolver
