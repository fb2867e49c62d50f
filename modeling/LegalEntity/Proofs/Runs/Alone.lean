import LegalEntity.Proofs.Runs.Ending
import LegalEntity.Proofs.Runs.Path

namespace LegalEntity.Resolver

section

variable {σ α β : Type} {w : Surroundings σ}

def State.bind (s : State σ β) (f : β → Dialogue α) : State σ α :=
  { calls := s.calls.map (·.bind f), shared := s.shared, outside := s.outside, log := s.log }

theorem State.bind_goOn (s : State σ β) (f : β → Dialogue α) (i : Nat) (op : Op)
    (next : op.Answer → Dialogue β) (a : op.Answer) (shared : Shared) (outside : σ) :
    (s.goOn i op next a shared outside).bind f =
      (s.bind f).goOn i op (fun a => (next a).bind f) a shared outside := by
  simp [State.bind, State.goOn, List.map_set]

theorem State.getElem?_bind {s : State σ β} {i : Nat} {op : Op} {next : op.Answer → Dialogue β}
    (hi : s.calls[i]? = some (.ask op next)) (f : β → Dialogue α) :
    (s.bind f).calls[i]? = some (.ask op fun a => (next a).bind f) := by
  rw [State.bind, List.getElem?_map, hi]
  rfl

theorem Step.bind {s t : State σ β} (h : Step w s t) (f : β → Dialogue α) :
    Step w (s.bind f) (t.bind f) := by
  cases h with
  | @answer i op next a shared outside hi hw =>
    rw [State.bind_goOn]
    exact .answer (State.getElem?_bind hi f) hw
  | wait hi hb => exact .wait (State.getElem?_bind hi f) hb

theorem Run.bind {s t : State σ β} (h : Run w s t) (f : β → Dialogue α) :
    Run w (s.bind f) (t.bind f) := by
  induction h with
  | refl => exact .refl
  | tail _ step ih => exact ih.tail (step.bind f)

variable {t : State σ α} {x : Shared} {o : σ} {log : List Event}

theorem Run.eq_of_finished {s : State σ α} (h : Run w s t) (hs : s.Finished) : t = s := by
  induction h with
  | refl => rfl
  | tail _ step ih =>
    subst ih
    by_contra hne
    exact hs.not_advance ⟨step, hne⟩

theorem eq_zero_of_getElem?_singleton {d u : α} {i : Nat} (h : [d][i]? = some u) : i = 0 ∧ u = d := by
  cases i with
  | zero => exact ⟨rfl, (Option.some.inj h).symm⟩
  | succ i => cases h

theorem Run.of_ask {op : Op} {next : op.Answer → Dialogue α}
    (hrun : Run w ⟨[.ask op next], x, o, log⟩ t) (ht : t.Finished) :
    ∃ x' a y p, x'.index = x.index ∧ w.Serves 0 op a (x', o) (y, p) ∧
      Run w ⟨[next a], y, p, ⟨0, op, a⟩ :: log⟩ t := by
  generalize hs : (⟨[.ask op next], x, o, log⟩ : State σ α) = s at hrun
  induction hrun using Relation.ReflTransGen.head_induction_on generalizing x with
  | refl =>
    subst hs
    obtain ⟨a, ha⟩ := ht _ List.mem_cons_self
    cases ha
  | head step hrest ih =>
    subst hs
    cases step with
    | answer hi hw =>
      obtain ⟨rfl, hask⟩ := eq_zero_of_getElem?_singleton hi
      cases hask
      exact ⟨x, _, _, _, rfl, hw, hrest⟩
    | wait hi hb =>
      obtain ⟨rfl, hask⟩ := eq_zero_of_getElem?_singleton hi
      cases hask
      obtain ⟨x', a, y, p, hindex, hw, hrest⟩ := ih rfl
      exact ⟨x', a, y, p, hindex.trans (Shared.index_of_blocked hb), hw, hrest⟩

/-- The first part runs to its end by itself, and the rest goes on from there. -/
theorem Run.of_bind {d : Dialogue β} {f : β → Dialogue α}
    (hrun : Run w ⟨[d.bind f], x, o, log⟩ t) (ht : t.Finished) :
    ∃ b y p es, d.Path 0 es (.done b) ∧
      Run w (⟨[d], x, o, log⟩ : State σ β) ⟨[.done b], y, p, es ++ log⟩ ∧
      Run w ⟨[f b], y, p, es ++ log⟩ t := by
  generalize hs : (⟨[d.bind f], x, o, log⟩ : State σ α) = s at hrun
  induction hrun using Relation.ReflTransGen.head_induction_on generalizing d x o log with
  | refl =>
    subst hs
    obtain ⟨a, ha⟩ := ht _ List.mem_cons_self
    cases d with
    | done b => exact ⟨b, x, o, [], .start, .refl, .refl⟩
    | ask op next => cases ha
  | head step hrest ih =>
    subst hs
    cases d with
    | done b => exact ⟨b, x, o, [], .start, .refl, .head step hrest⟩
    | ask op next =>
      cases step with
      | @answer i _ _ a shared outside hi hw =>
        obtain ⟨rfl, hask⟩ := eq_zero_of_getElem?_singleton hi
        cases hask
        obtain ⟨b, y, p, es, hpath, hfirst, hlast⟩ := ih (d := next a) rfl
        refine ⟨b, y, p, es ++ [⟨0, op, a⟩], (Dialogue.Path.start.answer a).trans hpath, ?_, ?_⟩
        · rw [List.append_assoc]
          exact .answer 0 rfl a hw hfirst
        · rw [List.append_assoc]
          exact hlast
      | wait hi hb =>
        obtain ⟨rfl, hask⟩ := eq_zero_of_getElem?_singleton hi
        cases hask
        obtain ⟨b, y, p, es, hpath, hfirst, hlast⟩ := ih (d := .ask op next) rfl
        exact ⟨b, y, p, es, hpath, .wait 0 rfl hb hfirst, hlast⟩

end

section

variable {σ α β : Type} {w : Surroundings σ} {x y z : Shared × σ} {a : α} {b : β}

def Dialogue.Reaches (w : Surroundings σ) (t : Dialogue α) (x y : Shared × σ) (a : α) : Prop :=
  ∀ log, ∃ log', Run w ⟨[t], x.1, x.2, log⟩ ⟨[.done a], y.1, y.2, log'⟩

theorem Dialogue.Reaches.done : (Dialogue.done a).Reaches w x x a := fun log => ⟨log, .refl⟩

theorem Dialogue.Reaches.ask {op : Op} {next : op.Answer → Dialogue α} (c : op.Answer)
    (hw : w.Serves 0 op c x y) (h : (next c).Reaches w y z a) :
    (Dialogue.ask op next).Reaches w x z a := by
  intro log
  obtain ⟨log', hrun⟩ := h (⟨0, op, c⟩ :: log)
  exact ⟨log', .answer 0 rfl c hw hrun⟩

theorem Dialogue.Reaches.bind {t : Dialogue α} {f : α → Dialogue β} (h : t.Reaches w x y a)
    (hf : (f a).Reaches w y z b) : (t.bind f).Reaches w x z b := by
  intro log
  obtain ⟨log', hrun⟩ := h log
  obtain ⟨log'', hrun'⟩ := hf log'
  exact ⟨log'', (hrun.bind f).trans hrun'⟩

end

end LegalEntity.Resolver
