import LegalEntity.Proofs.Runs.Path

namespace LegalEntity.Resolver

namespace Dialogue

variable {i : Nat} {l : List Event}

def Course (i : Nat) (t : Dialogue α) (l : List Event) (a : α) : Prop :=
  t.Path i l.reverse (.done a)

theorem course_done {a b : α} : (done a).Course i l b ↔ l = [] ∧ b = a := by
  constructor
  · intro h
    obtain ⟨hl, hb⟩ := Path.of_done h
    cases hb
    exact ⟨List.reverse_eq_nil_iff.1 hl, rfl⟩
  · rintro ⟨rfl, rfl⟩
    exact .start

theorem course_ask {op : Op} {next : op.Answer → Dialogue α} {b : α} :
    (ask op next).Course i l b ↔ ∃ a rest, l = ⟨i, op, a⟩ :: rest ∧ (next a).Course i rest b := by
  constructor
  · intro h
    rcases Path.of_ask h with ⟨-, hdone⟩ | ⟨a, later, hl, hlater⟩
    · cases hdone
    · refine ⟨a, later.reverse, List.reverse_inj.1 (by simp [hl]), ?_⟩
      rw [Course, List.reverse_reverse]
      exact hlater
  · rintro ⟨a, rest, rfl, hrest⟩
    rw [Course, List.reverse_cons]
    exact (Path.start.answer a).trans hrest

theorem course_bind {t : Dialogue α} {f : α → Dialogue β} {b : β} :
    (t.bind f).Course i l b ↔
      ∃ a front rest, l = front ++ rest ∧ t.Course i front a ∧ (f a).Course i rest b := by
  constructor
  · intro h
    rcases Path.of_bind h with ⟨v, hv, hbind⟩ | ⟨a, before, later, hl, hbefore, hlater⟩
    · cases v with
      | done a =>
        rw [done_bind] at hbind
        refine ⟨a, l, [], l.append_nil.symm, hv, ?_⟩
        rw [← hbind]
        exact .start
      | ask op next => cases hbind
    · refine ⟨a, before.reverse, later.reverse, List.reverse_inj.1 (by simp [hl]), ?_, ?_⟩ <;>
        rw [Course, List.reverse_reverse]
      · exact hbefore
      · exact hlater
  · rintro ⟨a, front, rest, rfl, hfront, hrest⟩
    rw [Course, List.reverse_append]
    exact (Path.bind hfront f).trans hrest

end Dialogue

theorem Run.course {σ α : Type} {w : Surroundings σ} {calls : List (Dialogue α)} {shared : Shared}
    {outside : σ} {s : State σ α} {i : Nat} {t : Dialogue α} {a : α}
    (hrun : Run w (.start calls shared outside) s) (hi : calls[i]? = some t)
    (hend : s.result? i = some a) : t.Course i (ownEvents i s.log).reverse a := by
  obtain ⟨u, hu, hpath⟩ := hrun.path hi
  rw [State.result?, hu] at hend
  cases u with
  | done b =>
    obtain rfl := Option.some.inj hend
    rw [Dialogue.Course, List.reverse_reverse]
    exact hpath
  | ask op next => cases hend

end LegalEntity.Resolver
