import LegalEntity.Resolver.Resolve
import LegalEntity.Resolver.Shared
import Mathlib.Logic.Relation
/-!
Runs of calls on one resolver. The calls take turns in any order, and nothing is known of the cache
and the registry but how they may answer.
-/

namespace LegalEntity.Resolver

/-- How a cache and a registry may answer, with their state before and after it. -/
structure Surroundings (σ : Type) where
  reads : σ → String → Except Cache.Error (Option Json) → σ → Prop
  writes : σ → String → Json → Except Cache.Error Unit → σ → Prop
  replies : σ → String → Registry.Parameters → Registry.Outcome → σ → Prop
  /-- Whatever a download comes to, it may leave bytes in its file. -/
  delivers : σ → String → Except Error Unit → Option (List UInt8) → σ → Prop
  refuses : σ → Prop

def Surroundings.offline : Surroundings Unit where
  reads _ _ a _ := a = .ok none
  writes _ _ _ a _ := a = .ok ()
  replies _ _ _ a _ := a = .error .io
  delivers _ _ a file _ := a = .error .io ∧ file = none
  refuses _ := True

structure Event where
  caller : Nat
  op : Op
  answer : op.Answer

structure State (σ α : Type) where
  calls : List (Dialogue α)
  shared : Shared
  outside : σ
  /-- The events so far, last first. -/
  log : List Event

def Dialogue.op? : Dialogue α → Option Op
  | .done _ => none
  | .ask op _ => some op

def Dialogue.value? : Dialogue α → Option α
  | .done a => some a
  | .ask .. => none

def Shared.deliver (s : Shared) (scratch : Nat) : Option (List UInt8) → Shared
  | none => s
  | some bytes => s.write scratch bytes

/-- Whether an operation of a caller can be answered so. -/
def Surroundings.Serves (w : Surroundings σ) (caller : Nat) :
    (op : Op) → op.Answer → Shared × σ → Shared × σ → Prop
  | .lookUp key, a, x, y => w.reads x.2 key a y.2 ∧ y.1 = x.1
  | .keep key v, a, x, y => w.writes x.2 key v a y.2 ∧ y.1 = x.1
  | .fetch url parameters, a, x, y => w.replies x.2 url parameters a y.2 ∧ y.1 = x.1
  | .download url scratch, a, x, y =>
    ∃ file, w.delivers x.2 url a file y.2 ∧ y.1 = x.1.deliver scratch file
  | .pause _, _, x, y => y = x
  | .draw, _, x, y => y = x
  | .openScratch, a, x, y =>
    (x.1.serve caller .openScratch = some (.answered a y.1) ∨
      w.refuses x.2 ∧ a = .error .io ∧ y.1 = x.1) ∧ y.2 = x.2
  | op, a, x, y => x.1.serve caller op = some (.answered a y.1) ∧ y.2 = x.2

theorem Surroundings.Serves.outside {w : Surroundings σ} {i : Nat} {op : Op} {a : op.Answer}
    {x y : Shared} {o p : σ} (h : w.Serves i op a (x, o) (y, p)) :
    p = o ∨ (∃ key b, w.reads o key b p) ∨ (∃ key v b, op = .keep key v ∧ w.writes o key v b p) ∨
      (∃ url parameters b, w.replies o url parameters b p) ∨
      ∃ url b file, w.delivers o url b file p := by
  cases op with
  | lookUp key => exact .inr (.inl ⟨key, a, h.1⟩)
  | keep key v => exact .inr (.inr (.inl ⟨key, v, a, rfl, h.1⟩))
  | fetch url parameters => exact .inr (.inr (.inr (.inl ⟨url, parameters, a, h.1⟩)))
  | download url scratch =>
    obtain ⟨file, h, -⟩ := h
    exact .inr (.inr (.inr (.inr ⟨url, a, file, h⟩)))
  | pause | draw => exact .inl (congrArg Prod.snd h)
  | enter | leave | claimIndex | publishIndex | openScratch | readScratch | closeScratch =>
    exact .inl h.2

namespace State

def start (calls : List (Dialogue α)) (shared : Shared) (outside : σ) : State σ α :=
  { calls, shared, outside, log := [] }

def goOn (s : State σ α) (i : Nat) (op : Op) (next : op.Answer → Dialogue α) (a : op.Answer)
    (shared : Shared) (outside : σ) : State σ α :=
  { calls := s.calls.set i (next a), shared, outside, log := ⟨i, op, a⟩ :: s.log }

def result? (s : State σ α) (i : Nat) : Option α := s.calls[i]?.bind Dialogue.value?

def StandsAt (s : State σ α) (i : Nat) (op : Op) : Prop :=
  ∃ next, s.calls[i]? = some (.ask op next)

def askedBy (s : State σ α) (i : Nat) : List Op :=
  (s.calls[i]?.bind Dialogue.op?).toList ++ (s.log.filter (·.caller == i)).map (·.op)

def asked (s : State σ α) : List Op := s.calls.filterMap Dialogue.op? ++ s.log.map (·.op)

end State

inductive Step (w : Surroundings σ) : State σ α → State σ α → Prop
  | answer {s : State σ α} {i : Nat} {op : Op} {next : op.Answer → Dialogue α} {a : op.Answer}
      {shared : Shared} {outside : σ} :
      s.calls[i]? = some (.ask op next) → w.Serves i op a (s.shared, s.outside) (shared, outside) →
      Step w s (s.goOn i op next a shared outside)
  | wait {s : State σ α} {i : Nat} {op : Op} {next : op.Answer → Dialogue α} {shared : Shared} :
      s.calls[i]? = some (.ask op next) → s.shared.serve i op = some (.blocked shared) →
      Step w s { s with shared }

abbrev Run (w : Surroundings σ) : State σ α → State σ α → Prop := Relation.ReflTransGen (Step w)

theorem Run.answer {w : Surroundings σ} {s t : State σ α} {op : Op}
    {next : op.Answer → Dialogue α} {shared : Shared} {outside : σ} (i : Nat)
    (hi : s.calls[i]? = some (.ask op next)) (a : op.Answer)
    (hw : w.Serves i op a (s.shared, s.outside) (shared, outside))
    (h : Run w (s.goOn i op next a shared outside) t) : Run w s t :=
  .head (.answer hi hw) h

theorem Run.wait {w : Surroundings σ} {s t : State σ α} {op : Op} {next : op.Answer → Dialogue α}
    {shared : Shared} (i : Nat) (hi : s.calls[i]? = some (.ask op next))
    (hb : s.shared.serve i op = some (.blocked shared)) (h : Run w { s with shared } t) :
    Run w s t :=
  .head (.wait hi hb) h

theorem Run.length_calls {w : Surroundings σ} {s t : State σ α} (h : Run w s t) :
    t.calls.length = s.calls.length := by
  induction h with
  | refl => rfl
  | tail _ step ih =>
    cases step with
    | answer hi hw => exact List.length_set.trans ih
    | wait hi hb => exact ih

theorem Run.log_suffix {w : Surroundings σ} {s t : State σ α} (h : Run w s t) : s.log <:+ t.log := by
  induction h with
  | refl => exact List.suffix_rfl
  | tail _ step ih =>
    cases step with
    | answer hi hw => exact ih.trans (List.suffix_cons _ _)
    | wait hi hb => exact ih

end LegalEntity.Resolver
