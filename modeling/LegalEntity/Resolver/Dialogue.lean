import LegalEntity.Cache.Store
import LegalEntity.Duration
import LegalEntity.Entity
import LegalEntity.Registry.Request
/-!
A call as a dialogue with its surroundings: a tree of what it asks of them, each answer with the
dialogue that follows it. A dialogue ends after finitely many answers, whatever they are.
-/

namespace LegalEntity.Resolver

inductive IndexTurn
  | load
  | ready (index : Option IsinIndex)

inductive Op
  | lookUp (key : String)
  | keep (key : String) (value : Json)
  | fetch (url : String) (parameters : Registry.Parameters)
  | download (url : String) (scratch : Nat)
  | pause (span : Duration)
  | draw
  | enter
  | leave
  | claimIndex
  | publishIndex (index : Option IsinIndex)
  | openScratch
  | readScratch (scratch : Nat)
  | closeScratch (scratch : Nat)

@[reducible] def Op.Answer : Op → Type
  | lookUp _ => Except Cache.Error (Option Json)
  | keep .. => Except Cache.Error Unit
  | fetch .. => Registry.Outcome
  | download .. => Except Error Unit
  | pause _ => Unit
  | draw => UInt64
  | enter => Unit
  | leave => Unit
  | claimIndex => IndexTurn
  | publishIndex _ => Unit
  | openScratch => Except Error Nat
  | readScratch _ => Option (List UInt8)
  | closeScratch _ => Unit

inductive Dialogue (α : Type) : Type
  | done (value : α)
  | ask (op : Op) (next : op.Answer → Dialogue α)

namespace Dialogue

def bind : Dialogue α → (α → Dialogue β) → Dialogue β
  | .done a, f => f a
  | .ask op next, f => .ask op fun answer => (next answer).bind f

instance : Monad Dialogue where
  pure := .done
  bind := bind

def perform (op : Op) : Dialogue op.Answer := .ask op .done

@[simp] theorem bind_done (t : Dialogue α) : t.bind .done = t := by
  induction t with
  | done => rfl
  | ask op next ih => simp [bind, ih]

theorem bind_assoc (t : Dialogue α) (f : α → Dialogue β) (g : β → Dialogue γ) :
    (t.bind f).bind g = t.bind fun a => (f a).bind g := by
  induction t with
  | done => rfl
  | ask op next ih => simp [bind, ih]

instance : LawfulMonad Dialogue :=
  LawfulMonad.mk' Dialogue (fun t => bind_done t) (fun _ _ => rfl) (fun t f g => bind_assoc t f g)

@[simp] theorem pure_eq (a : α) : (pure a : Dialogue α) = .done a := rfl

@[simp] theorem bind_eq (t : Dialogue α) (f : α → Dialogue β) : t >>= f = t.bind f := rfl

@[simp] theorem done_bind (a : α) (f : α → Dialogue β) : (done a).bind f = f a := rfl

@[simp] theorem ask_bind (op : Op) (next : op.Answer → Dialogue α) (f : α → Dialogue β) :
    (ask op next).bind f = .ask op fun answer => (next answer).bind f := rfl

end Dialogue

end LegalEntity.Resolver
