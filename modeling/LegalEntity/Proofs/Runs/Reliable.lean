import LegalEntity.Proofs.Runs.Basic
import Mathlib.Logic.Function.Basic

namespace LegalEntity.Resolver

namespace Surroundings

/-- What is stored under each key is read, written, and left alone by the registry. -/
structure Reliable (w : Surroundings σ) (stored : σ → String → Option Json) : Prop where
  reads : ∀ {o p : σ} {key : String} {a : Except Cache.Error (Option Json)}, w.reads o key a p →
    a = .ok (stored o key) ∧ stored p = stored o
  writes : ∀ {o p : σ} {key : String} {v : Json} {a : Except Cache.Error Unit},
    w.writes o key v a p → a = .ok () ∧ stored p = Function.update (stored o) key (some v)
  replies : ∀ {o p : σ} {url : String} {parameters : Registry.Parameters} {a : Registry.Outcome},
    w.replies o url parameters a p → stored p = stored o
  delivers : ∀ {o p : σ} {url : String} {a : Except Error Unit} {file : Option (List UInt8)},
    w.delivers o url a file p → stored p = stored o

variable {σ : Type} {w : Surroundings σ} {stored : σ → String → Option Json} {i : Nat}
  {x y : Shared} {o p : σ}

theorem Reliable.lookUp (hR : w.Reliable stored) {key : String} {a : Op.Answer (.lookUp key)}
    (h : w.Serves i (.lookUp key) a (x, o) (y, p)) : a = .ok (stored o key) :=
  (hR.reads h.1).1

theorem Reliable.keep (hR : w.Reliable stored) {key : String} {v : Json} {a : Op.Answer (.keep key v)}
    (h : w.Serves i (.keep key v) a (x, o) (y, p)) :
    stored p = Function.update (stored o) key (some v) :=
  (hR.writes h.1).2

theorem Reliable.stored_eq (hR : w.Reliable stored) {op : Op} {a : op.Answer}
    (h : w.Serves i op a (x, o) (y, p)) {key : String} (hop : ∀ v, op ≠ .keep key v) :
    stored p key = stored o key := by
  rcases h.outside with rfl | ⟨other, b, hp⟩ | ⟨other, v, b, rfl, hp⟩ | ⟨url, parameters, b, hp⟩ |
    ⟨url, b, file, hp⟩
  · rfl
  · exact congrFun (hR.reads hp).2 key
  · have hne : key ≠ other := by
      rintro rfl
      exact hop v rfl
    rw [(hR.writes hp).2, Function.update_of_ne hne]
  · exact congrFun (hR.replies hp) key
  · exact congrFun (hR.delivers hp) key

def remembering : Surroundings (String → Option Json) where
  reads o key a p := a = .ok (o key) ∧ p = o
  writes o key v a p := a = .ok () ∧ p = Function.update o key (some v)
  replies o _ _ a p := a = .error .io ∧ p = o
  delivers o _ a file p := a = .error .io ∧ file = none ∧ p = o
  refuses _ := True

theorem remembering_reliable : remembering.Reliable id where
  reads h := h
  writes h := h
  replies h := h.2
  delivers h := h.2.2

end Surroundings

end LegalEntity.Resolver
