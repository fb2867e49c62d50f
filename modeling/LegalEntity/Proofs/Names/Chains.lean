import LegalEntity.Proofs.Names.Outcome
import LegalEntity.Proofs.Runs.Chain
import Mathlib.Logic.Function.Basic

namespace LegalEntity.Resolver

open Registry (itemsOf succeeded)

inductive Chain
  | completions
  | active
  | owners
  deriving DecidableEq

namespace Chain

def of? : Registry.Parameters → Option Chain
  | ("field", _) :: _ => some completions
  | ("filter[lei]", _) :: _ => some active
  | ("filter[owns]", _) :: _ => some owners
  | _ => none

def succeeds : Chain → Registry.Outcome → Bool
  | completions, a => (succeeded Registry.completions? a).isSome
  | active, a => (succeeded Registry.identifiers? a).isSome
  | owners, a => (succeeded Registry.records? a).isSome

end Chain

abbrev Answers := Chain → Option Registry.Outcome

namespace Answers

def unsent : Answers := fun _ => none

def items (l : Answers) (chain : Chain) (read : Registry.Reply → Option (List β)) : List β :=
  ((l chain).map (itemsOf read)).getD []

def best? [Scalar α] (l : Answers) (s : Settings α) (name : String) : Option Entity :=
  Resolver.best? s name (l.items .completions Registry.completions?)
    (l.items .active Registry.identifiers?)

def outcome [Scalar α] (l : Answers) (s : Settings α) (name : String) : NameOutcome :=
  outcomeOf s name (l.items .completions Registry.completions?)
    (l.items .active Registry.identifiers?) (l.items .owners Registry.records?)

def Failed (l : Answers) (chain : Chain) : Prop :=
  ∃ a, l chain = some a ∧ chain.succeeds a = false

/-- Every chain that has been sent has ended in a success that can be read. -/
def Definitive (l : Answers) : Prop := ∀ chain a, l chain = some a → chain.succeeds a = true

theorem not_definitive {l : Answers} : ¬l.Definitive ↔ ∃ chain, l.Failed chain := by
  simp [Definitive, Failed]

variable {l : Answers} {chain : Chain} {read : Registry.Reply → Option (List β)}

theorem items_eq_nil (h : l chain = none) : l.items chain read = [] := by
  rw [items, h]
  rfl

theorem items_eq {a : Registry.Outcome} (h : l chain = some a) :
    l.items chain read = itemsOf read a := by
  rw [items, h]
  rfl

@[simp] theorem items_update_self (a : Registry.Outcome) :
    items (Function.update l chain (some a)) chain read = itemsOf read a :=
  items_eq (Function.update_self ..)

theorem items_update_of_ne {other : Chain} (h : other ≠ chain) (a : Registry.Outcome) :
    items (Function.update l chain (some a)) other read = l.items other read := by
  rw [items, Function.update_of_ne h, items]

theorem items_of_failed {a : Registry.Outcome} (h : l chain = some a)
    (ha : (succeeded read a).isSome = false) : l.items chain read = [] := by
  rw [items_eq h, itemsOf, Option.isNone_iff_eq_none.1 (Option.isSome_eq_false_iff.1 ha)]
  rfl

variable {α : Type} [Scalar α] {s : Settings α} {name : String}

theorem outcome_of_best?_none (h : l.best? s name = none) : l.outcome s name = .notFound :=
  outcomeOf_of_best?_none h _

theorem outcome_of_failed (h : l.Failed .completions ∨ l.Failed .active) :
    l.outcome s name = .notFound := by
  apply outcome_of_best?_none
  rcases h with ⟨a, ha, hfail⟩ | ⟨a, ha, hfail⟩
  · rw [best?, items_of_failed ha hfail, best?_completions_nil]
  · rw [best?, items_of_failed ha hfail, best?_active_nil]

theorem outcome_of_failed_owners {best : Entity} (hname : (Text.trim name.toList).isEmpty = false)
    (hbest : l.best? s name = some best) (h : l.Failed .owners) :
    l.outcome s name = .found best.lei := by
  obtain ⟨a, ha, hfail⟩ := h
  rw [outcome, outcomeOf_of_best?_some hname hbest, items_of_failed ha hfail]
  rfl

end Answers

end LegalEntity.Resolver
