import LegalEntity.Proofs.Runs.Calls
import LegalEntity.Proofs.Runs.Contract

namespace LegalEntity.Registry

def succeeded (read : Reply → Option (List β)) : Outcome → Option (List β)
  | .error _ => none
  | .ok reply => if Retry.isSuccess reply.status then read reply else none

def itemsOf (read : Reply → Option (List β)) (a : Outcome) : List β := (succeeded read a).getD []

end LegalEntity.Registry

namespace LegalEntity.Resolver

open Registry (itemsOf succeeded)

section

variable {γ : Type} {c : Contract γ} {P : γ → Prop} {R : γ → Registry.Outcome → Prop}
  {url : String} {parameters : Registry.Parameters} {g : γ}

def final? : Registry.Outcome → Option Registry.Reply
  | .error _ => none
  | .ok reply => if Retry.StatusClass.of reply.status = .transient then none else some reply

theorem isSuccess_of_transient {status : Nat}
    (h : Retry.StatusClass.of status = .transient) : Retry.isSuccess status = false := by
  unfold Retry.StatusClass.of at h
  split at h
  · cases h
  · rename_i hstatus
    exact Bool.eq_false_iff.2 hstatus

theorem itemsOf_final? (read : Registry.Reply → Option (List β)) (a : Registry.Outcome) :
    ((final? a).map fun reply =>
      if Retry.isSuccess reply.status then (read reply).getD [] else []).getD [] =
        itemsOf read a := by
  cases a with
  | error e => rfl
  | ok reply =>
    by_cases htransient : Retry.StatusClass.of reply.status = .transient
    · simp [final?, htransient, itemsOf, succeeded, isSuccess_of_transient htransient]
    · simp only [final?, if_neg htransient, itemsOf, succeeded, Option.map_some, Option.getD_some]
      split <;> rfl

structure Chained (c : Contract γ) (P : γ → Prop) (R : γ → Registry.Outcome → Prop)
    (url : String) (parameters : Registry.Parameters) : Prop where
  draw : ∀ {g}, P g → c.allows g .draw ∧ ∀ a, c.next g .draw a = g
  pause : ∀ {g}, P g → ∀ d, c.allows g (.pause d) ∧ ∀ a, c.next g (.pause d) a = g
  fetch : ∀ {g}, P g → c.allows g (.fetch url parameters) ∧
    ∀ a, c.expects g (.fetch url parameters) a →
      P (c.next g (.fetch url parameters) a) ∧ R (c.next g (.fetch url parameters) a) a

theorem attempts_keeps (h : Chained c P R url parameters) {delays : List Duration}
    (hdelays : delays ≠ []) (hg : P g) :
    (attempts url parameters delays).Keeps c (fun r g' => ∃ a, R g' a ∧ r = final? a) g := by
  induction delays generalizing g with
  | nil => exact absurd rfl hdelays
  | cons delay delays ih =>
    have send : (Dialogue.ask (.fetch url parameters) (onOutcome url parameters delays)).Keeps c
        (fun r g' => ∃ a, R g' a ∧ r = final? a) g := by
      obtain ⟨hallow, hanswer⟩ := h.fetch hg
      refine ⟨hallow, fun a ha => ?_⟩
      obtain ⟨hP, hR⟩ := hanswer a ha
      cases a with
      | error e => exact ⟨_, hR, rfl⟩
      | ok reply =>
        by_cases htransient : Retry.StatusClass.of reply.status = .transient
        · rw [onOutcome, if_pos htransient]
          cases delays with
          | nil => exact ⟨_, hR, (if_pos htransient).symm⟩
          | cons d ds => exact ih (List.cons_ne_nil d ds) hP
        · rw [onOutcome, if_neg htransient]
          exact ⟨_, hR, (if_neg htransient).symm⟩
    rw [attempts_cons]
    split
    · exact send
    · obtain ⟨hallow, hnext⟩ := h.pause hg delay
      refine ⟨hallow, fun a _ => ?_⟩
      rw [hnext a]
      exact send

theorem schedule_keeps (h : Chained c P R url parameters) (p : Retry.Policy) (hg : P g) :
    (schedule p).Keeps c (fun delays g' => delays ≠ [] ∧ g' = g) g := by
  unfold schedule
  split
  · exact ⟨List.cons_ne_nil _ _, rfl⟩
  · obtain ⟨hallow, hnext⟩ := h.draw hg
    exact ⟨hallow, fun a _ => ⟨List.cons_ne_nil _ _, hnext a⟩⟩

theorem request_keeps (h : Chained c P R url parameters) (p : Retry.Policy)
    (read : Registry.Reply → Option (List β)) (hg : P g) :
    (request p url parameters read).Keeps c
      (fun items g' => ∃ a, R g' a ∧ items = itemsOf read a) g := by
  refine Dialogue.keeps_bind.2 ((schedule_keeps h p hg).mono fun delays g' hdelays => ?_)
  obtain ⟨hne, rfl⟩ := hdelays
  refine Dialogue.keeps_bind.2 ((attempts_keeps h hne hg).mono fun r g' hr => ?_)
  obtain ⟨a, hR, rfl⟩ := hr
  have hitems := itemsOf_final? read a
  cases hfinal : final? a with
  | none =>
    rw [hfinal] at hitems
    exact ⟨a, hR, hitems⟩
  | some reply =>
    rw [hfinal] at hitems
    exact ⟨a, hR, hitems⟩

end

end LegalEntity.Resolver
