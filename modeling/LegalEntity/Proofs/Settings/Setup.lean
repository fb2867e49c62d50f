import LegalEntity.Codec
import LegalEntity.Proofs.Runs.Budget
import LegalEntity.Proofs.Runs.Ending
import LegalEntity.Proofs.Settings.Delays

namespace LegalEntity.Resolver

def Gate.enterAll (g : Gate) : List Nat → List Bool × Gate
  | [] => ([], g)
  | caller :: rest =>
    let (inside, g) := g.enter caller
    let (others, g) := g.enterAll rest
    (inside :: others, g)

theorem Gate.enterAll_eq {free : Nat} {waiting callers : List Nat}
    (h : (waiting ++ callers).Nodup) : Gate.enterAll ⟨free, waiting, []⟩ callers =
      (List.replicate (min free callers.length) true ++
        List.replicate (callers.length - free) false,
      ⟨free - callers.length, waiting ++ callers.drop free, []⟩) := by
  induction callers generalizing free waiting with
  | nil => simp [enterAll]
  | cons caller rest ih =>
    cases free with
    | zero =>
      have hout : caller ∉ waiting := fun hin =>
        (List.nodup_append.1 h).2.2 caller hin caller List.mem_cons_self rfl
      have hrest : (waiting ++ [caller] ++ rest).Nodup := by simpa using h
      have henter : Gate.enter ⟨0, waiting, []⟩ caller = (false, ⟨0, waiting ++ [caller], []⟩) := by
        simp [enter, hout]
      simp only [enterAll, henter, ih hrest]
      simp [List.replicate_succ]
    | succ free =>
      have hrest : (waiting ++ rest).Nodup :=
        h.sublist ((List.sublist_cons_self caller rest).append_left waiting)
      have henter : Gate.enter ⟨free + 1, waiting, []⟩ caller = (true, ⟨free, waiting, []⟩) := by
        simp [enter]
      simp only [enterAll, henter, ih hrest]
      simp [Nat.succ_min_succ, List.replicate_succ]

section

variable {σ α : Type} {settings : Settings α} {given : Option IsinIndex} {shared : Shared}

theorem exists_shared_iff :
    (∃ shared, Shared.ofSettings? settings given = some shared) ↔
      settings.concurrency ≤ Gate.maxSlots := by
  have hone : 1 ≤ Gate.maxSlots := by decide
  have hslots : settings.slots ≤ Gate.maxSlots ↔ settings.concurrency ≤ Gate.maxSlots := by
    rw [Settings.slots]
    omega
  rw [← hslots]
  simp only [Shared.ofSettings?, Gate.ofSlots?, Option.bind_eq_bind]
  split <;> simp_all

variable [Scalar α]

/-- The resolver serves as many searches at once as its settings ask for, but one at least, and its
calls come to their ends, whatever cache and registry do. -/
structure Shared.Works (settings : Settings α) (shared : Shared) : Prop where
  admits : ∀ callers : List Nat, callers.Nodup → (shared.gate.enterAll callers).1 =
    List.replicate (min (max settings.concurrency 1) callers.length) true ++
      List.replicate (callers.length - max settings.concurrency 1) false
  slots : ∀ {σ : Type} (w : Surroundings σ) (outside : σ) (calls : List Call)
    (s : State σ (Return α)), Run w (.start (calls.map (·.dialogue settings)) shared outside) s →
      s.shared.gate.free + s.taken = max settings.concurrency 1
  ends : ∀ {σ : Type} (w : Surroundings σ) (outside : σ) (calls : List Call), w.Responsive →
    (State.start (calls.map (·.dialogue settings)) shared outside).Ends w State.Finished

theorem Shared.AtRest.works (h : shared.AtRest settings.slots) : shared.Works settings where
  admits callers hcallers := by
    rw [h.gate, Gate.enterAll_eq (by simpa using hcallers)]
    rfl
  slots w outside calls s hrun := by
    obtain ⟨hturn, hslot⟩ := h.follows calls_wellBehaved hrun
    exact hturn.free_add_taken hslot
  ends w outside calls hw := by
    apply State.ends_of_canGoOn
    intro s hrun hnot
    exact h.can_go_on (Nat.le_max_right _ _) hw calls_wellBehaved hrun hnot

/-- There is a resolver exactly if the settings do not ask for more searches at once than a gate can
have slots, and then it works. Every schedule of retries can be computed, and is bounded, whatever
numbers the policy is made of. -/
theorem set_up_iff (settings : Settings α) (given : Option IsinIndex) :
    ((∃ shared, Shared.ofSettings? settings given = some shared) ↔
      settings.concurrency ≤ Gate.maxSlots) ∧
    (∀ shared, Shared.ofSettings? settings given = some shared → shared.Works settings) ∧
    ∀ entropy, settings.retry.schedule? entropy = some (settings.retry.schedule entropy) ∧
      (settings.retry.schedule entropy).length ≤ Retry.Policy.maxAttempts + 1 := by
  refine ⟨exists_shared_iff, fun shared hshared => (Shared.AtRest.ofSettings hshared).works,
    fun entropy => ⟨Retry.Policy.schedule?_eq _ entropy, ?_⟩⟩
  rw [length_schedule]
  exact Nat.succ_le_succ (Nat.min_le_right _ _)

end

def vastSettings : Json.Document :=
  .object [(some "api_concurrency", .number (some (.int 18446744073709551615)))]

/-- These settings can be read, and there is no resolver with them. -/
theorem set_up_iff_vast :
    ∃ settings, Settings.ofDocument? vastSettings = some settings ∧
      ∀ given, ¬∃ shared, Shared.ofSettings? settings given = some shared := by
  refine ⟨_, rfl, fun given hshared => ?_⟩
  have hle := (set_up_iff _ given).1.1 hshared
  exact absurd hle (by decide)

end LegalEntity.Resolver
