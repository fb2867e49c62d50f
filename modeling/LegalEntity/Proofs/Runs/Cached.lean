import LegalEntity.Proofs.Cache.Lasting
import LegalEntity.Proofs.Runs.Completion

namespace LegalEntity.Resolver

open Cache (PlacedStore KeepingStore Durable Endures)
open Cache.PlacedStore (part place)

def Op.cacheKey? : Op → Option String
  | lookUp key => some key
  | keep key _ => some key
  | _ => none

def Surroundings.cached (σ : Type) [Cache.Store σ] : Surroundings σ where
  reads o key a p := ∃ m : Cache.Moment, m.now.IsUtc ∧ Cache.Store.get m key o = (a, p)
  writes o key v a p := ∃ m : Cache.Moment, m.now.IsUtc ∧ Cache.Store.put m key v o = (a, p)
  replies o _ _ _ p := p = o
  delivers o _ _ _ p := p = o
  refuses _ := True

def newYear : Cache.Moment := ⟨⟨2026, 1, 1, 0, 0, 0, 0, 0⟩, 0⟩

section

variable {σ α : Type} [Cache.Store σ] {i : Nat} {op : Op} {a : op.Answer} {x y : Shared} {o p : σ}
  {key : String} {v : Json} {s t : State σ α}

theorem Surroundings.cached_responsive : (Surroundings.cached σ).Responsive where
  reads o key := ⟨_, _, newYear, by decide, rfl⟩
  writes o key v := ⟨_, _, newYear, by decide, rfl⟩
  replies o _ _ := ⟨.error .io, o, rfl⟩
  delivers o _ := ⟨.error .io, none, o, rfl⟩

theorem Surroundings.Serves.outside_eq
    (h : (Surroundings.cached σ).Serves i op a (x, o) (y, p)) (hop : op.cacheKey? = none) :
    p = o := by
  cases op with
  | lookUp | keep => cases hop
  | fetch => exact h.1
  | download =>
    obtain ⟨file, h, -⟩ := h
    exact h
  | pause | draw => exact congrArg Prod.snd h
  | enter | leave | claimIndex | publishIndex | openScratch | readScratch | closeScratch =>
    exact h.2

theorem Surroundings.Serves.part_eq [PlacedStore σ]
    (h : (Surroundings.cached σ).Serves i op a (x, o) (y, p))
    (hop : ∀ k ∈ op.cacheKey?, place σ key ≠ place σ k) : part key p = part key o := by
  cases op with
  | lookUp k =>
    obtain ⟨⟨m, -, hget⟩, -⟩ := h
    have hpart := PlacedStore.get_of_ne m o (hop k rfl)
    rwa [hget] at hpart
  | keep k v =>
    obtain ⟨⟨m, -, hput⟩, -⟩ := h
    have hpart := PlacedStore.put_of_ne m v o (hop k rfl)
    rwa [hput] at hpart
  | _ => rw [h.outside_eq rfl]

variable [KeepingStore σ]

theorem Surroundings.Serves.durable (h : (Surroundings.cached σ).Serves i op a (x, o) (y, p))
    (ho : Durable key o) (hop : ∀ k u, op = .keep k u → place σ key = place σ k → u.IsTexts) :
    Durable key p := by
  cases op with
  | lookUp k =>
    obtain ⟨⟨m, -, hget⟩, -⟩ := h
    have hdurable := ho.get m k
    rwa [hget] at hdurable
  | keep k u =>
    by_cases hplace : place σ key = place σ k
    · obtain ⟨⟨m, hm, hput⟩, -⟩ := h
      have hendures := ho.put hplace hm (hop k u rfl hplace)
      rw [hput] at hendures
      exact hendures.toDurable
    · refine ho.of_part_eq (h.part_eq fun k' hk' => ?_)
      cases hk'
      exact hplace
  | _ => rwa [h.outside_eq rfl]

theorem Surroundings.Serves.endures (h : (Surroundings.cached σ).Serves i op a (x, o) (y, p))
    (ho : Endures key v o) (hv : v.IsTexts)
    (hop : ∀ k u, op = .keep k u → place σ key = place σ k → u = v) : Endures key v p := by
  cases op with
  | lookUp k =>
    obtain ⟨⟨m, -, hget⟩, -⟩ := h
    have hendures := ho.get m k
    rwa [hget] at hendures
  | keep k u =>
    by_cases hplace : place σ key = place σ k
    · obtain ⟨⟨m, hm, hput⟩, -⟩ := h
      cases hop k u rfl hplace
      have hendures := ho.toDurable.put hplace hm hv
      rwa [hput] at hendures
    · refine ho.of_part_eq (h.part_eq fun k' hk' => ?_)
      cases hk'
      exact hplace
  | _ => rwa [h.outside_eq rfl]

theorem Surroundings.Serves.endures_keep {k : String} {a : Except Cache.Error Unit}
    (h : (Surroundings.cached σ).Serves i (.keep k v) a (x, o) (y, p)) (ho : Durable key o)
    (hv : v.IsTexts) (hplace : place σ key = place σ k) : Endures key v p := by
  obtain ⟨⟨m, hm, hput⟩, -⟩ := h
  have hendures := ho.put hplace hm hv
  rwa [hput] at hendures

theorem Surroundings.Serves.reads_entry {a : Except Cache.Error (Option Json)}
    (h : (Surroundings.cached σ).Serves i (.lookUp key) a (x, o) (y, p)) (ho : Endures key v o) :
    a = .ok (some v) := by
  obtain ⟨⟨m, -, hget⟩, -⟩ := h
  have hanswer := (ho.read m).1
  rwa [hget] at hanswer

theorem Run.endures (hrun : Run (.cached σ) s t) (hdurable : Durable key s.outside) (hv : v.IsTexts)
    (honly : ∀ e ∈ t.log, ∀ k u, e.op = .keep k u → place σ key = place σ k → u = v)
    (hstart : s.log = []) {e : Event} (he : e ∈ t.log) (hop : e.op = .keep key v) :
    Endures key v t.outside := by
  have hkept : Durable key t.outside ∧
      ((∃ e ∈ t.log, e.op = .keep key v) → Endures key v t.outside) := by
    clear he
    induction hrun with
    | refl =>
      refine ⟨hdurable, ?_⟩
      rintro ⟨d, hd, -⟩
      rw [hstart] at hd
      cases hd
    | tail _ step ih =>
      cases step with
      | @answer i op next a shared outside hi hserves =>
        obtain ⟨hop, hlog⟩ := List.forall_mem_cons.1 honly
        obtain ⟨hdurable, hendures⟩ := ih hlog
        refine ⟨hserves.durable hdurable fun k u hkeep hplace => hop k u hkeep hplace ▸ hv, ?_⟩
        rintro ⟨d, hd, hkeep⟩
        cases List.mem_cons.1 hd with
        | inl hd =>
          subst hd
          cases hkeep
          exact hserves.endures_keep hdurable hv rfl
        | inr hd => exact hserves.endures (hendures ⟨d, hd, hkeep⟩) hv hop
      | wait hi hb => exact ih honly
  exact hkept.2 ⟨e, he, hop⟩

end

end LegalEntity.Resolver
