import LegalEntity.Proofs.Cache.Fading
import LegalEntity.Proofs.Runs.Completion

namespace LegalEntity.Resolver

open Cache (FadingStore found? shown)

section

variable {σ α : Type} {w : Surroundings σ} {key : String} {stored : σ → Option Json}

/-- Readings of a key find what is stored under it, and nothing comes to be stored under it but by
writing. -/
structure Surroundings.Shows (w : Surroundings σ) (key : String) (stored : σ → Option Json) :
    Prop where
  found : ∀ {o p : σ} {a : Except Cache.Error (Option Json)}, w.reads o key a p → found? a = stored o
  reads : ∀ {o p : σ} {k : String} {a : Except Cache.Error (Option Json)} {v : Json},
    w.reads o k a p → stored p = some v → stored o = some v
  replies : ∀ {o p : σ} {url : String} {parameters : Registry.Parameters} {a : Registry.Outcome}
    {v : Json}, w.replies o url parameters a p → stored p = some v → stored o = some v
  delivers : ∀ {o p : σ} {url : String} {a : Except Error Unit} {file : Option (List UInt8)}
    {v : Json}, w.delivers o url a file p → stored p = some v → stored o = some v

def Surroundings.Spares (w : Surroundings σ) (stored : σ → Option Json) (k : String) : Prop :=
  ∀ {o p : σ} {u : Json} {a : Except Cache.Error Unit} {v : Json},
    w.writes o k u a p → stored p = some v → stored o = some v

theorem Surroundings.Shows.of_serves (hw : w.Shows key stored) {i : Nat} {op : Op} {a : op.Answer}
    {x y : Shared} {o p : σ} (h : w.Serves i op a (x, o) (y, p))
    (hop : ∀ k u, op = .keep k u → w.Spares stored k) {v : Json} (hv : stored p = some v) :
    stored o = some v := by
  rcases h.outside with rfl | ⟨k, b, hp⟩ | ⟨k, u, b, rfl, hp⟩ | ⟨url, parameters, b, hp⟩ |
    ⟨url, b, file, hp⟩
  · exact hv
  · exact hw.reads hp hv
  · exact hop k u rfl hp hv
  · exact hw.replies hp hv
  · exact hw.delivers hp hv

theorem Surroundings.Shows.of_run (hw : w.Shows key stored) {s t : State σ α} (hrun : Run w s t)
    (h : ∀ e ∈ t.log, ∀ k u, e.op = .keep k u → w.Spares stored k) {v : Json}
    (hv : stored t.outside = some v) : stored s.outside = some v := by
  induction hrun with
  | refl => exact hv
  | tail _ step ih =>
    cases step with
    | answer hi hserves =>
      obtain ⟨hop, hlog⟩ := List.forall_mem_cons.1 h
      exact ih hlog (hw.of_serves hserves hop hv)
    | wait hi hb => exact ih h hv

end

section

variable {σ : Type} [Cache.Store σ] {key : String}

/-- A store, and the moment at which it is read or written next. It never comes before the last. -/
def Surroundings.clocked (σ : Type) [Cache.Store σ] : Surroundings (σ × Cache.Moment) where
  reads o key a p := Cache.Store.get o.2 key o.1 = (a, p.1) ∧ o.2.now.instant ≤ p.2.now.instant
  writes o key v a p :=
    Cache.Store.put o.2 key v o.1 = (a, p.1) ∧ o.2.now.instant ≤ p.2.now.instant
  replies o _ _ _ p := p.1 = o.1 ∧ o.2.now.instant ≤ p.2.now.instant
  delivers o _ _ _ p := p.1 = o.1 ∧ o.2.now.instant ≤ p.2.now.instant
  refuses _ := True

theorem Surroundings.clocked_responsive : (Surroundings.clocked σ).Responsive where
  reads o _ := ⟨_, (_, o.2), rfl, Int.le_refl _⟩
  writes o _ _ := ⟨_, (_, o.2), rfl, Int.le_refl _⟩
  replies o _ _ := ⟨.error .io, o, rfl, Int.le_refl _⟩
  delivers o _ := ⟨.error .io, none, o, rfl, Int.le_refl _⟩

theorem Surroundings.clocked_shows [FadingStore σ] :
    (Surroundings.clocked σ).Shows key fun o => shown o.2 key o.1 where
  found {o p a} h := by rw [shown, h.1]
  reads {o p k a v} h hv := by
    obtain ⟨t, later⟩ := p
    obtain ⟨hget, hle⟩ := h
    obtain rfl : (Cache.Store.get o.2 k o.1).2 = t := congrArg Prod.snd hget
    exact Cache.shown_of_get hle hv
  replies {o p _ _ _ v} h hv := by
    rw [h.1] at hv
    exact FadingStore.of_later h.2 hv
  delivers {o p _ _ _ v} h hv := by
    rw [h.1] at hv
    exact FadingStore.of_later h.2 hv

end

end LegalEntity.Resolver
