import LegalEntity.Proofs.Runs.Cached
import LegalEntity.Proofs.Runs.Path

namespace LegalEntity.Resolver

open Cache (PlacedStore)
open Cache.PlacedStore (part place)

def Touches {σ β : Type} (used : Prop) (f : Cache.Moment → σ → β × σ) (o : σ) (a : β) (p : σ) :
    Prop :=
  (used → ∃ m, m.now.IsUtc ∧ f m o = (a, p)) ∧ (¬used → p = o)

/-- A store of which only some keys are used. Under the others the cache may answer anything. -/
def Surroundings.cachedUnder (σ : Type) [Cache.Store σ] (mine : String → Prop) :
    Surroundings σ where
  reads o key a p := Touches (mine key) (Cache.Store.get · key) o a p
  writes o key v a p := Touches (mine key) (Cache.Store.put · key v) o a p
  replies o _ _ _ p := p = o
  delivers o _ _ _ p := p = o
  refuses _ := True

section

variable {σ τ α : Type} {w : Surroundings σ} {w' : Surroundings τ} {s t : State σ α} {P : Op → Prop}

def State.AllAsk (P : Op → Prop) (s : State σ α) : Prop := ∀ t ∈ s.calls, t.Asks P

theorem Step.allAsk (h : Step w s t) (hs : s.AllAsk P) : t.AllAsk P := by
  cases h with
  | @answer i op next a shared outside hi hw =>
    intro u hu
    cases List.mem_or_eq_of_mem_set hu with
    | inl hu => exact hs u hu
    | inr hu => exact hu ▸ (hs _ (List.mem_of_getElem? hi)).2 a
  | wait hi hb => exact hs

theorem State.AllAsk.stands (hs : s.AllAsk P) {i : Nat} {op : Op} (hi : s.StandsAt i op) :
    P op := by
  obtain ⟨next, hi⟩ := hi
  exact (hs _ (List.mem_of_getElem? hi)).1

theorem Step.simulate {R : σ → τ → Prop} {o : τ} (h : Step w s t) (ho : R s.outside o)
    (hserves : ∀ {i op a y q}, s.StandsAt i op → w.Serves i op a (s.shared, s.outside) (y, q) →
      ∃ o', w'.Serves i op a (s.shared, o) (y, o') ∧ R q o') :
    ∃ o', Step w' (⟨s.calls, s.shared, o, s.log⟩ : State τ α) ⟨t.calls, t.shared, o', t.log⟩ ∧
      R t.outside o' := by
  cases h with
  | answer hi hw =>
    obtain ⟨o', hw', ho'⟩ := hserves ⟨_, hi⟩ hw
    exact ⟨o', .answer hi hw', ho'⟩
  | wait hi hb => exact ⟨o, .wait hi hb, ho⟩

end

section

variable {σ α β : Type} [Cache.Store σ] [PlacedStore σ] {mine : String → Prop} {o p q : σ}
  {i : Nat} {op : Op} {a : op.Answer} {x y : Shared}

def Agree (mine : String → Prop) (o p : σ) : Prop := ∀ key, mine key → part key o = part key p

theorem Agree.get (h : Agree mine o p) (m : Cache.Moment) {key : String} (hkey : mine key) :
    (Cache.Store.get m key o).1 = (Cache.Store.get m key p).1 ∧
      Agree mine (Cache.Store.get m key o).2 (Cache.Store.get m key p).2 := by
  obtain ⟨hanswer, hpart⟩ := PlacedStore.get_congr m key (h key hkey)
  refine ⟨hanswer, fun other hother => ?_⟩
  by_cases hplace : place σ other = place σ key
  · rw [PlacedStore.part_eq _ hplace, PlacedStore.part_eq _ hplace]
    exact hpart
  · rw [PlacedStore.get_of_ne m o hplace, PlacedStore.get_of_ne m p hplace]
    exact h other hother

theorem Agree.put (h : Agree mine o p) (m : Cache.Moment) {key : String} (hkey : mine key)
    (v : Json) : (Cache.Store.put m key v o).1 = (Cache.Store.put m key v p).1 ∧
      Agree mine (Cache.Store.put m key v o).2 (Cache.Store.put m key v p).2 := by
  obtain ⟨hanswer, hpart⟩ := PlacedStore.put_congr m key v (h key hkey)
  refine ⟨hanswer, fun other hother => ?_⟩
  by_cases hplace : place σ other = place σ key
  · rw [PlacedStore.part_eq _ hplace, PlacedStore.part_eq _ hplace]
    exact hpart
  · rw [PlacedStore.put_of_ne m v o hplace, PlacedStore.put_of_ne m v p hplace]
    exact h other hother

variable (σ mine) in
def Op.Elsewhere (op : Op) : Prop := ∀ k ∈ op.cacheKey?, ∀ key, mine key → place σ key ≠ place σ k

theorem Surroundings.Serves.agree (h : (Surroundings.cached σ).Serves i op a (x, o) (y, p))
    (hop : op.Elsewhere σ mine) : Agree mine o p :=
  fun key hkey => (h.part_eq fun k hk => hop k hk key hkey).symm

theorem Agree.trans {o' : σ} (h : Agree mine o p) (h' : Agree mine p o') : Agree mine o o' :=
  fun key hkey => (h key hkey).trans (h' key hkey)

theorem Agree.symm (h : Agree mine o p) : Agree mine p o := fun key hkey => (h key hkey).symm

theorem Agree.touches {γ : Type} {f : Cache.Moment → σ → γ × σ} {used : Prop} {b : γ}
    (h : Agree mine o p)
    (hf : used → ∀ m, (f m o).1 = (f m p).1 ∧ Agree mine (f m o).2 (f m p).2)
    (hw : Touches used f o b q) : ∃ p', Touches used f p b p' ∧ Agree mine q p' := by
  obtain ⟨hmine, hothers⟩ := hw
  by_cases hused : used
  · obtain ⟨m, hm, hanswer⟩ := hmine hused
    obtain ⟨halike, hagree⟩ := hf hused m
    rw [hanswer] at halike hagree
    exact ⟨(f m p).2, ⟨fun _ => ⟨m, hm, Prod.ext halike.symm rfl⟩, fun hn => absurd hused hn⟩,
      hagree⟩
  · cases hothers hused
    exact ⟨p, ⟨fun hu => absurd hu hused, fun _ => rfl⟩, h⟩

theorem Agree.serves (h : Agree mine o p)
    (hw : (Surroundings.cachedUnder σ mine).Serves i op a (x, o) (y, q)) :
    ∃ p', (Surroundings.cachedUnder σ mine).Serves i op a (x, p) (y, p') ∧ Agree mine q p' := by
  cases op with
  | lookUp k =>
    obtain ⟨htouches, hshared⟩ := hw
    obtain ⟨p', htouches', hagree⟩ := h.touches (fun hk m => h.get m hk) htouches
    exact ⟨p', ⟨htouches', hshared⟩, hagree⟩
  | keep k v =>
    obtain ⟨htouches, hshared⟩ := hw
    obtain ⟨p', htouches', hagree⟩ := h.touches (fun hk m => h.put m hk v) htouches
    exact ⟨p', ⟨htouches', hshared⟩, hagree⟩
  | fetch url parameters =>
    obtain ⟨hq, hshared⟩ := hw
    cases hq
    exact ⟨p, ⟨rfl, hshared⟩, h⟩
  | download url n =>
    obtain ⟨file, hq, hshared⟩ := hw
    cases hq
    exact ⟨p, ⟨file, rfl, hshared⟩, h⟩
  | pause | draw =>
    cases hw
    exact ⟨p, rfl, h⟩
  | openScratch =>
    obtain ⟨hopens, hq⟩ := hw
    cases hq
    exact ⟨p, ⟨hopens, rfl⟩, h⟩
  | enter | leave | claimIndex | publishIndex | readScratch | closeScratch =>
    obtain ⟨hserve, hq⟩ := hw
    cases hq
    exact ⟨p, ⟨hserve, rfl⟩, h⟩

theorem Surroundings.Serves.under (h : (Surroundings.cached σ).Serves i op a (x, o) (y, q))
    (hop : (∀ k ∈ op.cacheKey?, mine k) ∨ (∀ k ∈ op.cacheKey?, ¬mine k) ∧ op.Elsewhere σ mine) :
    ∃ q', (Surroundings.cachedUnder σ mine).Serves i op a (x, o) (y, q') ∧ Agree mine q q' := by
  cases op with
  | lookUp k | keep k =>
    obtain hmine | ⟨hothers, helse⟩ := hop
    · exact ⟨q, ⟨⟨fun _ => h.1, fun hn => absurd (hmine k rfl) hn⟩, h.2⟩, fun _ _ => rfl⟩
    · exact ⟨o, ⟨⟨fun hk => absurd hk (hothers k rfl), fun _ => rfl⟩, h.2⟩, (h.agree helse).symm⟩
  | _ => exact ⟨q, h, fun _ _ => rfl⟩

inductive Beside (w : Surroundings σ) (first : State σ α) (second : State σ β) (o : σ) :
    State σ α → State σ β → σ → Prop
  | start : Beside w first second o first second o
  | left {s s' : State σ α} {t : State σ β} {p : σ} : Beside w first second o s t p →
      Step w { s with outside := p } s' → Beside w first second o s' t s'.outside
  | right {s : State σ α} {t t' : State σ β} {p : σ} : Beside w first second o s t p →
      Step w { t with outside := p } t' → Beside w first second o s t' t'.outside

section

variable {s s' : State σ α} {t t' : State σ β}

theorem Run.of_agree (h : Run (.cachedUnder σ mine) t t') (ho : Agree mine t.outside o) :
    ∃ o', Run (.cachedUnder σ mine) { t with outside := o } { t' with outside := o' } ∧
      Agree mine t'.outside o' := by
  induction h with
  | refl => exact ⟨o, .refl, ho⟩
  | tail _ step ih =>
    obtain ⟨o', hrun, ho'⟩ := ih
    obtain ⟨p', hstep, hp'⟩ := step.simulate (R := Agree mine) ho' fun _ hw => ho'.serves hw
    exact ⟨p', hrun.tail hstep, hp'⟩

theorem Run.agree (h : Run (.cached σ) s s') (hs : s.AllAsk (·.Elsewhere σ mine)) :
    s'.AllAsk (·.Elsewhere σ mine) ∧ Agree mine s.outside s'.outside := by
  induction h with
  | refl => exact ⟨hs, fun _ _ => rfl⟩
  | tail _ step ih =>
    obtain ⟨ht, hagree⟩ := ih
    refine ⟨step.allAsk ht, ?_⟩
    cases step with
    | answer hi hw => exact hagree.trans (hw.agree (ht.stands ⟨_, hi⟩))
    | wait hi hb => exact hagree

/-- The run of a resolver beside another one is a run that it can have alone, if the other one only
works elsewhere in the store. -/
theorem Beside.alone {first : State σ α} {second : State σ β}
    (h : Beside (.cached σ) first second o s t p) (hfirst : first.AllAsk (·.Elsewhere σ mine))
    (hsecond : second.AllAsk fun op => (∀ k ∈ op.cacheKey?, mine k) ∨
      (∀ k ∈ op.cacheKey?, ¬mine k) ∧ op.Elsewhere σ mine) :
    ∃ p', Run (.cachedUnder σ mine) { second with outside := o } { t with outside := p' } ∧
      Agree mine p p' := by
  obtain ⟨-, -, halone⟩ : s.AllAsk (·.Elsewhere σ mine) ∧ t.AllAsk (fun op =>
      (∀ k ∈ op.cacheKey?, mine k) ∨ (∀ k ∈ op.cacheKey?, ¬mine k) ∧ op.Elsewhere σ mine) ∧
      ∃ p', Run (.cachedUnder σ mine) { second with outside := o } { t with outside := p' } ∧
        Agree mine p p' := by
    -- the run alone makes the steps of the second resolver, over a store of its own
    induction h with
    | start => exact ⟨hfirst, hsecond, o, .refl, fun _ _ => rfl⟩
    | left _ hstep ih =>
      obtain ⟨hs, ht, p', hrun, hp'⟩ := ih
      refine ⟨hstep.allAsk hs, ht, p', hrun, ?_⟩
      cases hstep with
      | answer hi hw =>
        exact (hw.agree (hs.stands ⟨_, hi⟩)).symm.trans hp'
      | wait hi hb => exact hp'
    | right _ hstep ih =>
      obtain ⟨hs, ht, p', hrun, hp'⟩ := ih
      obtain ⟨q, hstep', hq⟩ := hstep.simulate (R := Agree mine) hp' fun hi hw => by
        obtain ⟨q', hunder, hq'⟩ := hw.under (ht.stands hi)
        obtain ⟨q'', hserves, hq''⟩ := hp'.serves hunder
        exact ⟨q'', hserves, hq'.trans hq''⟩
      exact ⟨hs, hstep.allAsk ht, q, hrun.tail hstep', hq⟩
  exact halone

end

end

end LegalEntity.Resolver
