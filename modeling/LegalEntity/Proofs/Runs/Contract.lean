import LegalEntity.Proofs.Runs.Basic
/-!
Contracts of a call with its surroundings: what it may ask for at each place, what it may count on
in return, and where it is after that. Calls that keep their contracts alone keep them together, if
the state that they share answers as each of them expects.
-/

namespace LegalEntity.Resolver

structure Contract (γ : Type) where
  start : γ
  allows : γ → Op → Prop
  expects : γ → (op : Op) → op.Answer → Prop
  next : γ → (op : Op) → op.Answer → γ

def Contract.place (c : Contract γ) (i : Nat) : List Event → γ
  | [] => c.start
  | e :: log =>
    if e.caller = i then c.next (c.place i log) e.op e.answer else c.place i log

@[simp] theorem Contract.place_nil (c : Contract γ) (i : Nat) : c.place i [] = c.start := rfl

@[simp] theorem Contract.place_cons_self (c : Contract γ) (i : Nat) (op : Op) (a : op.Answer)
    (log : List Event) : c.place i (⟨i, op, a⟩ :: log) = c.next (c.place i log) op a := by
  simp [Contract.place]

theorem Contract.place_cons_of_ne (c : Contract γ) {i j : Nat} (h : i ≠ j) (op : Op) (a : op.Answer)
    (log : List Event) : c.place j (⟨i, op, a⟩ :: log) = c.place j log := by
  simp [Contract.place, h]

theorem Contract.place_of_forall_ne (c : Contract γ) {i : Nat} {log : List Event}
    (h : ∀ e ∈ log, e.caller ≠ i) : c.place i log = c.start := by
  induction log with
  | nil => rfl
  | cons e log ih =>
    rw [Contract.place_cons_of_ne c (h e List.mem_cons_self)]
    exact ih fun d hd => h d (List.mem_cons_of_mem _ hd)

namespace Dialogue

def Keeps (c : Contract γ) (post : α → γ → Prop) : Dialogue α → γ → Prop
  | .done a, g => post a g
  | .ask op next, g =>
    c.allows g op ∧ ∀ a, c.expects g op a → (next a).Keeps c post (c.next g op a)

theorem Keeps.mono {c : Contract γ} {post post' : α → γ → Prop} {t : Dialogue α} {g : γ}
    (h : t.Keeps c post g) (hp : ∀ a g, post a g → post' a g) : t.Keeps c post' g := by
  induction t generalizing g with
  | done a => exact hp a g h
  | ask op next ih => exact ⟨h.1, fun a ha => ih a (h.2 a ha)⟩

theorem Keeps.weaken {c d : Contract γ} {post : α → γ → Prop} {t : Dialogue α} {g : γ}
    (h : t.Keeps c post g) (hallows : ∀ g op, c.allows g op → d.allows g op)
    (hexpects : ∀ g op a, d.expects g op a → c.expects g op a)
    (hnext : ∀ g op a, d.next g op a = c.next g op a) : t.Keeps d post g := by
  induction t generalizing g with
  | done a => exact h
  | ask op next ih =>
    refine ⟨hallows g op h.1, fun a ha => ?_⟩
    rw [hnext]
    exact ih a (h.2 a (hexpects g op a ha))

@[simp] theorem keeps_bind {c : Contract γ} {post : β → γ → Prop} {t : Dialogue α}
    {f : α → Dialogue β} {g : γ} :
    (t.bind f).Keeps c post g ↔ t.Keeps c (fun a g => (f a).Keeps c post g) g := by
  induction t generalizing g with
  | done a => rfl
  | ask op next ih => simp only [ask_bind, Keeps, ih]

theorem keeps_perform_bind {c : Contract γ} {post : α → γ → Prop} {op : Op}
    {f : op.Answer → Dialogue α} {g : γ} :
    ((perform op).bind f).Keeps c post g ↔
      c.allows g op ∧ ∀ a, c.expects g op a → (f a).Keeps c post (c.next g op a) := Iff.rfl

@[simp] theorem map_eq (f : α → β) (t : Dialogue α) : f <$> t = t.bind fun a => .done (f a) := rfl

def Asks (P : Op → Prop) : Dialogue α → Prop
  | .done _ => True
  | .ask op next => P op ∧ ∀ a, (next a).Asks P

theorem Asks.mono {P Q : Op → Prop} {t : Dialogue α} (h : t.Asks P) (hPQ : ∀ op, P op → Q op) :
    t.Asks Q := by
  induction t with
  | done a => trivial
  | ask op next ih => exact ⟨hPQ op h.1, fun a => ih a (h.2 a)⟩

theorem Asks.bind {P : Op → Prop} {t : Dialogue α} {f : α → Dialogue β} (ht : t.Asks P)
    (hf : ∀ a, (f a).Asks P) : (t.bind f).Asks P := by
  induction t with
  | done a => exact hf a
  | ask op next ih => exact ⟨ht.1, fun a => ih a (ht.2 a)⟩

theorem Asks.keeps {P : Op → Prop} {c : Contract γ} {post : α → γ → Prop} {t : Dialogue α} {g : γ}
    (h : t.Asks P) (hg : ∀ op, P op → c.allows g op ∧ ∀ a, c.next g op a = g)
    (hpost : ∀ a, post a g) : t.Keeps c post g := by
  induction t with
  | done a => exact hpost a
  | ask op next ih =>
    refine ⟨(hg op h.1).1, fun a _ => ?_⟩
    rw [(hg op h.1).2 a]
    exact ih a (h.2 a)

end Dialogue

def State.Follows (c : Nat → Contract γ) (post : Nat → α → γ → Prop) (s : State σ α) : Prop :=
  ∀ (i : Nat) (t : Dialogue α), s.calls[i]? = some t → t.Keeps (c i) (post i) ((c i).place i s.log)

section

variable {c : Nat → Contract γ} {post : Nat → α → γ → Prop} {w : Surroundings σ}
  {s t : State σ α} {i : Nat} {op : Op} {next : op.Answer → Dialogue α} {a : op.Answer}

theorem State.Follows.allows (h : s.Follows c post) (hi : s.StandsAt i op) :
    (c i).allows ((c i).place i s.log) op := by
  obtain ⟨next, hi⟩ := hi
  exact (h i _ hi).1

theorem State.calls_goOn_of_ne {j : Nat} (h : i ≠ j) (shared : Shared) (outside : σ) :
    (s.goOn i op next a shared outside).calls[j]? = s.calls[j]? := by
  simp [State.goOn, List.getElem?_set_ne h]

theorem State.calls_goOn_self {u : Dialogue α} (hi : s.calls[i]? = some u) (shared : Shared)
    (outside : σ) : (s.goOn i op next a shared outside).calls[i]? = some (next a) := by
  have hlt : i < s.calls.length := (List.getElem?_eq_some_iff.1 hi).1
  simp [State.goOn, hlt]

theorem State.Follows.start {calls : List (Dialogue α)} {shared : Shared} {outside : σ}
    (h : ∀ (i : Nat) (t : Dialogue α), calls[i]? = some t → t.Keeps (c i) (post i) (c i).start) :
    (State.start calls shared outside).Follows c post := h

theorem State.Follows.result {b : α} (h : s.Follows c post) (hb : s.result? i = some b) :
    post i b ((c i).place i s.log) := by
  obtain ⟨t, hi, ht⟩ := Option.bind_eq_some_iff.1 hb
  cases t with
  | done b' =>
    cases ht
    exact h i _ hi
  | ask op next => cases ht

theorem State.Follows.goOn (h : s.Follows c post) (hi : s.calls[i]? = some (.ask op next))
    (ha : (c i).expects ((c i).place i s.log) op a) (shared : Shared) (outside : σ) :
    (s.goOn i op next a shared outside).Follows c post := by
  intro j t hj
  by_cases hij : i = j
  · subst hij
    rw [State.calls_goOn_self hi] at hj
    cases hj
    simpa [State.goOn] using (h i _ hi).2 a ha
  · rw [State.calls_goOn_of_ne hij] at hj
    simpa [State.goOn, Contract.place_cons_of_ne _ hij] using h j t hj

/-- A property of states that every step keeps, and that makes answers as the contracts expect
them. -/
structure Invariant (w : Surroundings σ) (c : Nat → Contract γ) (post : Nat → α → γ → Prop)
    (I : State σ α → Prop) : Prop where
  answer : ∀ {s : State σ α} {i : Nat} {op : Op} {next : op.Answer → Dialogue α} {a : op.Answer}
    {shared : Shared} {outside : σ}, I s → s.Follows c post → s.calls[i]? = some (.ask op next) →
    w.Serves i op a (s.shared, s.outside) (shared, outside) →
    (c i).expects ((c i).place i s.log) op a ∧ I (s.goOn i op next a shared outside)
  wait : ∀ {s : State σ α} {i : Nat} {op : Op} {next : op.Answer → Dialogue α} {shared : Shared},
    I s → s.Follows c post → s.calls[i]? = some (.ask op next) →
    s.shared.serve i op = some (.blocked shared) → I { s with shared }

theorem Invariant.run {I : State σ α → Prop} (hI : Invariant w c post I) (h : Run w s t) (hs : I s)
    (hf : s.Follows c post) : I t ∧ t.Follows c post := by
  induction h with
  | refl => exact ⟨hs, hf⟩
  | tail _ step ih =>
    obtain ⟨ht, hft⟩ := ih
    cases step with
    | answer hi hw =>
      obtain ⟨ha, hI'⟩ := hI.answer ht hft hi hw
      exact ⟨hI', hft.goOn hi ha _ _⟩
    | wait hi hb => exact ⟨hI.wait ht hft hi hb, fun j t hj => hft j t hj⟩

theorem Run.follows (h : Run w s t) (hexpects : ∀ i g op a, (c i).expects g op a)
    (hf : s.Follows c post) : t.Follows c post := by
  have hI : Invariant w c post fun _ => True :=
    ⟨fun _ _ _ _ => ⟨hexpects .., trivial⟩, fun _ _ _ _ => trivial⟩
  exact (hI.run h trivial hf).2

end

def Contract.free (g : γ) : Contract γ where
  start := g
  allows _ _ := True
  expects _ _ _ := True
  next g _ _ := g

theorem Dialogue.keeps_free (t : Dialogue α) (g h : γ) :
    t.Keeps (.free h) (fun _ _ => True) g := by
  induction t with
  | done a => trivial
  | ask op next ih => exact ⟨trivial, fun a _ => ih a⟩

def Contract.Kept (c : Contract γ) (i : Nat) (log : List Event) : Prop :=
  ∀ after e before, log = after ++ e :: before → e.caller = i → c.allows (c.place i before) e.op

theorem Contract.Kept.cons {c : Contract γ} {i j : Nat} {op : Op} {a : op.Answer}
    {log : List Event} (h : c.Kept i log) (hop : j = i → c.allows (c.place i log) op) :
    c.Kept i (⟨j, op, a⟩ :: log) := by
  intro after e before hlog he
  cases after with
  | nil =>
    cases hlog
    exact hop he
  | cons d after =>
    cases hlog
    exact h after e before rfl he

theorem Run.keeps_alone {w : Surroundings σ} {calls : List (Dialogue α)} {shared : Shared}
    {outside : σ} {s : State σ α} {c : Contract γ} {post : α → γ → Prop} {i : Nat} {t : Dialogue α}
    (hrun : Run w (.start calls shared outside) s) (hexpects : ∀ g op a, c.expects g op a)
    (hi : calls[i]? = some t) (ht : t.Keeps c post c.start) :
    c.Kept i s.log ∧ ∀ b, s.result? i = some b → post b (c.place i s.log) := by
  let family (j : Nat) : Contract γ := if j = i then c else .free c.start
  have hfamily : family i = c := if_pos rfl
  have hI : Invariant w family (fun j b g => j = i → post b g) fun s => c.Kept i s.log := by
    refine ⟨fun {s j op next a shared outside} hs hf hj hw => ⟨?_, ?_⟩, fun hs _ _ _ => hs⟩
    · by_cases hji : j = i
      · subst hji
        rw [hfamily]
        exact hexpects _ _ _
      · rw [show family j = .free c.start from if_neg hji]
        trivial
    · apply hs.cons
      intro hji
      subst hji
      have hallow := hf.allows ⟨next, hj⟩
      rwa [hfamily] at hallow
  have hstart : (State.start calls shared outside).Follows family fun j b g => j = i → post b g := by
    apply State.Follows.start
    intro j u hj
    by_cases hji : j = i
    · subst hji
      rw [hi] at hj
      cases hj
      rw [hfamily]
      exact ht.mono fun b g h _ => h
    · rw [show family j = .free c.start from if_neg hji]
      exact (u.keeps_free c.start c.start).mono fun b g _ h => absurd h hji
  obtain ⟨hs, hf⟩ := hI.run hrun (fun after e before h => by cases after <;> cases h) hstart
  refine ⟨hs, fun b hb => ?_⟩
  have hpost := hf.result hb rfl
  rwa [hfamily] at hpost

end LegalEntity.Resolver
