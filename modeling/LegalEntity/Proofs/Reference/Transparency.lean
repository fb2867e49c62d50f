import LegalEntity.Proofs.Reference.Faults
import LegalEntity.Proofs.Runs.Completion

namespace LegalEntity.Resolver

section

variable {σ α : Type} [Scalar α] {w : Surroundings σ} {r : StatelessRegistry}
  {settings : Settings α} {given : σ → String → Json → Prop} {names : String → Prop}
  {batches : List (List Call)} {calls : List Call} {shared : Shared} {outside : σ}
  {s : State σ (Return α)} {i : Nat}

/-- The batches of calls that have come to their ends, the last first, with what they have left of
the resolver and of its surroundings. Between two batches there may be a new resolver over the same
cache. -/
inductive History (w : Surroundings σ) (settings : Settings α) (given : σ → String → Json → Prop) :
    List (List Call) → Shared → σ → Prop
  | start {shared : Shared} {outside : σ} : Shared.ofSettings? settings none = some shared →
      (∀ key v, ¬given outside key v) → History w settings given [] shared outside
  | renew {batches : List (List Call)} {shared fresh : Shared} {outside : σ} :
      History w settings given batches shared outside →
      Shared.ofSettings? settings none = some fresh → History w settings given batches fresh outside
  | batch {batches : List (List Call)} {calls : List Call} {shared : Shared} {outside : σ}
      {s : State σ (Return α)} : History w settings given batches shared outside →
      Run w (.start (calls.map (·.dialogue settings)) shared outside) s → s.Finished →
      History w settings given (calls :: batches) s.shared s.outside

def namesOf (batches : List (List Call)) (name : String) : Prop :=
  ∃ calls ∈ batches, ∃ q, Call.resolve q ∈ calls ∧ q.name = name

theorem calls_follow_values (hnames : Apart settings names)
    (hcalls : ∀ q, Call.resolve q ∈ calls → names q.name) :
    (State.start (calls.map (·.dialogue settings)) shared outside).Follows
      (fun _ => valueContract r settings names)
      fun i x _ => ∀ call, calls[i]? = some call → call.Tells r settings x := by
  apply calls_follow
  intro i call hcall
  have hname (q : Query) (hq : call = .resolve q) : names q.name :=
    hcalls q (hq ▸ List.mem_of_getElem? hcall)
  apply (call.keeps_values hnames hname).mono
  intro x g hx call' hcall'
  cases hcall.symm.trans hcall'
  exact hx

structure Trusted (r : StatelessRegistry) (settings : Settings α) (names : String → Prop)
    (given : σ → String → Json → Prop) (shared : Shared) (outside : σ) : Prop where
  given : ∀ key v, given outside key v → Sound r settings names key v
  index : ∀ x, shared.index = .ready x → x = r.index? settings
  rest : shared.AtRest settings.slots

theorem Trusted.truthful (h : Trusted r settings names given shared outside)
    (calls : List (Dialogue (Return α))) :
    Truthful r settings names given (State.start calls shared outside) where
  given := h.given
  index := h.index
  directories := .of_forall_none (fun _ => rfl) shared

theorem Trusted.run (h : Trusted r settings names given shared outside)
    (hw : w.Faulty r settings given) (hnames : Apart settings names)
    (hcalls : ∀ q, Call.resolve q ∈ calls → names q.name)
    (hrun : Run w (.start (calls.map (·.dialogue settings)) shared outside) s) :
    Truthful r settings names given s ∧ s.Follows (fun _ => valueContract r settings names)
      fun i x _ => ∀ call, calls[i]? = some call → call.Tells r settings x :=
  (Truthful.invariant hw).run hrun (h.truthful _) (calls_follow_values hnames hcalls)

theorem History.trusted (h : History w settings given batches shared outside)
    (hw : w.Faulty r settings given) (hnames : Apart settings names)
    (hbatches : ∀ name, namesOf batches name → names name) :
    Trusted r settings names given shared outside := by
  induction h with
  | start hshared hempty =>
    refine ⟨fun key v hv => absurd hv (hempty key v), fun x hx => ?_, .ofSettings hshared⟩
    rw [Shared.ofSettings_index hshared] at hx
    cases hx
  | renew _ hfresh ih =>
    refine ⟨(ih hbatches).given, fun x hx => ?_, .ofSettings hfresh⟩
    rw [Shared.ofSettings_index hfresh] at hx
    cases hx
  | @batch batches calls _ _ _ _ hrun hfinished ih =>
    have htrusted := ih fun name ⟨calls', hmem, h⟩ =>
      hbatches name ⟨calls', List.mem_cons_of_mem _ hmem, h⟩
    have hcalls : ∀ q, Call.resolve q ∈ calls → names q.name := fun q hq =>
      hbatches _ ⟨calls, List.mem_cons_self, q, hq, rfl⟩
    obtain ⟨htruthful, -⟩ := htrusted.run hw hnames hcalls hrun
    exact ⟨htruthful.given, htruthful.index, htrusted.rest.of_finished hrun hfinished⟩

/-- Whatever the calls so far and the faults of the cache, and in whatever order the calls of a batch
go on: each query that has been answered has the answer of the registry, but for the name tier that
tells it, and the calls can always go on until all queries have been answered. -/
theorem resolved_as_registry (hw : w.Faulty r settings given)
    (history : History w settings given batches shared outside)
    (hnames : Apart settings (namesOf (calls :: batches)))
    (hrun : Run w (.start (calls.map (·.dialogue settings)) shared outside) s) :
    (∀ i q x, calls[i]? = some (.resolve q) → s.result? i = some (.resolved x) →
      x = r.answer settings q .nameCache ∨ x = r.answer settings q .registrySearch) ∧
    (w.Responsive → ∃ t, Run w s t ∧ ∀ i q, calls[i]? = some (.resolve q) →
      ∃ x, t.result? i = some (.resolved x)) := by
  have htrusted : Trusted r settings (namesOf (calls :: batches)) given shared outside :=
    history.trusted hw hnames fun name ⟨calls', hmem, h⟩ =>
      ⟨calls', List.mem_cons_of_mem _ hmem, h⟩
  have hcalls : ∀ q, Call.resolve q ∈ calls → namesOf (calls :: batches) q.name := fun q hq =>
    ⟨calls, List.mem_cons_self, q, hq, rfl⟩
  constructor
  · intro i q x hi hx
    obtain ⟨-, hf⟩ := htrusted.run hw hnames hcalls hrun
    obtain ⟨y, hy, htold⟩ := hf.result hx _ hi
    cases hy
    exact htold
  · intro hresponsive
    obtain ⟨t, ht, hfinished⟩ := htrusted.rest.completes
      (Nat.lt_of_lt_of_le Nat.zero_lt_one (Nat.le_max_right ..)) hresponsive hrun
    refine ⟨t, ht, fun i q hi => ?_⟩
    have hall : Run w (.start (calls.map (·.dialogue settings)) shared outside) t := hrun.trans ht
    obtain ⟨-, hf⟩ := htrusted.run hw hnames hcalls hall
    have hlt : i < t.calls.length := by
      rw [hall.length_calls]
      simpa [State.start] using (List.getElem?_eq_some_iff.1 hi).1
    obtain ⟨a, hresult⟩ := hfinished.result hlt
    obtain ⟨x, rfl, -⟩ := hf.result hresult _ hi
    exact ⟨x, hresult⟩

end

theorem Surroundings.faulty_responsive {α : Type} (r : StatelessRegistry) (s : Settings α) :
    (Surroundings.faulty r s).Responsive where
  reads o _ := ⟨.ok none, o, rfl, nofun⟩
  writes o key v := ⟨.ok (), (key, v) :: o, rfl⟩
  replies o url parameters := ⟨r.reply url parameters, o, rfl, rfl⟩
  delivers o url := ⟨(r.archive url).1, (r.archive url).2, o, rfl, rfl⟩

theorem resolved_as_registry_twice :
    ∃ shared outside s,
      History (.faulty .offline (Settings.default (α := Rat))) (Settings.default (α := Rat))
        (fun given key v => (key, v) ∈ given) [[Call.resolve (named "Acme")]] shared outside ∧
      Run (.faulty .offline (Settings.default (α := Rat)))
        (.start ([Call.resolve (named "Acme")].map (·.dialogue (.default (α := Rat)))) shared outside)
        s ∧
      s.result? 0 = some (.resolved (.error (.notFound "Acme" none))) ∧
      (.error (.notFound "Acme" none) =
          StatelessRegistry.offline.answer (Settings.default (α := Rat)) (named "Acme") .nameCache ∨
        .error (.notFound "Acme" none) =
          StatelessRegistry.offline.answer (Settings.default (α := Rat)) (named "Acme")
            .registrySearch) ∧
      ∃ t, Run (.faulty .offline (Settings.default (α := Rat))) s t ∧
        ∃ x, t.result? 0 = some (.resolved x) := by
  have hshared : Shared.ofSettings? (Settings.default (α := Rat)) none =
      some ⟨⟨1, [], []⟩, .unclaimed, [], 0⟩ := rfl
  let keeps : Dialogue (Return Rat) :=
    .ask (.keep (Cache.nameKey "gleif_names" "Acme") NameOutcome.notFound.toJson) fun _ =>
      .ask .leave fun _ => .done (.resolved (answer (named "Acme") .registrySearch .notFound))
  obtain ⟨s, hrun, hfinished, houtside⟩ : ∃ s : State _ (Return Rat),
      Run (.faulty .offline (Settings.default (α := Rat)))
        (.start ([Call.resolve (named "Acme")].map (·.dialogue (.default (α := Rat))))
          ⟨⟨1, [], []⟩, .unclaimed, [], 0⟩ []) s ∧ s.Finished ∧
      s.outside = [(Cache.nameKey "gleif_names" "Acme", NameOutcome.notFound.toJson)] := by
    have hrun : Run (.faulty .offline (Settings.default (α := Rat)))
        (.start ([Call.resolve (named "Acme")].map (·.dialogue (.default (α := Rat))))
          ⟨⟨1, [], []⟩, .unclaimed, [], 0⟩ []) _ :=
      .answer 0 rfl (.error .io) ⟨⟨rfl, nofun⟩, rfl⟩ <| .answer 0 rfl () ⟨rfl, rfl⟩ <|
      .answer 0 rfl (.ok none) ⟨⟨rfl, nofun⟩, rfl⟩ <| .answer 0 rfl (0 : UInt64) rfl <|
      .answer 0 rfl (.error .io) ⟨⟨rfl, rfl⟩, rfl⟩ <|
      .answer 0 (show _ = some keeps by with_unfolding_all rfl) (.error .io) ⟨rfl, rfl⟩ <|
      .answer 0 rfl () ⟨rfl, rfl⟩ <| .refl
    refine ⟨_, hrun, fun t ht => ?_, rfl⟩
    cases List.mem_singleton.1 ht
    exact ⟨_, rfl⟩
  have history : History (.faulty .offline (Settings.default (α := Rat))) (Settings.default (α := Rat))
      (fun given key v => (key, v) ∈ given) [[Call.resolve (named "Acme")]]
      ⟨⟨1, [], []⟩, .unclaimed, [], 0⟩ s.outside :=
    .renew (.batch (.start hshared fun _ _ h => by cases h) hrun hfinished) hshared
  obtain ⟨t, hrun', hresult⟩ : ∃ t : State _ (Return Rat),
      Run (.faulty .offline (Settings.default (α := Rat)))
        (.start ([Call.resolve (named "Acme")].map (·.dialogue (.default (α := Rat))))
          ⟨⟨1, [], []⟩, .unclaimed, [], 0⟩ s.outside) t ∧
      t.result? 0 = some (.resolved (.error (.notFound "Acme" none))) := by
    have hread : (Cache.nameKey "gleif_names" "Acme", NameOutcome.notFound.toJson) ∈ s.outside := by
      rw [houtside]
      exact List.mem_singleton_self _
    have hrun' : Run (.faulty .offline (Settings.default (α := Rat)))
        (.start ([Call.resolve (named "Acme")].map (·.dialogue (.default (α := Rat))))
          ⟨⟨1, [], []⟩, .unclaimed, [], 0⟩ s.outside) _ :=
      .answer 0 rfl (.ok (some NameOutcome.notFound.toJson))
        ⟨⟨rfl, fun v hv => by cases hv; exact .inl hread⟩, rfl⟩ <| .refl
    exact ⟨_, hrun', rfl⟩
  have hname {name : String} (h : namesOf [[Call.resolve (named "Acme")],
      [Call.resolve (named "Acme")]] name) : name = "Acme" := by
    obtain ⟨calls, hcalls, q, hq, rfl⟩ := h
    simp only [List.mem_cons, List.not_mem_nil, or_false, or_self] at hcalls
    subst hcalls
    cases List.mem_singleton.1 hq
    rfl
  have hnames : Apart (Settings.default (α := Rat)) (namesOf [[Call.resolve (named "Acme")],
      [Call.resolve (named "Acme")]]) := by
    constructor
    · intro name h
      rw [hname h]
      decide
    · intro name other h h' _
      rw [hname h, hname h']
  obtain ⟨htold, hends⟩ :=
    resolved_as_registry (Surroundings.faulty_faulty _ _) history hnames hrun'
  obtain ⟨u, hrun'', hall⟩ := hends (Surroundings.faulty_responsive _ _)
  exact ⟨_, _, t, history, hrun', hresult, htold 0 _ _ rfl hresult, u, hrun'', hall 0 _ rfl⟩

end LegalEntity.Resolver
