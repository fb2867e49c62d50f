import LegalEntity.Proofs.Names.Tiers
import LegalEntity.Proofs.Runs.Alike
import LegalEntity.Proofs.Runs.Reliable

namespace LegalEntity

def Query.withoutIsin (q : Query) : Query := { q with isin := none }

end LegalEntity

namespace LegalEntity.Resolver

open Cache (nameKey)

def echo (isin : Option String) : Except Error Identity → Except Error Identity
  | .ok x => .ok { x with isin }
  | .error (.notFound name _) => .error (.notFound name isin)
  | .error e => .error e

def Return.echo {α : Type} (isin : Option String) : Return α → Return α
  | .resolved r => .resolved (Resolver.echo isin r)
  | r => r

theorem answer_echo (q : Query) (source : Source) (outcome : NameOutcome) :
    answer q source outcome = echo q.isin (answer q.withoutIsin source outcome) := by
  cases outcome <;> rfl

section

variable {α : Type} [Scalar α] {s : Settings α} {q : Query}

theorem byName_echo : byName s q =
    (byName s q.withoutIsin).bind fun r => .done (echo q.isin r) := by
  have hanswer := answer_echo q
  rw [byName_eq, byName_eq, Dialogue.bind_assoc]
  refine congrArg (Dialogue.bind _) (funext fun r => ?_)
  cases r with
  | some outcome => simp [hanswer]
  | none =>
    refine congrArg (Dialogue.ask Op.enter) (funext fun _ => ?_)
    refine Eq.trans (congrArg (Dialogue.bind _) (funext fun r => ?_)) (Dialogue.bind_assoc ..).symm
    cases r with
    | some outcome => simp [hanswer]
    | none =>
      refine Eq.trans (congrArg (Dialogue.bind _) (funext fun t => ?_))
        (Dialogue.bind_assoc ..).symm
      simp only [hanswer, Dialogue.ask_bind, Dialogue.done_bind]
      rfl

def afterIndex (s : Settings α) (q : Query) : Dialogue (Return α) := .resolved <$> byName s q

theorem dialogue_withoutIsin : (Call.resolve q.withoutIsin).dialogue s = afterIndex s q.withoutIsin := by
  rw [Call.dialogue, resolve, byIsin_of_none rfl]
  rfl

theorem afterIndex_renders : Renders (Return.echo q.isin) (afterIndex s q)
    ((Call.resolve q.withoutIsin).dialogue s) := by
  rw [Renders, dialogue_withoutIsin, afterIndex, afterIndex, byName_echo, Dialogue.map_eq,
    Dialogue.map_eq, Dialogue.bind_assoc, Dialogue.bind_assoc]
  rfl

theorem dialogue_eq_claim (hisin : q.canonicalIsin?.isSome) : ∃ next,
    (Call.resolve q).dialogue s = .ask .claimIndex next ∧
      ∀ x, indexed? q x = none → next (.ready x) = afterIndex s q := by
  obtain ⟨isin, hisin⟩ := Option.isSome_iff_exists.1 hisin
  rw [Call.dialogue, resolve, byIsin_of_isin hisin]
  refine ⟨_, rfl, fun x hx => ?_⟩
  rw [indexed?, hisin, Option.bind_some] at hx
  simp only [Dialogue.bind_eq, Dialogue.pure_eq, Dialogue.done_bind, hx, Option.map_none]
  rfl

end

section

variable {σ α : Type} [Scalar α] {w : Surroundings σ} {settings : Settings α} {needs : Nat → Bool}
  {most i : Nat} {post : Nat → Return α → Knowledge → Prop} {q : Query} {x : Option IsinIndex}
  {s t t' : State σ (Return α)}

def BothFresh (settings : Settings α) (q : Query) (d d' : Dialogue (Return α)) : Prop :=
  d = (Call.resolve q).dialogue settings ∧ d' = (Call.resolve q.withoutIsin).dialogue settings

theorem AlikeBut.claim {next : IndexTurn → Dialogue (Return α)}
    (h : AlikeBut i (BothFresh settings q) t t') (hx : t.shared.index = .ready x)
    (hi : t.calls[i]? = some (.ask .claimIndex next)) (hnext : next (.ready x) = afterIndex settings q)
    {turn : IndexTurn} {shared : Shared} {outside : σ}
    (hw : w.Serves i .claimIndex turn (t.shared, t.outside) (shared, outside)) :
    AlikeBut i (Renders (Return.echo q.isin)) (t.goOn i .claimIndex next turn shared outside) t' := by
  obtain ⟨-, d', -, hd', -, rfl⟩ := h.own
  have houtside : outside = t.outside := hw.2
  rcases hw.claimIndex_eq with ⟨hcell, -⟩ | ⟨y, hcell, rfl, hshared⟩
  · cases hx.symm.trans hcell
  · cases hx.symm.trans hcell
    exact {
      own := ⟨_, _, State.calls_goOn_self hi .., hd', hnext ▸ afterIndex_renders⟩
      others := fun j hij => by
        rw [State.calls_goOn_of_ne hij]
        exact h.others j hij
      shared_eq := hshared.trans h.shared_eq
      outside_eq := houtside.trans h.outside_eq
      events_eq := h.events_eq }

/-- Either the query has not asked for the index yet, or all that is left to change is its result. -/
theorem AlikeBut.run_fresh (h : AlikeBut i (BothFresh settings q) s t)
    (hs : OneLoad needs most s) (hf : s.Follows (fun i => indexContract (needs i)) post)
    (hx : s.shared.index = .ready x) (hmiss : indexed? q x = none)
    (hisin : q.canonicalIsin?.isSome) {u : State σ (Return α)} (hrun : Run w s u) :
    ∃ u', Run w t u' ∧
      (AlikeBut i (BothFresh settings q) u u' ∨ AlikeBut i (Renders (Return.echo q.isin)) u u') := by
  obtain ⟨next, hdialogue, hnext⟩ := dialogue_eq_claim (s := settings) hisin
  induction hrun with
  | refl => exact ⟨t, .refl, .inl h⟩
  | @tail v u hrun step ih =>
    have hready := hs.ready_of_run hf hx hrun
    obtain ⟨v', hrun', hfresh | hpassed⟩ := ih
    · obtain ⟨d, d', hd, -, rfl, -⟩ := hfresh.own
      rw [hdialogue] at hd
      cases step with
      | @answer j op next' a shared outside hj hw =>
        by_cases hij : i = j
        · subst hij
          cases hd.symm.trans hj
          exact ⟨v', hrun', .inr (hfresh.claim hready hd (hnext x hmiss) hw)⟩
        · obtain ⟨u', hstep', hu⟩ := hfresh.answer_of_ne hij hj hw
          exact ⟨u', hrun'.tail hstep', .inl hu⟩
      | @wait j op next' shared hj hb =>
        by_cases hij : i = j
        · subst hij
          cases hd.symm.trans hj
          rcases Shared.of_blocked hb with ⟨g, hop, -⟩ | rfl
          · cases hop
          · exact ⟨v', hrun', .inl hfresh⟩
        · obtain ⟨u', hstep', hu⟩ := hfresh.wait_of_ne hij hj hb
          exact ⟨u', hrun'.tail hstep', .inl hu⟩
    · obtain ⟨u', hstep', hu⟩ := hpassed.step (follow_renders _) step
      exact ⟨u', hrun'.tail hstep', .inr hu⟩

def SameButIsin (isin : Option String) (d d' : Dialogue (Return α)) : Prop :=
  d.value? = d'.value?.map (Return.echo isin)

theorem runsAlike_of_passed (hi : s.calls[i]? = some (afterIndex settings q)) :
    RunsAlike w i (SameButIsin q.isin) s
      (s.put i ((Call.resolve q.withoutIsin).dialogue settings)) := by
  have h : AlikeBut i (Renders (Return.echo q.isin)) s
      (s.put i ((Call.resolve q.withoutIsin).dialogue settings)) := .of_put hi afterIndex_renders
  exact h.runsAlike.mono fun d d' hd => hd.value_eq

theorem runsAlike_of_fresh (hs : OneLoad needs most s)
    (hf : s.Follows (fun i => indexContract (needs i)) post) (hx : s.shared.index = .ready x)
    (hmiss : indexed? q x = none) (hi : s.calls[i]? = some ((Call.resolve q).dialogue settings)) :
    RunsAlike w i (SameButIsin q.isin) s
      (s.put i ((Call.resolve q.withoutIsin).dialogue settings)) := by
  by_cases hisin : q.canonicalIsin?.isSome
  · have h : AlikeBut i (BothFresh settings q) s
        (s.put i ((Call.resolve q.withoutIsin).dialogue settings)) := .of_put hi ⟨rfl, rfl⟩
    obtain ⟨next, hdialogue, hnext⟩ := dialogue_eq_claim (s := settings) hisin
    constructor
    · intro t hrun
      obtain ⟨t', hrun', ht⟩ := h.run_fresh hs hf hx hmiss hisin hrun
      refine ⟨t', hrun', ht.elim (fun ht => ht.mono fun d d' hd => ?_) fun ht =>
        ht.mono fun d d' hd => hd.value_eq⟩
      obtain ⟨rfl, rfl⟩ := hd
      rw [SameButIsin, hdialogue, dialogue_withoutIsin, afterIndex, byName_eq]
      rfl
    · intro t' hrun
      rw [hdialogue] at hi
      have hw : w.Serves i .claimIndex (.ready x) (s.shared, s.outside) (s.shared, s.outside) :=
        ⟨by simp only [Shared.serve, hx], rfl⟩
      obtain ⟨t, hrun', ht⟩ := (h.claim hx hi (hnext x hmiss) hw).runsAlike.left t' hrun
      exact ⟨t, .answer i hi (.ready x) hw hrun', ht.mono fun d d' hd => hd.value_eq⟩
  · refine runsAlike_of_passed ?_
    rw [hi, Call.dialogue, resolve, byIsin_of_none (Option.not_isSome_iff_eq_none.1 hisin)]
    rfl

theorem dialogue_eq_bind : (Call.resolve q).dialogue settings = (byIsin settings q).bind fun
    | some r => .done (.resolved (.ok r))
    | none => afterIndex settings q := by
  refine (Dialogue.bind_assoc (byIsin settings q) _ _).trans
    (congrArg (Dialogue.bind _) (funext fun r => ?_))
  cases r <;> rfl

variable {shared : Shared} {outside : σ} {slots : Nat}

theorem index_passed (hshared : shared.AtRest slots) (hisin : q.canonicalIsin?.isSome)
    (hrun : Run w (.start [(Call.resolve q).dialogue settings] shared outside) t)
    (ht : t.Finished) :
    ∃ s x, Run w (.start [(Call.resolve q).dialogue settings] shared outside) s ∧ Run w s t ∧
      s.shared.index = .ready x ∧ (∀ e ∈ s.log, e.op.getsIndex settings) ∧
      ((∃ lei, indexed? q x = some lei ∧
          t.results? = some [.resolved (.ok (q.identity lei .isinIndex))]) ∨
        indexed? q x = none ∧ s.calls[0]? = some (afterIndex settings q)) := by
  rw [dialogue_eq_bind] at hrun
  obtain ⟨found, y, o, log, -, hfirst, hrest⟩ := Run.of_bind hrun ht
  rw [List.append_nil] at hfirst hrest
  obtain ⟨hlog, x, hx, hfound⟩ := byIsin_alone hshared hfirst
  rw [dialogue_eq_bind]
  refine ⟨_, x, hfirst.bind _, hrest, (hx hisin).1, hlog, ?_⟩
  cases hlei : indexed? q x with
  | some lei =>
    rw [hlei] at hfound
    subst hfound
    cases hrest.eq_of_finished (by simp [State.Finished])
    exact .inl ⟨lei, rfl, rfl⟩
  | none =>
    rw [hlei] at hfound
    subst hfound
    exact .inr ⟨rfl, rfl⟩

/-- Whatever the other calls do, and however the index has been loaded, a query for which it has
nothing comes to the same as one without an ISIN, through the same operations. On its own, every
such query comes to the point where this holds. -/
theorem unanswered_isin_irrelevant (calls : List Call) (q : Query)
    (hshared : shared.AtRest settings.slots) :
    (∀ s x i, Run w (.start (calls.map (·.dialogue settings)) shared outside) s →
      s.shared.index = .ready x → indexed? q x = none →
      s.calls[i]? = some ((Call.resolve q).dialogue settings) ∨
        s.calls[i]? = some (afterIndex settings q) →
      RunsAlike w i (SameButIsin q.isin) s
        (s.put i ((Call.resolve q.withoutIsin).dialogue settings))) ∧
    ∀ t, Run w (.start [(Call.resolve q).dialogue settings] shared outside) t → t.Finished →
      q.canonicalIsin?.isSome →
      ∃ s x, Run w (.start [(Call.resolve q).dialogue settings] shared outside) s ∧ Run w s t ∧
        s.shared.index = .ready x ∧ (∀ e ∈ s.log, e.op.getsIndex settings) ∧
        ((∃ lei, indexed? q x = some lei ∧
            t.results? = some [.resolved (.ok (q.identity lei .isinIndex))]) ∨
          indexed? q x = none ∧ RunsAlike w 0 (SameButIsin q.isin) s
            (s.put 0 ((Call.resolve q.withoutIsin).dialogue settings))) := by
  constructor
  · intro s x i hrun hx hmiss hi
    obtain ⟨hs, hf⟩ := hshared.oneLoad calls_wellBehaved hrun
    exact hi.elim (runsAlike_of_fresh hs hf hx hmiss) runsAlike_of_passed
  · intro t hrun ht hisin
    obtain ⟨s, x, hfirst, hrest, hx, hlog, hcases⟩ := index_passed hshared hisin hrun ht
    exact ⟨s, x, hfirst, hrest, hx, hlog,
      hcases.imp_right fun ⟨hmiss, hi⟩ => ⟨hmiss, runsAlike_of_passed hi⟩⟩

end

def otherIndex : IsinIndex := .ofList [("US0378331005", "L")]

def otherCache : String → Option Json :=
  Function.update (fun _ => none) "gleif" (some otherIndex.toJson)

def unansweredQuery : Query := ⟨"A", "Acme", some "U1"⟩

/-- The query has the index of another ISIN, which it has read in the cache. -/
def otherLoaded : State (String → Option Json) (Return Rat) where
  calls := [afterIndex .default unansweredQuery]
  shared := ⟨⟨1, [], []⟩, .ready (some otherIndex), [], 0⟩
  outside := otherCache
  log := [⟨0, .publishIndex (some otherIndex), ()⟩,
    ⟨0, .lookUp "gleif", .ok (some otherIndex.toJson)⟩, ⟨0, .claimIndex, .load⟩]

theorem indexed?_otherIndex : indexed? unansweredQuery (some otherIndex) = none := by
  with_unfolding_all rfl

theorem run_otherLoaded : Run .remembering
    (.start ([Call.resolve unansweredQuery].map (·.dialogue (.default (α := Rat))))
      ⟨⟨1, [], []⟩, .unclaimed, [], 0⟩ otherCache) otherLoaded := by
  have hread : otherCache "gleif" = some otherIndex.toJson := Function.update_self ..
  let publishes : Dialogue (Return Rat) :=
    .ask (.publishIndex (some otherIndex)) fun _ => afterIndex .default unansweredQuery
  exact .answer 0 rfl .load ⟨rfl, rfl⟩ <|
    .answer 0 rfl (.ok (some otherIndex.toJson)) ⟨⟨congrArg Except.ok hread.symm, rfl⟩, rfl⟩ <|
    .answer 0 (show _ = some publishes by with_unfolding_all rfl) () ⟨rfl, rfl⟩ .refl

theorem otherLoaded_ends : ∃ t, Run .remembering otherLoaded t ∧
    t.calls = [.done (.resolved (.error (.notFound "Acme" (some "U1"))))] := by
  have hnone : otherCache (nameKey "gleif_names" "Acme") = none :=
    Function.update_of_ne (by decide) ..
  have hunknown (x : Shared) : Surroundings.remembering.Serves 0
      (.lookUp (nameKey "gleif_names" "Acme")) (.ok none) (x, otherCache) (x, otherCache) :=
    ⟨⟨congrArg Except.ok hnone.symm, rfl⟩, rfl⟩
  let keeps : Dialogue (Return Rat) := .resolved <$> afterMiss .default unansweredQuery
  have hrun : Run .remembering otherLoaded _ :=
    .answer 0 rfl (.ok none) (hunknown _) <| .answer 0 rfl () ⟨rfl, rfl⟩ <|
    .answer 0 rfl (.ok none) (hunknown _) <| .answer 0 rfl (0 : UInt64) rfl <|
    .answer 0 rfl (.error .io) ⟨⟨rfl, rfl⟩, rfl⟩ <|
    .answer 0 (show _ = some keeps by with_unfolding_all rfl) (.ok ()) ⟨⟨rfl, rfl⟩, rfl⟩ <|
    .answer 0 rfl () ⟨rfl, rfl⟩ .refl
  exact ⟨_, hrun, rfl⟩

/-- The index comes from the cache and knows another ISIN only. Then the search fails, and without
its ISIN the query goes the same way. -/
theorem unanswered_isin_irrelevant_cached :
    ∃ t t' : State (String → Option Json) (Return Rat),
      Run .remembering
        (.start ([Call.resolve unansweredQuery].map (·.dialogue (.default (α := Rat))))
          ⟨⟨1, [], []⟩, .unclaimed, [], 0⟩ otherCache) otherLoaded ∧
      Run .remembering otherLoaded t ∧
      t.results? = some [.resolved (.error (.notFound "Acme" (some "U1")))] ∧
      Run .remembering (otherLoaded.put 0
        ((Call.resolve unansweredQuery.withoutIsin).dialogue (.default (α := Rat)))) t' ∧
      t.result? 0 = (t'.result? 0).map (Return.echo (some "U1")) ∧
      t.eventsButClaims = t'.eventsButClaims ∧ t.outside = t'.outside ∧
      ∃ u x, Run .remembering u t ∧ u.shared.index = .ready x ∧
        indexed? unansweredQuery x = none := by
  have hshared : Shared.AtRest (Settings.default (α := Rat)).slots
      ⟨⟨1, [], []⟩, .unclaimed, [], 0⟩ := ⟨rfl, nofun⟩
  obtain ⟨t, hrun, hcalls⟩ := otherLoaded_ends
  have hfinished : t.Finished := by
    rw [State.Finished, hcalls]
    simp
  obtain ⟨hready, halone⟩ := @unanswered_isin_irrelevant _ _ _ .remembering _ _ otherCache
    [.resolve unansweredQuery] unansweredQuery hshared
  obtain ⟨t', hrun', hlike⟩ := (hready otherLoaded (some otherIndex) 0 run_otherLoaded rfl
    indexed?_otherIndex (.inr rfl)).right t hrun
  obtain ⟨d, d', hd, hd', hsame⟩ := hlike.own
  obtain ⟨u, x, -, hrest, hx, -, hcases⟩ :=
    halone t (run_otherLoaded.trans hrun) hfinished (by with_unfolding_all rfl)
  refine ⟨t, t', run_otherLoaded, hrun, State.results?_eq_some.2 hcalls, hrun', ?_,
    hlike.events_eq, hlike.outside_eq, u, x, hrest, hx, ?_⟩
  · rw [State.result?, State.result?, hd, hd']
    exact hsame
  · rcases hcases with ⟨lei, -, hresults⟩ | ⟨hmiss, -⟩
    · rw [State.results?_eq_some] at hresults
      cases hcalls.symm.trans hresults
    · exact hmiss

end LegalEntity.Resolver
