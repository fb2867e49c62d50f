import LegalEntity.Proofs.Index.AtHand
import LegalEntity.Proofs.Names.Stage
import LegalEntity.Proofs.Runs.Cached
import LegalEntity.Proofs.Runs.Clocked

namespace LegalEntity.Resolver

open Cache (decoded? nameKey shown)

section

variable {α : Type} [Scalar α] (s : Settings α) (q : Query)

inductive Answered (x : Option IsinIndex) (held : Option NameOutcome) :
    List Event → Except Error Identity → Prop
  | byIndex {lei : String} (h : indexed? q x = some lei) :
      Answered x held [] (.ok (q.identity lei .isinIndex))
  | byCache {outcome : NameOutcome} {a : Except Cache.Error (Option Json)}
      (h : indexed? q x = none) (hheld : held = some outcome) :
      Answered x held [⟨0, .lookUp (nameKey s.nameSpace q.name), a⟩] (answer q .nameCache outcome)
  | bySearch {asked : List Event} {a c : Except Cache.Error (Option Json)}
      {b : Except Cache.Error Unit} {t : Trace α} (h : indexed? q x = none) (hheld : held = none)
      (hsearch : (search s q.name).Path 0 asked (.done t)) :
      Answered x held
        (⟨0, .leave, ()⟩ ::
          ⟨0, .keep (nameKey s.nameSpace q.name) (NameOutcome.ofLei t.lei).toJson, b⟩ :: asked ++
          [⟨0, .lookUp (nameKey s.nameSpace q.name), c⟩, ⟨0, .enter, ()⟩,
            ⟨0, .lookUp (nameKey s.nameSpace q.name), a⟩])
        (answer q .registrySearch (.ofLei t.lei))

end

theorem byName_eq {α : Type} [Scalar α] (s : Settings α) (q : Query) :
    byName s q = (cachedOutcome (nameKey s.nameSpace q.name)).bind fun
      | some outcome => .done (answer q .nameCache outcome)
      | none => .ask .enter fun _ => (cachedOutcome (nameKey s.nameSpace q.name)).bind fun
        | some outcome => .ask .leave fun _ => .done (answer q .nameCache outcome)
        | none => (search s q.name).bind fun t =>
          .ask (.keep (nameKey s.nameSpace q.name) (NameOutcome.ofLei t.lei).toJson) fun _ =>
            .ask .leave fun _ => .done (answer q .registrySearch (.ofLei t.lei)) := by
  refine congrArg (Dialogue.bind _) (funext fun r => ?_)
  cases r with
  | some outcome => rfl
  | none =>
    refine congrArg (Dialogue.ask Op.enter) (funext fun _ => ?_)
    refine (Dialogue.bind_assoc (cachedOutcome _) _ _).trans
      (congrArg (Dialogue.bind _) (funext fun r => ?_))
    cases r with
    | some outcome => rfl
    | none => exact Dialogue.bind_assoc (search s q.name) _ _

section

variable {σ α : Type} [Scalar α] {w : Surroundings σ} {settings : Settings α} {shared : Shared}
  {outside : σ} {log : List Event} {q : Query} {x : Option IsinIndex} {stored : σ → Option Json}
  {t : State σ (Except Error Identity)} {key : String}

theorem cachedOutcome_alone {f : Option NameOutcome → Dialogue (Except Error Identity)}
    (hw : w.Shows key stored)
    (hrun : Run w ⟨[(cachedOutcome key).bind f], shared, outside, log⟩ t) (ht : t.Finished) :
    ∃ a y p, (∀ v, stored p = some v → stored outside = some v) ∧
      Run w ⟨[f ((stored outside).bind NameOutcome.ofJson?)], y, p, ⟨0, .lookUp key, a⟩ :: log⟩ t := by
  have hask : Run w ⟨[.ask (.lookUp key) fun a => f (decoded? NameOutcome.ofDocument? a)],
    shared, outside, log⟩ t := hrun
  obtain ⟨z, a, y, p, -, hread, hnext⟩ := hask.of_ask ht
  rw [Cache.decoded?_eq_bind, hw.found hread.1] at hnext
  exact ⟨a, y, p, fun v hv => hw.reads hread.1 hv, hnext⟩

/-- What is not held before the slot is taken is not held after it, as no other call is there to
write it. -/
theorem byName_alone (hw : w.Shows (nameKey settings.nameSpace q.name) stored)
    (hmiss : indexed? q x = none)
    (hrun : Run w ⟨[byName settings q], shared, outside, log⟩ t) (ht : t.Finished) :
    ∃ tier r, t.calls = [.done r] ∧ t.log = tier ++ log ∧
      Answered settings q x ((stored outside).bind NameOutcome.ofJson?) tier r := by
  rw [byName_eq] at hrun
  obtain ⟨a, y₁, o₁, hfades, hread⟩ := cachedOutcome_alone hw hrun ht
  cases hheld : (stored outside).bind NameOutcome.ofJson? with
  | some outcome =>
    rw [hheld] at hread
    cases hread.eq_of_finished (by simp [State.Finished])
    exact ⟨_, _, rfl, rfl, .byCache hmiss rfl⟩
  | none =>
    rw [hheld] at hread
    obtain ⟨z₂, u, y₂, o₂, -, ⟨-, houtside⟩, hinside⟩ := hread.of_ask ht
    cases houtside
    obtain ⟨a', y₃, o₃, -, hread'⟩ := cachedOutcome_alone hw hinside ht
    have hstill : (stored o₁).bind NameOutcome.ofJson? = none := by
      cases hstored : stored o₁ with
      | none => rfl
      | some v => rwa [hfades v hstored] at hheld
    rw [hstill] at hread'
    obtain ⟨trace, y₄, o₄, asked, hsearch, -, hkeep⟩ := hread'.of_bind ht
    obtain ⟨z₅, b, y₅, o₅, -, -, hleave⟩ := hkeep.of_ask ht
    obtain ⟨z₆, v, y₆, o₆, -, -, hend⟩ := hleave.of_ask ht
    cases hend.eq_of_finished (by simp [State.Finished])
    refine ⟨_, _, rfl, ?_, .bySearch (a := a) (c := a') (b := b) hmiss rfl hsearch⟩
    simp

theorem resolve_asks_of_blank (h : (Call.resolve q).needsIndex = false) :
    ((Call.resolve q).dialogue settings).Asks (·.ofIndex = false) := by
  have hnone : q.canonicalIsin? = none := by
    by_contra hisin
    rw [exists_of_canonicalIsin (Option.isSome_iff_ne_none.2 hisin)] at h
    cases h
  have hbyName : (byName settings q).Asks (·.ofIndex = false) :=
    (byName_asks q).mono fun op hop => hop.elim Op.ofIndex_of_ofName Op.ofIndex_of_ofGate
  rw [Call.dialogue, resolve, byIsin_of_none hnone]
  exact hbyName.bind fun _ => trivial

structure TakesTiers (w : Surroundings σ) (settings : Settings α) (q : Query)
    (stored : σ → Option Json) (s u t : State σ (Except Error Identity)) (x : Option IsinIndex)
    (tier : List Event) (r : Except Error Identity) : Prop where
  gets : Run w s u
  goes : Run w u t
  only_index : ∀ e ∈ u.log, e.op.getsIndex settings
  without_isin : q.canonicalIsin? = none → u = s
  index : q.canonicalIsin?.isSome →
    u.shared.index = .ready x ∧ ∀ y, s.shared.index = .ready y → y = x
  fades : (∀ k ∈ settings.indexKey, w.Spares stored k) →
    ∀ v, stored u.outside = some v → stored s.outside = some v
  log_eq : t.log = tier ++ u.log
  results_eq : t.results? = some [r]
  answers : Answered settings q x ((stored u.outside).bind NameOutcome.ofJson?) tier r

theorem takesTiers_of_run {slots : Nat} (hshared : shared.AtRest slots)
    (hshows : w.Shows (nameKey settings.nameSpace q.name) stored)
    (hrun : Run w (.start [resolve settings q] shared outside) t) (ht : t.Finished) :
    ∃ u x tier r,
      TakesTiers w settings q stored (.start [resolve settings q] shared outside) u t x tier r := by
  obtain ⟨found, y, o, log, -, hfirst, hrest⟩ := Run.of_bind (d := byIsin settings q) hrun ht
  rw [List.append_nil] at hfirst hrest
  obtain ⟨hlog, x, hx, hfound⟩ := byIsin_alone hshared hfirst
  have htier : ∃ tier r, t.calls = [.done r] ∧ t.log = tier ++ log ∧
      Answered settings q x ((stored o).bind NameOutcome.ofJson?) tier r := by
    cases hlei : indexed? q x with
    | some lei =>
      rw [hlei] at hfound
      subst hfound
      cases hrest.eq_of_finished (by simp [State.Finished])
      exact ⟨[], _, rfl, rfl, .byIndex hlei⟩
    | none =>
      rw [hlei] at hfound
      subst hfound
      exact byName_alone hshows hlei hrest ht
  obtain ⟨tier, r, hcalls, hevents, hanswers⟩ := htier
  refine ⟨_, x, tier, r, ⟨hfirst.bind _, hrest, hlog, fun hisin => ?_, hx, fun hspares v hv => ?_,
    hevents, State.results?_eq_some.2 hcalls, hanswers⟩⟩
  · obtain ⟨rfl, rfl, rfl, rfl⟩ := byIsin_alone_of_none hisin hfirst
    rw [resolve, byIsin_of_none hisin]
    rfl
  · refine hshows.of_run hfirst (fun e he k u hop => ?_) hv
    refine hspares k ?_
    rcases hlog e he with h | ⟨k', hk', h | ⟨u', h⟩⟩
    · rw [hop] at h
      cases h
    · cases h.symm.trans hop
    · cases h.symm.trans hop
      exact hk'

/-- A query on its own goes through the index, the cache of names and the registry: the first of
them that answers is the one whose answer is told, and those after it are not asked. The resolver is
at rest, as every one is that is new or whose calls have come to their ends. -/
theorem tiers_in_order (hw : w.Responsive)
    (hshows : w.Shows (nameKey settings.nameSpace q.name) stored)
    (hshared : shared.AtRest settings.slots) :
    (State.start [resolve settings q] shared outside).Ends w (fun t => ∃ u x tier r,
      TakesTiers w settings q stored (.start [resolve settings q] shared outside) u t x tier r) ∧
    ((Call.resolve q).needsIndex = false → ∀ (calls : List Call) (i : Nat) (s : State σ (Return α)),
      calls[i]? = some (.resolve q) →
      Run w (.start (calls.map (·.dialogue settings)) shared outside) s →
      ∀ op ∈ s.askedBy i, op.ofIndex = false) ∧
    ∀ (calls : List Call) (s : State σ (Return α)),
      Run w (.start (calls.map (·.dialogue settings)) shared outside) s → s.Finished →
      s.shared.AtRest settings.slots := by
  refine ⟨⟨fun run _ => exists_not_advance w run, fun t hrun hend => ?_⟩, ?_,
    fun calls s hrun hs => hshared.of_finished hrun hs⟩
  · have hgoes : ∀ s, Run w (.start (batch settings [q]) shared outside) s → ¬s.Finished →
        s.CanGoOn w := fun s hs hnot => batch_can_go_on hw hshared hs hnot
    have hfinished := (State.ends_of_canGoOn hgoes).last t hrun hend
    exact takesTiers_of_run hshared hshows hrun hfinished
  · intro hblank calls i s hi hrun
    refine hrun.askedBy (t := (Call.resolve q).dialogue settings) ?_ (resolve_asks_of_blank hblank)
    rw [List.getElem?_map, hi]
    rfl

end

theorem tiers_in_order_held :
    ∃ (shared : Shared) (o : Cache.Memory × Cache.Moment)
      (t : State (Cache.Memory × Cache.Moment) (Except Error Identity)),
      shared.AtRest (Settings.default (α := Rat)).slots ∧ shared.index = .ready none ∧
      Run (.clocked Cache.Memory)
        (.start [resolve (Settings.default (α := Rat)) ⟨"A", "Acme", some "U1"⟩] shared o) t ∧
      t.results? = some [.ok ⟨"Acme", "A", some "U1", "A1", .nameCache⟩] ∧
      ∃ u x tier r, TakesTiers (.clocked Cache.Memory) (Settings.default (α := Rat))
        ⟨"A", "Acme", some "U1"⟩ (fun o => shown o.2 (nameKey "gleif_names" "Acme") o.1)
        (.start [resolve (Settings.default (α := Rat)) ⟨"A", "Acme", some "U1"⟩] shared o) u t x
        tier r := by
  let key := nameKey "gleif_names" "Acme"
  let memory : Cache.Memory := ⟨Table.empty.insert key ((NameOutcome.found "A1").toJson, 0), none⟩
  let shared : Shared := ⟨⟨1, [], []⟩, .ready none, [], 0⟩
  have hrest : shared.AtRest (Settings.default (α := Rat)).slots := ⟨rfl, nofun⟩
  have hread : (Surroundings.clocked Cache.Memory).Serves 0 (.lookUp key)
      (.ok (some (NameOutcome.found "A1").toJson)) (shared, (memory, newYear))
      (shared, (memory, newYear)) := by
    refine ⟨⟨?_, Int.le_refl _⟩, rfl⟩
    simp [Cache.Store.get, Cache.Memory.get, memory, Cache.isExpired]
  have hrun : Run (.clocked Cache.Memory)
      (.start [resolve (Settings.default (α := Rat)) ⟨"A", "Acme", some "U1"⟩] shared
        (memory, newYear)) _ :=
    .answer 0 rfl (.ready none) ⟨rfl, rfl⟩ <| .answer 0 rfl _ hread .refl
  obtain ⟨t, hrun, hcalls⟩ : ∃ t, Run (.clocked Cache.Memory)
      (.start [resolve (Settings.default (α := Rat)) ⟨"A", "Acme", some "U1"⟩] shared
        (memory, newYear)) t ∧ t.calls = [.done (.ok ⟨"Acme", "A", some "U1", "A1", .nameCache⟩)] := by
    refine ⟨_, hrun, ?_⟩
    simp only [State.goOn, State.start, List.set_cons_zero, Dialogue.pure_eq, Dialogue.done_bind,
      Cache.decoded?, NameOutcome.ofDocument?_toJson]
    rfl
  have hfinished : t.Finished := by
    rw [State.Finished, hcalls]
    simp
  exact ⟨shared, (memory, newYear), t, hrest, rfl, hrun, State.results?_eq_some.2 hcalls,
    (tiers_in_order Surroundings.clocked_responsive Surroundings.clocked_shows hrest).1.last t hrun
      fun _ => hfinished.not_advance⟩

end LegalEntity.Resolver
