import LegalEntity.Proofs.Batch.Progress
import Mathlib.Data.List.Forall2

namespace LegalEntity.Resolver

def Admits (q : Query) : Except Error Identity → Prop
  | .ok x => x.symbol = q.symbol ∧ x.name = q.name ∧ x.isin = q.isin
  | .error e => e = .notFound q.name q.isin

theorem admits_identity (q : Query) (lei : String) (source : Source) :
    Admits q (.ok (q.identity lei source)) :=
  ⟨rfl, rfl, rfl⟩

theorem admits_answer (q : Query) (source : Source) (outcome : NameOutcome) :
    Admits q (answer q source outcome) := by
  cases outcome with
  | found lei => exact admits_identity q lei source
  | notFound => rfl

abbrev Dialogue.Returns (P : α → Prop) (t : Dialogue α) : Prop :=
  t.Keeps (.free ()) (fun a _ => P a) ()

theorem Dialogue.Returns.of_forall {P : α → Prop} (t : Dialogue α) (h : ∀ a, P a) : t.Returns P :=
  (t.keeps_free () ()).mono fun a _ _ => h a

theorem Dialogue.Returns.bind {P : α → Prop} {Q : β → Prop} {t : Dialogue α} {f : α → Dialogue β}
    (ht : t.Returns P) (hf : ∀ a, P a → (f a).Returns Q) : (t.bind f).Returns Q :=
  keeps_bind.2 (ht.mono fun a _ ha => hf a ha)

section

variable {α : Type} {s : Settings α}

theorem byIsin_returns (q : Query) :
    (byIsin s q).Returns fun x => ∀ y, x = some y → Admits q (.ok y) := by
  unfold byIsin
  split
  · exact nofun
  · refine (Dialogue.Returns.of_forall (theIndex s) fun _ => trivial).bind fun index _ => ?_
    intro y hy
    obtain ⟨lei, -, rfl⟩ := Option.map_eq_some_iff.1 hy
    exact admits_identity q lei .isinIndex

variable [Scalar α]

theorem bySearch_returns (q : Query) (key : String) : (bySearch s q key).Returns (Admits q) := by
  refine (Dialogue.Returns.of_forall (cachedOutcome key) fun _ => trivial).bind fun r _ => ?_
  cases r with
  | some outcome => exact admits_answer q .nameCache outcome
  | none =>
    refine (Dialogue.Returns.of_forall (search s q.name) fun _ => trivial).bind fun t _ => ?_
    exact ⟨trivial, fun _ _ => admits_answer q .registrySearch _⟩

theorem resolve_returns (q : Query) : (resolve s q).Returns (Admits q) := by
  refine (byIsin_returns q).bind fun r hr => ?_
  cases r with
  | some x => exact hr x rfl
  | none =>
    refine (Dialogue.Returns.of_forall (cachedOutcome _) fun _ => trivial).bind fun r _ => ?_
    cases r with
    | some outcome => exact admits_answer q .nameCache outcome
    | none =>
      refine ⟨trivial, fun _ _ => (bySearch_returns q _).bind fun r hr => ⟨trivial, fun _ _ => hr⟩⟩

end

section

variable {σ α : Type} [Scalar α] {w : Surroundings σ} {settings : Settings α} {queries : List Query}
  {shared : Shared} {outside : σ} {s : State σ (Except Error Identity)}

theorem batch_admits (hrun : Run w (.start (batch settings queries) shared outside) s) {i : Nat}
    {q : Query} {r : Except Error Identity} (hq : queries[i]? = some q) (hr : s.result? i = some r) :
    Admits q r := by
  have hstart : (State.start (batch settings queries) shared outside).Follows
      (fun _ => .free ()) fun i r _ => ∀ q, queries[i]? = some q → Admits q r := by
    apply State.Follows.start
    intro i t hi
    obtain ⟨q, hq, rfl⟩ := batch_getElem.1 hi
    apply (resolve_returns q).mono
    intro r _ hr q' hq'
    cases hq.symm.trans hq'
    exact hr
  exact (hrun.follows (fun _ _ _ _ => trivial) hstart).result hr q hq

theorem batch_results_admit (hrun : Run w (.start (batch settings queries) shared outside) s)
    {rs : List (Except Error Identity)} (hrs : s.results? = some rs) :
    List.Forall₂ Admits queries rs := by
  have hlength : queries.length = rs.length := by
    have hcalls := congrArg List.length (State.results?_eq_some.1 hrs)
    rw [hrun.length_calls, List.length_map] at hcalls
    exact (List.length_map _).symm.trans hcalls
  apply List.forall₂_iff_get.2
  refine ⟨hlength, fun i hq hr => batch_admits hrun (i := i) (List.getElem?_eq_getElem hq) ?_⟩
  rw [State.result?_of_results hrs]
  exact List.getElem?_eq_getElem hr

/-- Whatever goes wrong for one query of a batch stays with it, and all that is told of it is that
no LEI was found: each query gets an identity of its own or that one error, in the order of the
batch. -/
theorem failures_isolated (hshared : shared.AtRest settings.slots)
    (hrun : Run w (.start (batch settings queries) shared outside) s) :
    (∀ i q r, queries[i]? = some q → s.result? i = some r → Admits q r) ∧
      (∀ rs, s.results? = some rs → List.Forall₂ Admits queries rs) ∧
      (w.Responsive →
        s.Ends w fun t => ∃ rs, t.results? = some rs ∧ List.Forall₂ Admits queries rs) := by
  refine ⟨fun _ _ _ => batch_admits hrun, fun _ => batch_results_admit hrun, fun hw => ?_⟩
  have hends := (batch_completes hw hshared).of_run hrun
  refine ⟨hends.finite, fun t ht hend => ?_⟩
  obtain ⟨rs, hrs, -⟩ := hends.last t ht hend
  exact ⟨rs, hrs, batch_results_admit (hrun.trans ht) hrs⟩

end

def Surroundings.lawless : Surroundings Unit where
  reads _ _ _ _ := True
  writes _ _ _ _ _ := True
  replies _ _ _ _ _ := True
  delivers _ _ _ _ _ := True
  refuses _ := True

theorem Surroundings.lawless_responsive : Surroundings.lawless.Responsive where
  reads o _ := ⟨.ok none, o, trivial⟩
  writes o _ _ := ⟨.ok (), o, trivial⟩
  replies o _ _ := ⟨.error .io, o, trivial⟩
  delivers o _ := ⟨.error .io, none, o, trivial⟩

theorem failures_isolated_lawless :
    ∃ shared s, Shared.ofSettings? (Settings.default (α := Rat)) none = some shared ∧
      Run .lawless (.start (batch (Settings.default (α := Rat))
        [⟨"A", "Acme", some "A1"⟩, named "Umbrella"]) shared ()) s ∧
      s.results? = some [.error (.notFound "Acme" (some "A1")),
        .ok ((named "Umbrella").identity "U" .nameCache)] ∧
      List.Forall₂ Admits [⟨"A", "Acme", some "A1"⟩, named "Umbrella"]
        [.error (.notFound "Acme" (some "A1")), .ok ((named "Umbrella").identity "U" .nameCache)] ∧
      s.Ends .lawless fun t => ∃ rs, t.results? = some rs ∧
        List.Forall₂ Admits [⟨"A", "Acme", some "A1"⟩, named "Umbrella"] rs := by
  have hshared : Shared.ofSettings? (Settings.default (α := Rat)) none =
      some ⟨⟨1, [], []⟩, .unclaimed, [], 0⟩ := rfl
  obtain ⟨s, hrun, hcalls⟩ : ∃ s, Run .lawless (.start (batch (Settings.default (α := Rat))
      [⟨"A", "Acme", some "A1"⟩, named "Umbrella"]) ⟨⟨1, [], []⟩, .unclaimed, [], 0⟩ ()) s ∧
      s.calls = [.done (.error (.notFound "Acme" (some "A1"))),
        .done (.ok ((named "Umbrella").identity "U" .nameCache))] := by
    have hrun : Run .lawless (.start (batch (Settings.default (α := Rat))
        [⟨"A", "Acme", some "A1"⟩, named "Umbrella"]) ⟨⟨1, [], []⟩, .unclaimed, [], 0⟩ ()) _ :=
      .answer 0 rfl .load ⟨rfl, rfl⟩ <| .answer 0 rfl (.error .io) ⟨trivial, rfl⟩ <|
      .answer 0 rfl (.ok ⟨500, []⟩) ⟨trivial, rfl⟩ <| .answer 0 rfl () ⟨rfl, rfl⟩ <|
      .answer 0 rfl (.ok (some .null)) ⟨trivial, rfl⟩ <| .answer 0 rfl () ⟨rfl, rfl⟩ <|
      .answer 1 rfl (.ok (some (NameOutcome.found "U").toJson)) ⟨trivial, rfl⟩ <|
      .answer 0 rfl (.error .serialization) ⟨trivial, rfl⟩ <| .answer 0 rfl (0 : UInt64) rfl <|
      .answer 0 rfl (.error (.transport "reset")) ⟨trivial, rfl⟩ <|
      .answer 0 (show _ = some (afterMiss (.default (α := Rat)) ⟨"A", "Acme", some "A1"⟩) by
        with_unfolding_all rfl) (.error .io) ⟨trivial, rfl⟩ <|
      .answer 0 rfl () ⟨rfl, rfl⟩ .refl
    exact ⟨_, hrun, rfl⟩
  have hresults : s.results? = some [.error (.notFound "Acme" (some "A1")),
      .ok ((named "Umbrella").identity "U" .nameCache)] := State.results?_eq_some.2 hcalls
  obtain ⟨-, hall, hends⟩ := failures_isolated (.ofSettings hshared) hrun
  exact ⟨_, s, hshared, hrun, hresults, hall _ hresults, hends Surroundings.lawless_responsive⟩

end LegalEntity.Resolver
