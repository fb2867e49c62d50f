import LegalEntity.Proofs.Names.Chains
import LegalEntity.Proofs.Runs.Reliable

namespace LegalEntity.Resolver

open Registry (itemsOf)

def sinceEntry (i : Nat) : List Event → Option (List Event)
  | [] => none
  | e :: log =>
    if e.caller = i then
      if e.op.isEnter then some [] else (sinceEntry i log).map (e :: ·)
    else sinceEntry i log

def Event.answerTo? (chain : Chain) : Event → Option Registry.Outcome
  | ⟨_, .fetch _ parameters, a⟩ => if Chain.of? parameters = some chain then some a else none
  | _ => none

def Event.kept? (key : String) : Event → Option Json
  | ⟨_, .keep k v, _⟩ => if k = key then some v else none
  | _ => none

def answersOf (events : List Event) : Answers := fun chain => events.findSome? (·.answerTo? chain)

def keptUnder (key : String) (events : List Event) : List Json := events.filterMap (·.kept? key)

/-- How far a call has come: what its chains have come to and what it has kept since it took its
slot. -/
inductive Progress
  | outside
  | inside (last : Answers) (kept : List Json)

def Progress.of (key : String) : Option (List Event) → Progress
  | none => .outside
  | some events => .inside (answersOf events) (keptUnder key events)

section

variable {α : Type} [Scalar α]

def progressContract (s : Settings α) (key name : String) : Contract Progress where
  start := .outside
  allows
    | .outside, op => ∀ v, op = .keep key v → s.indexKey = some key
    | .inside last kept, op => ∀ v, op = .keep key v → kept = [] ∧ v = (last.outcome s name).toJson
  expects _ _ _ := True
  next
    | _, .enter, _ => .inside .unsent []
    | .inside last kept, .fetch _ parameters, a =>
      match Chain.of? parameters with
      | some chain => .inside (Function.update last chain (some a)) kept
      | none => .inside last kept
    | .inside last kept, .keep k v, _ =>
      if k = key then .inside last (v :: kept) else .inside last kept
    | g, _, _ => g

variable {s : Settings α} {key name : String} {last : Answers} {kept : List Json} {op : Op}

@[simp] theorem answersOf_cons (e : Event) (events : List Event) (chain : Chain) :
    answersOf (e :: events) chain = (e.answerTo? chain).or (answersOf events chain) := by
  simp only [answersOf, List.findSome?_cons]
  cases e.answerTo? chain <;> rfl

theorem answersOf_cons_of_forall_none {e : Event} (h : ∀ chain, e.answerTo? chain = none)
    (events : List Event) : answersOf (e :: events) = answersOf events := by
  funext chain
  rw [answersOf_cons, h chain, Option.none_or]

theorem answersOf_cons_fetch {i : Nat} {url : String} {parameters : Registry.Parameters}
    {a : Registry.Outcome} {chain : Chain} (h : Chain.of? parameters = some chain)
    (events : List Event) : answersOf (⟨i, .fetch url parameters, a⟩ :: events) =
      Function.update (answersOf events) chain (some a) := by
  funext other
  rw [answersOf_cons, Event.answerTo?, h]
  by_cases heq : chain = other
  · subst heq
    rw [if_pos rfl, Function.update_self]
    rfl
  · rw [if_neg fun e => heq (Option.some.inj e), Function.update_of_ne (Ne.symm heq)]
    rfl

@[simp] theorem progress_fetch {url : String} {parameters : Registry.Parameters} {chain : Chain}
    (h : Chain.of? parameters = some chain) (a : Registry.Outcome) :
    (progressContract s key name).next (.inside last kept) (.fetch url parameters) a =
      .inside (Function.update last chain (some a)) kept := by
  simp only [progressContract, h]

theorem progress_fetch_of_none {url : String} {parameters : Registry.Parameters}
    (h : Chain.of? parameters = none) (a : Registry.Outcome) :
    (progressContract s key name).next (.inside last kept) (.fetch url parameters) a =
      .inside last kept := by
  simp only [progressContract, h]

@[simp] theorem progress_keep (v : Json) (a : Except Cache.Error Unit) :
    (progressContract s key name).next (.inside last kept) (.keep key v) a =
      .inside last (v :: kept) :=
  if_pos rfl

theorem progress_keep_of_ne {k : String} (h : k ≠ key) (v : Json) (a : Except Cache.Error Unit) :
    (progressContract s key name).next (.inside last kept) (.keep k v) a = .inside last kept :=
  if_neg h

theorem progress_cons (e : Event) (events : List Event) (he : e.op.isEnter = false) :
    (progressContract s key name).next (.inside (answersOf events) (keptUnder key events)) e.op
      e.answer = .inside (answersOf (e :: events)) (keptUnder key (e :: events)) := by
  cases e with
  | mk i op a =>
    cases op with
    | enter => cases he
    | fetch url parameters =>
      cases hchain : Chain.of? parameters with
      | none =>
        rw [progress_fetch_of_none hchain, answersOf_cons_of_forall_none]
        · rfl
        · intro chain
          simp [Event.answerTo?, hchain]
      | some chain =>
        rw [progress_fetch hchain, answersOf_cons_fetch hchain]
        rfl
    | keep k v =>
      have hanswers : answersOf (⟨i, .keep k v, a⟩ :: events) = answersOf events := by
        apply answersOf_cons_of_forall_none
        intro chain
        rfl
      by_cases hk : k = key
      · subst hk
        simp [keptUnder, Event.kept?, hanswers]
      · simp [progress_keep_of_ne hk, keptUnder, Event.kept?, hk, hanswers]
    | _ => rfl

theorem place_progress (i : Nat) (log : List Event) :
    (progressContract s key name).place i log = Progress.of key (sinceEntry i log) := by
  induction log with
  | nil => rfl
  | cons e log ih =>
    by_cases hi : e.caller = i
    · subst hi
      rw [sinceEntry, if_pos rfl, Contract.place, if_pos rfl, ih]
      cases henter : e.op.isEnter with
      | true =>
        cases e with
        | mk i op a =>
          cases op with
          | enter => rfl
          | _ => cases henter
      | false =>
        cases sinceEntry e.caller log with
        | none =>
          cases e with
          | mk i op a => cases op <;> first | rfl | cases henter
        | some events => exact progress_cons e events henter
    · rw [sinceEntry, if_neg hi, Contract.place, if_neg hi, ih]

theorem progress_of_getsIndex (h : op.getsIndex s) :
    (progressContract s key name).allows .outside op ∧
      ∀ a, (progressContract s key name).next .outside op a = .outside := by
  rcases h with h | ⟨k, hk, rfl | ⟨v, rfl⟩⟩
  · cases op with
    | enter | keep => cases h
    | _ => exact ⟨nofun, fun _ => rfl⟩
  · exact ⟨nofun, fun _ => rfl⟩
  · refine ⟨fun v' e => ?_, fun _ => rfl⟩
    cases e
    exact hk

theorem progress_chained {url : String} {parameters : Registry.Parameters} {chain : Chain}
    (hchain : Chain.of? parameters = some chain) :
    Chained (progressContract s key name)
      (fun g => g = .inside last kept ∨ ∃ a, g = .inside (Function.update last chain (some a)) kept)
      (fun g a => g = .inside (Function.update last chain (some a)) kept) url parameters where
  draw h := by
    rcases h with rfl | ⟨a, rfl⟩ <;> exact ⟨nofun, fun _ => rfl⟩
  pause h d := by
    rcases h with rfl | ⟨a, rfl⟩ <;> exact ⟨nofun, fun _ => rfl⟩
  fetch h := by
    rcases h with rfl | ⟨a, rfl⟩
    · refine ⟨nofun, fun b _ => ?_⟩
      rw [progress_fetch hchain]
      exact ⟨.inr ⟨b, rfl⟩, rfl⟩
    · refine ⟨nofun, fun b _ => ?_⟩
      rw [progress_fetch hchain, Function.update_idem]
      exact ⟨.inr ⟨b, rfl⟩, rfl⟩

theorem request_keeps_progress {url : String} {parameters : Registry.Parameters} {chain : Chain}
    (hchain : Chain.of? parameters = some chain) (p : Retry.Policy)
    (read : Registry.Reply → Option (List β)) :
    (request p url parameters read).Keeps (progressContract s key name)
      (fun items g => ∃ a, g = .inside (Function.update last chain (some a)) kept ∧
        items = itemsOf read a) (.inside last kept) :=
  request_keeps (progress_chained hchain) p read (.inl rfl)

structure Answers.Ends (l : Answers) (s : Settings α) (name : String) (outcome : NameOutcome) :
    Prop where
  outcome_eq : outcome = l.outcome s name
  best : l .owners ≠ none → ∃ best, l.best? s name = some best
  named : l .owners ≠ none → (Text.trim name.toList).isEmpty = false

theorem fetchParents_keeps_progress (lei : String) :
    (fetchParents s lei).Keeps (progressContract s key name)
      (fun owners g => ∃ a, g = .inside (Function.update last .owners (some a)) kept ∧
        owners = itemsOf Registry.records? a) (.inside last kept) :=
  request_keeps_progress rfl _ _

theorem active_keeps_progress (hlast : last .active = none) (p : Retry.Policy) (url leis : String)
    (isEmpty : Bool) :
    (if isEmpty then .done []
      else request p url [("filter[lei]", leis), ("filter[entity.status]", "ACTIVE")]
        Registry.identifiers?).Keeps (progressContract s key name)
      (fun active g => ∃ l : Answers, g = .inside l kept ∧
        active = l.items .active Registry.identifiers? ∧ l .completions = last .completions ∧
        l .owners = last .owners) (.inside last kept) := by
  cases isEmpty with
  | true => exact ⟨last, rfl, (Answers.items_eq_nil hlast).symm, rfl, rfl⟩
  | false =>
    apply (request_keeps_progress rfl _ _).mono
    rintro active g ⟨a, rfl, rfl⟩
    refine ⟨_, rfl, ?_, ?_, ?_⟩
    · rw [Answers.items_update_self]
    · exact Function.update_of_ne (by decide) ..
    · exact Function.update_of_ne (by decide) ..

theorem best_keeps_progress (hname : (Text.trim name.toList).isEmpty = false)
    (howners : last .owners = none) :
    (afterBest s name (last.best? s name)).Keeps (progressContract s key name)
      (fun outcome g => ∃ l : Answers, l.Ends s name outcome ∧ g = .inside l kept)
      (.inside last kept) := by
  cases hbest : last.best? s name with
  | none =>
    refine ⟨last, ⟨?_, ?_, ?_⟩, rfl⟩
    · exact (Answers.outcome_of_best?_none hbest).symm
    · intro h
      exact absurd howners h
    · intro h
      exact hname
  | some best =>
    apply Dialogue.keeps_bind.2
    apply (fetchParents_keeps_progress best.lei).mono
    rintro owners g ⟨a, rfl, rfl⟩
    have hbest' : Answers.best? (Function.update last .owners (some a)) s name = some best := by
      rw [Answers.best?, Answers.items_update_of_ne (by decide),
        Answers.items_update_of_ne (by decide)]
      exact hbest
    refine ⟨_, ⟨?_, ?_, ?_⟩, rfl⟩
    · rw [Answers.outcome, outcomeOf_of_best?_some hname hbest', Answers.items_update_self]
    · intro h
      exact ⟨best, hbest'⟩
    · intro h
      exact hname

theorem searchOutcome_keeps_progress :
    (searchOutcome s name).Keeps (progressContract s key name)
    (fun outcome g => ∃ l : Answers, l.Ends s name outcome ∧ g = .inside l [])
    (.inside .unsent []) := by
  unfold searchOutcome
  split
  · rename_i hname
    refine ⟨.unsent, ⟨?_, fun h => absurd rfl h, fun h => absurd rfl h⟩, rfl⟩
    rw [Answers.outcome, outcomeOf, if_pos hname]
  · rename_i hname
    apply Dialogue.keeps_bind.2
    apply (request_keeps_progress rfl _ _).mono
    rintro completions g ⟨c, rfl, rfl⟩
    apply Dialogue.keeps_bind.2
    apply (active_keeps_progress rfl _ _ _ _).mono
    rintro active g ⟨l, rfl, rfl, hcompletions, howners⟩
    have hitems : itemsOf Registry.completions? c = l.items .completions Registry.completions? := by
      rw [Answers.items_eq hcompletions]
    rw [hitems]
    exact best_keeps_progress (Bool.eq_false_iff.2 hname) howners

def Progress.EndsAs (s : Settings α) (q : Query) (r : Except Error Identity) :
    Progress → Prop
  | .outside => True
  | .inside l kept =>
    (l = .unsent ∧ kept = [] ∧ ∃ outcome, r = answer q .nameCache outcome) ∨
    ∃ outcome, l.Ends s q.name outcome ∧ kept = [outcome.toJson] ∧
      r = answer q .registrySearch outcome

theorem bySearch_keeps_progress (q : Query) :
    (bySearch s q key).Keeps (progressContract s key q.name)
      (fun r g => g.EndsAs s q r) (.inside .unsent []) := by
  rw [bySearch_eq]
  apply Dialogue.keeps_bind.2
  apply cachedOutcome_keeps.2
  refine ⟨nofun, fun a _ => ?_⟩
  cases Cache.decoded? NameOutcome.ofDocument? a with
  | some outcome => exact .inl ⟨rfl, rfl, outcome, rfl⟩
  | none =>
    apply Dialogue.keeps_bind.2
    apply searchOutcome_keeps_progress.mono
    rintro outcome g ⟨l, hl, rfl⟩
    refine ⟨fun v h => ?_, fun a _ => ?_⟩
    · cases h
      exact ⟨rfl, congrArg NameOutcome.toJson hl.outcome_eq⟩
    · rw [progress_keep]
      exact .inr ⟨outcome, hl, rfl, rfl⟩

theorem byName_keeps_progress (q : Query) :
    (byName s q).Keeps (progressContract s (Cache.nameKey s.nameSpace q.name) q.name)
      (fun r g => g.EndsAs s q r) .outside := by
  apply Dialogue.keeps_bind.2
  apply cachedOutcome_keeps.2
  refine ⟨nofun, fun a _ => ?_⟩
  cases Cache.decoded? NameOutcome.ofDocument? a with
  | some outcome => trivial
  | none =>
    apply Dialogue.keeps_perform_bind.2
    refine ⟨nofun, fun _ _ => ?_⟩
    apply Dialogue.keeps_bind.2
    apply (bySearch_keeps_progress q).mono
    intro r g h
    cases g with
    | outside => exact ⟨nofun, fun _ _ => trivial⟩
    | inside l kept => exact ⟨nofun, fun _ _ => h⟩

theorem resolve_keeps_progress (q : Query) :
    (resolve s q).Keeps (progressContract s (Cache.nameKey s.nameSpace q.name) q.name)
      (fun r g => g.EndsAs s q r) .outside := by
  apply Dialogue.keeps_bind.2
  apply (byIsin_asks q).keeps (fun op h => progress_of_getsIndex h)
  intro r
  cases r with
  | some identity => trivial
  | none => exact byName_keeps_progress q

end

section

variable {σ α : Type} [Scalar α] {w : Surroundings σ} {settings : Settings α} {shared : Shared}
  {outside : σ} {calls : List Call} {s : State σ (Return α)} {i : Nat} {q : Query}

theorem resolved_keeps_progress
    (hrun : Run w (.start (calls.map (·.dialogue settings)) shared outside) s)
    (hi : calls[i]? = some (.resolve q)) :
    (progressContract settings (Cache.nameKey settings.nameSpace q.name) q.name).Kept i s.log ∧
      ∀ r, s.result? i = some (.resolved r) →
        (Progress.of (Cache.nameKey settings.nameSpace q.name) (sinceEntry i s.log)).EndsAs
          settings q r := by
  have hcall : (calls.map (·.dialogue settings))[i]? = some ((Call.resolve q).dialogue settings) := by
    rw [List.getElem?_map, hi]
    rfl
  have hkeeps : ((Call.resolve q).dialogue settings).Keeps
      (progressContract settings (Cache.nameKey settings.nameSpace q.name) q.name)
      (fun r g => ∀ x, r = .resolved x → g.EndsAs settings q x) .outside := by
    apply Dialogue.keeps_bind.2
    apply (resolve_keeps_progress q).mono
    intro r g h x hx
    cases hx
    exact h
  obtain ⟨hkept, hend⟩ := hrun.keeps_alone (fun _ _ _ => trivial) hcall hkeeps
  refine ⟨hkept, fun r hr => ?_⟩
  have hends := hend _ hr r rfl
  rwa [place_progress] at hends

theorem Progress.EndsAs.definitive_iff {l : Answers} {kept : List Json} {r : Except Error Identity}
    (h : (Progress.inside l kept).EndsAs settings q r) :
    (kept ≠ [] ∧ ¬l.Definitive) ↔ ∃ chain, l.Failed chain := by
  rw [← Answers.not_definitive]
  constructor
  · intro h
    exact h.2
  · intro hfail
    refine ⟨?_, hfail⟩
    cases h with
    | inl h =>
      rw [h.1] at hfail
      exact absurd nofun hfail
    | inr h =>
      obtain ⟨outcome, -, hkept, -⟩ := h
      rw [hkept]
      exact List.cons_ne_nil _ _

theorem Progress.EndsAs.kept_of_failed {l : Answers} {kept : List Json} {r : Except Error Identity}
    (h : (Progress.inside l kept).EndsAs settings q r) {chain : Chain} (hfail : l.Failed chain) :
    ∃ outcome, l.Ends settings q.name outcome ∧ kept = [outcome.toJson] ∧
      r = answer q .registrySearch outcome := by
  cases h with
  | inl h =>
    obtain ⟨a, ha, -⟩ := hfail
    rw [h.1] at ha
    cases ha
  | inr h => exact h

/-- Whatever the registry and the cache do. What a call writes for its name is the outcome that the
last answers to its chains lead to, and a search that ends always writes it: it rests on a failed
chain exactly when a chain failed. Then nothing found is kept if completions or filter failed, and
the best entity itself, though it may be owned, if the request for owners failed. -/
theorem outcome_kept_though_chains_fail
    (hrun : Run w (.start (calls.map (·.dialogue settings)) shared outside) s)
    (hi : calls[i]? = some (.resolve q)) :
    (∀ v a before after, s.log = after ++
        ⟨i, .keep (Cache.nameKey settings.nameSpace q.name) v, a⟩ :: before →
      (sinceEntry i before = none ∧
        settings.indexKey = some (Cache.nameKey settings.nameSpace q.name)) ∨
      ∃ events, sinceEntry i before = some events ∧
        keptUnder (Cache.nameKey settings.nameSpace q.name) events = [] ∧
        v = ((answersOf events).outcome settings q.name).toJson) ∧
    (∀ r events, s.result? i = some (.resolved r) → sinceEntry i s.log = some events →
      ((keptUnder (Cache.nameKey settings.nameSpace q.name) events ≠ [] ∧
          ¬(answersOf events).Definitive) ↔ ∃ chain, (answersOf events).Failed chain) ∧
      ((answersOf events).Failed .completions ∨ (answersOf events).Failed .active →
        keptUnder (Cache.nameKey settings.nameSpace q.name) events =
            [NameOutcome.notFound.toJson] ∧
          r = .error (.notFound q.name q.isin)) ∧
      ((answersOf events).Failed .owners →
        ∃ best, (answersOf events).best? settings q.name = some best ∧
          keptUnder (Cache.nameKey settings.nameSpace q.name) events =
            [(NameOutcome.found best.lei).toJson] ∧
          r = .ok (q.identity best.lei .registrySearch))) := by
  obtain ⟨hkept, hend⟩ := resolved_keeps_progress hrun hi
  constructor
  · intro v a before after hlog
    have hallow := hkept after _ before hlog rfl
    rw [place_progress] at hallow
    cases hentry : sinceEntry i before with
    | none =>
      rw [hentry] at hallow
      exact .inl ⟨rfl, hallow v rfl⟩
    | some events =>
      rw [hentry] at hallow
      exact .inr ⟨events, rfl, hallow v rfl⟩
  · intro r events hr hentry
    have hends := hend r hr
    rw [hentry] at hends
    refine ⟨hends.definitive_iff, fun hfail => ?_, fun hfail => ?_⟩
    · obtain ⟨outcome, hl, hkeep, hresult⟩ :=
        hfail.elim (fun h => hends.kept_of_failed h) (fun h => hends.kept_of_failed h)
      have houtcome := hl.outcome_eq.trans (Answers.outcome_of_failed hfail)
      subst houtcome
      exact ⟨hkeep, hresult⟩
    · obtain ⟨outcome, hl, hkeep, hresult⟩ := hends.kept_of_failed hfail
      have howners : answersOf events .owners ≠ none := by
        obtain ⟨a, ha, -⟩ := hfail
        rw [ha]
        exact nofun
      obtain ⟨best, hbest⟩ := hl.best howners
      have houtcome := hl.outcome_eq.trans
        (Answers.outcome_of_failed_owners (hl.named howners) hbest hfail)
      subst houtcome
      exact ⟨best, hbest, hkeep, hresult⟩

end

/-- A registry that cannot be reached is remembered as one that does not know the name. -/
theorem outcome_kept_though_chains_fail_offline :
    ∃ shared s events, Shared.ofSettings? (Settings.default (α := Rat)) none = some shared ∧
      Run .remembering (.start ([Call.resolve (named "Acme")].map
        (·.dialogue (.default (α := Rat)))) shared fun _ => none) s ∧
      sinceEntry 0 s.log = some events ∧ (answersOf events).Failed .completions ∧
      keptUnder (Cache.nameKey "gleif_names" "Acme") events = [NameOutcome.notFound.toJson] ∧
      s.outside (Cache.nameKey "gleif_names" "Acme") = some NameOutcome.notFound.toJson := by
  have hshared : Shared.ofSettings? (Settings.default (α := Rat)) none =
      some ⟨⟨1, [], []⟩, .unclaimed, [], 0⟩ := rfl
  let keeps : Dialogue (Return Rat) :=
    .ask (.keep (Cache.nameKey "gleif_names" "Acme") NameOutcome.notFound.toJson) fun _ =>
      .ask .leave fun _ => .done (.resolved (answer (named "Acme") .registrySearch .notFound))
  obtain ⟨kept, hkept⟩ : ∃ kept : String → Option Json, kept = Function.update (fun _ => none)
      (Cache.nameKey "gleif_names" "Acme") (some NameOutcome.notFound.toJson) := ⟨_, rfl⟩
  obtain ⟨s, events, hrun, hresult, hstored, hlog, hfailed⟩ : ∃ (s : State _ (Return Rat)) (events : _),
      Run .remembering (.start ([Call.resolve (named "Acme")].map
        (·.dialogue (.default (α := Rat)))) ⟨⟨1, [], []⟩, .unclaimed, [], 0⟩ fun _ => none) s ∧
      s.result? 0 = some (.resolved (answer (named "Acme") .registrySearch .notFound)) ∧
      s.outside = kept ∧ sinceEntry 0 s.log = some events ∧
      (answersOf events).Failed .completions := by
    have hrun : Run .remembering (.start ([Call.resolve (named "Acme")].map
        (·.dialogue (.default (α := Rat)))) ⟨⟨1, [], []⟩, .unclaimed, [], 0⟩ fun _ => none) _ :=
      .answer 0 rfl (.ok none) ⟨⟨rfl, rfl⟩, rfl⟩ <| .answer 0 rfl () ⟨rfl, rfl⟩ <|
      .answer 0 rfl (.ok none) ⟨⟨rfl, rfl⟩, rfl⟩ <| .answer 0 rfl (0 : UInt64) rfl <|
      .answer 0 rfl (.error .io) ⟨⟨rfl, rfl⟩, rfl⟩ <|
      .answer 0 (show _ = some keeps by with_unfolding_all rfl) (.ok ()) ⟨⟨rfl, hkept⟩, rfl⟩ <|
      .answer 0 rfl () ⟨rfl, rfl⟩ <| .refl
    exact ⟨_, _, hrun, rfl, rfl, rfl, .error .io, rfl, rfl⟩
  have hend := (outcome_kept_though_chains_fail hrun rfl).2 _ events hresult hlog
  refine ⟨_, s, events, hshared, hrun, hlog, hfailed, (hend.2.1 (.inl hfailed)).1, ?_⟩
  rw [hstored, hkept, Function.update_self]

end LegalEntity.Resolver
