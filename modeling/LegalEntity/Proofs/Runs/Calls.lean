import LegalEntity.Proofs.Runs.Contract

namespace LegalEntity.Resolver

namespace Op

def isRequest : Op → Bool
  | fetch _ (_ :: _) => true
  | _ => false

def isMetadata : Op → Bool
  | fetch _ [] => true
  | _ => false

def isDownload : Op → Bool
  | download .. => true
  | _ => false

def ofSearch : Op → Bool
  | draw => true
  | pause _ => true
  | op => op.isRequest

def ofCache : Op → Bool
  | lookUp _ => true
  | keep .. => true
  | _ => false

def isEnter : Op → Bool
  | enter => true
  | _ => false

def ofName (key : String) (op : Op) : Prop :=
  op.ofSearch = true ∨ op = lookUp key ∨ ∃ v, op = keep key v

def ofGate : Op → Bool
  | enter => true
  | leave => true
  | _ => false

def ofIndex (op : Op) : Bool := !(op.ofSearch || op.ofCache || op.ofGate)

theorem ofSearch_of_isRequest {op : Op} (h : op.isRequest = true) : op.ofSearch = true := by
  cases op with
  | fetch => exact h
  | _ => cases h

theorem ofIndex_of_ofName {key : String} {op : Op} (h : op.ofName key) : op.ofIndex = false := by
  rcases h with h | rfl | ⟨v, rfl⟩
  · simp [ofIndex, h]
  · rfl
  · rfl

theorem ofIndex_of_ofGate {op : Op} (h : op.ofGate = true) : op.ofIndex = false := by
  simp [ofIndex, h]

@[simp] theorem isRequest_fetch (url : String) {parameters : Registry.Parameters}
    (h : parameters ≠ []) : (fetch url parameters).isRequest = true := by
  cases parameters with
  | nil => exact absurd rfl h
  | cons p ps => rfl

end Op

namespace Dialogue

theorem Asks.perform {P : Op → Prop} {op : Op} (h : P op) : (perform op).Asks P :=
  ⟨h, fun _ => trivial⟩

end Dialogue

section

variable {α : Type} {s : Settings α}

def onOutcome (url : String) (parameters : Registry.Parameters) (delays : List Duration) :
    Registry.Outcome → Dialogue (Option Registry.Reply)
  | .error _ => .done none
  | .ok reply =>
    if Retry.StatusClass.of reply.status = .transient then attempts url parameters delays
    else .done (some reply)

theorem attempts_cons (url : String) (parameters : Registry.Parameters) (delay : Duration)
    (delays : List Duration) :
    attempts url parameters (delay :: delays) =
      if delay = .zero then .ask (.fetch url parameters) (onOutcome url parameters delays)
      else .ask (.pause delay) fun _ =>
        .ask (.fetch url parameters) (onOutcome url parameters delays) := by
  simp only [attempts]
  by_cases h : delay = .zero
  · rw [if_pos h, if_neg (not_not_intro h)]
    refine congrArg (Dialogue.ask _) (funext fun r => ?_)
    cases r <;> rfl
  · rw [if_neg h, if_pos h]
    refine congrArg (Dialogue.ask _) (funext fun _ => congrArg (Dialogue.ask _) (funext fun r => ?_))
    cases r <;> rfl

theorem attempts_asks (url : String) {parameters : Registry.Parameters} (h : parameters ≠ [])
    (delays : List Duration) : (attempts url parameters delays).Asks (·.ofSearch) := by
  induction delays with
  | nil => trivial
  | cons delay delays ih =>
    have send : (Dialogue.ask (.fetch url parameters) (onOutcome url parameters delays)).Asks
        (·.ofSearch) := by
      refine ⟨by simp [Op.ofSearch, h], fun r => ?_⟩
      cases r with
      | error e => trivial
      | ok reply =>
        simp only [onOutcome]
        split
        · exact ih
        · trivial
    rw [attempts_cons]
    split
    · exact send
    · exact ⟨rfl, fun _ => send⟩

theorem schedule_asks (p : Retry.Policy) : (schedule p).Asks (·.ofSearch) := by
  cases h : p.seed with
  | some seed => simp [schedule, h, Dialogue.Asks]
  | none =>
    simp only [schedule, h]
    exact Dialogue.Asks.bind (Dialogue.Asks.perform rfl) fun _ => trivial

theorem request_asks (p : Retry.Policy) (url : String) {parameters : Registry.Parameters}
    (h : parameters ≠ []) (read : Registry.Reply → Option (List β)) :
    (request p url parameters read).Asks (·.ofSearch) := by
  refine (schedule_asks p).bind fun delays => (attempts_asks url h delays).bind fun r => ?_
  cases r <;> trivial

theorem onlyActive_asks (es : List Entity) : (onlyActive s es).Asks (·.ofSearch) := by
  simp only [onlyActive]
  split
  · trivial
  · exact (request_asks _ _ (by simp) _).bind fun _ => trivial

theorem searchByName_asks (name : String) : (searchByName s name).Asks (·.ofSearch) :=
  (request_asks _ _ (by simp) _).bind fun es => onlyActive_asks es

theorem fetchParents_asks (lei : String) : (fetchParents s lei).Asks (·.ofSearch) :=
  request_asks _ _ (by simp) _

theorem search_asks [Scalar α] (name : String) : (search s name).Asks (·.ofSearch) := by
  simp only [search]
  split
  · trivial
  · refine (searchByName_asks name).bind fun es => ?_
    split
    · trivial
    · exact (fetchParents_asks _).bind fun _ => trivial

theorem cachedOutcome_keeps {c : Contract γ} {post : Option NameOutcome → γ → Prop} {g : γ}
    {key : String} : (cachedOutcome key).Keeps c post g ↔
      c.allows g (.lookUp key) ∧ ∀ a, c.expects g (.lookUp key) a →
        post (Cache.decoded? NameOutcome.ofDocument? a) (c.next g (.lookUp key) a) := Iff.rfl

theorem cachedOutcome_asks (key : String) : (cachedOutcome key).Asks (·.ofName key) :=
  Dialogue.Asks.bind (Dialogue.Asks.perform (.inr (.inl rfl))) fun _ => trivial

theorem bySearch_asks [Scalar α] (q : Query) (key : String) :
    (bySearch s q key).Asks (·.ofName key) := by
  refine (cachedOutcome_asks key).bind fun r => ?_
  dsimp only
  split
  · trivial
  · refine Dialogue.Asks.bind ((search_asks q.name).mono fun op h => .inl h) fun t => ?_
    exact Dialogue.Asks.bind (Dialogue.Asks.perform (.inr (.inr ⟨_, rfl⟩))) fun _ => trivial

theorem byName_asks [Scalar α] (q : Query) : (byName s q).Asks fun op =>
    op.ofName (Cache.nameKey s.nameSpace q.name) ∨ op.ofGate = true := by
  refine Dialogue.Asks.bind ((cachedOutcome_asks _).mono fun op h => .inl h) fun r => ?_
  split
  · trivial
  · refine Dialogue.Asks.bind (Dialogue.Asks.perform (.inr rfl)) fun _ => ?_
    refine Dialogue.Asks.bind ((bySearch_asks q _).mono fun op h => .inl h) fun _ => ?_
    exact Dialogue.Asks.bind (Dialogue.Asks.perform (.inr rfl)) fun _ => trivial

theorem explain_asks [Scalar α] (name : String) :
    (explain s name).Asks fun op => op.ofSearch = true ∨ op.ofGate = true := by
  refine Dialogue.Asks.bind (Dialogue.Asks.perform (.inr rfl)) fun _ => ?_
  refine Dialogue.Asks.bind ((search_asks name).mono fun op h => .inl h) fun _ => ?_
  exact Dialogue.Asks.bind (Dialogue.Asks.perform (.inr rfl)) fun _ => trivial

end

section

variable {α : Type} {s : Settings α}

def Op.getsIndex (s : Settings α) (op : Op) : Prop :=
  op.ofIndex = true ∨ ∃ key, s.indexKey = some key ∧ (op = .lookUp key ∨ ∃ v, op = .keep key v)

theorem Op.quiet_of_getsIndex {op : Op} (h : op.getsIndex s) :
    op.ofGate = false ∧ op.ofSearch = false := by
  rcases h with h | ⟨key, -, rfl | ⟨v, rfl⟩⟩
  · simp only [Op.ofIndex, Bool.not_eq_true', Bool.or_eq_false_iff] at h
    exact ⟨h.2, h.1.1⟩
  · exact ⟨rfl, rfl⟩
  · exact ⟨rfl, rfl⟩

theorem nonEmptyIndex_of_not_isEmpty {x : IsinIndex} (hx : x.isEmpty = false) :
    nonEmptyIndex x = some x :=
  if_neg (Bool.eq_false_iff.1 hx)

theorem fetchMetadata_asks : (fetchMetadata s).Asks (·.getsIndex s) := by
  refine Dialogue.Asks.bind (Dialogue.Asks.perform (.inl rfl)) fun r => ?_
  cases r with
  | error e => trivial
  | ok reply =>
    dsimp only
    split
    · split <;> trivial
    · trivial

theorem downloadIndex_asks (link : String) : (downloadIndex link).Asks (·.getsIndex s) := by
  refine ⟨.inl rfl, fun scratch => ?_⟩
  cases scratch with
  | error e => trivial
  | ok scratch =>
    refine ⟨.inl rfl, fun r => ?_⟩
    cases r with
    | error e => exact ⟨.inl rfl, fun _ => trivial⟩
    | ok _ =>
      refine ⟨.inl rfl, fun content => ⟨.inl rfl, fun _ => ?_⟩⟩
      cases content <;> trivial

theorem buildIndex_asks : (buildIndex s).Asks (·.getsIndex s) := by
  refine fetchMetadata_asks.bind fun r => ?_
  cases r with
  | error e => trivial
  | ok m =>
    dsimp only
    split
    · trivial
    · exact downloadIndex_asks _

theorem cachedIndex_asks : (cachedIndex s).Asks (·.getsIndex s) := by
  unfold cachedIndex
  split
  · trivial
  · rename_i key hkey
    exact ⟨.inr ⟨key, hkey, .inl rfl⟩, fun _ => trivial⟩

theorem loadIndex_asks : (loadIndex s).Asks (·.getsIndex s) := by
  refine cachedIndex_asks.bind fun r => ?_
  split
  · trivial
  · refine buildIndex_asks.bind fun r => ?_
    split
    · trivial
    · split
      · trivial
      · trivial
      · rename_i x key _ hkey
        exact ⟨.inr ⟨key, hkey, .inr ⟨_, rfl⟩⟩, fun _ => trivial⟩

theorem theIndex_asks : (theIndex s).Asks (·.getsIndex s) := by
  refine Dialogue.Asks.bind (Dialogue.Asks.perform (.inl rfl)) fun turn => ?_
  cases turn with
  | ready x => trivial
  | load => exact loadIndex_asks.bind fun x => ⟨.inl rfl, fun _ => trivial⟩

theorem byIsin_asks (q : Query) : (byIsin s q).Asks (·.getsIndex s) := by
  unfold byIsin
  split
  · trivial
  · exact theIndex_asks.bind fun _ => trivial

end

def named (name : String) : Query := { symbol := "", name, isin := none }

def afterMiss (s : Settings α) (q : Query) : Dialogue (Except Error Identity) :=
  .ask (.keep (Cache.nameKey s.nameSpace q.name) NameOutcome.notFound.toJson) fun _ =>
    .ask .leave fun _ => .done (answer q .registrySearch .notFound)

inductive Call
  | resolve (q : Query)
  | index
  | explain (name : String)

inductive Return (α : Type)
  | resolved (r : Except Error Identity)
  | index (x : Option IsinIndex)
  | explained (t : Trace α)

def Call.dialogue [Scalar α] (s : Settings α) : Call → Dialogue (Return α)
  | .resolve q => .resolved <$> Resolver.resolve s q
  | .index => .index <$> theIndex s
  | .explain name => .explained <$> Resolver.explain s name

def Call.needsIndex : Call → Bool
  | .resolve q => q.isin.any fun isin => isin.toList.any (!Text.isBlank ·)
  | .index => true
  | .explain _ => false

def Call.nameKey? (s : Settings α) : Call → Option String
  | .resolve q => some (Cache.nameKey s.nameSpace q.name)
  | _ => none

def Call.isFor (s : Settings α) (key : String) (call : Call) : Bool := call.nameKey? s == some key

theorem Call.isFor_resolve {s : Settings α} {key : String} {q : Query} :
    (Call.resolve q).isFor s key = true ↔ Cache.nameKey s.nameSpace q.name = key := by
  simp [Call.isFor, Call.nameKey?]

structure Job (α : Type) where
  settings : Settings α
  calls : List Call

def Job.dialogues [Scalar α] (j : Job α) : List (Dialogue (Return α)) :=
  j.calls.map (·.dialogue j.settings)

theorem Job.getElem?_dialogues [Scalar α] (j : Job α) {i : Nat} {call : Call}
    (h : j.calls[i]? = some call) : j.dialogues[i]? = some (call.dialogue j.settings) := by
  rw [Job.dialogues, List.getElem?_map, h]
  rfl

theorem calls_follow {σ α γ : Type} [Scalar α] {settings : Settings α} {calls : List Call}
    {shared : Shared} {outside : σ} {c : Nat → Contract γ} {post : Nat → Return α → γ → Prop}
    (h : ∀ (i : Nat) (call : Call), calls[i]? = some call →
      (call.dialogue settings).Keeps (c i) (post i) (c i).start) :
    (State.start (calls.map (·.dialogue settings)) shared outside).Follows c post := by
  apply State.Follows.start
  intro i t hi
  rw [List.getElem?_map, Option.map_eq_some_iff] at hi
  obtain ⟨call, hcall, rfl⟩ := hi
  exact h i call hcall

end LegalEntity.Resolver
