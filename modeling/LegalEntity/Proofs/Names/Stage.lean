import LegalEntity.Proofs.Cache.ReadBack
import LegalEntity.Proofs.Runs.Calls
import LegalEntity.Proofs.Runs.Contract

namespace LegalEntity.Resolver

open Cache (decoded?)

/-- All stages between the first two and the last hold a slot. -/
inductive Stage
  | outside
  | admitted
  | searching
  | settled (source : Source) (outcome : NameOutcome)
  | ended (source : Source) (outcome : NameOutcome)

namespace Stage

def holds : Stage → Bool
  | outside => false
  | admitted => true
  | searching => true
  | settled .. => true
  | ended .. => false

def isOutside : Stage → Bool
  | outside => true
  | _ => false

def hasSearched : Stage → Bool
  | searching => true
  | settled source _ => source == .registrySearch
  | ended source _ => source == .registrySearch
  | _ => false

def outcome? : Stage → Option NameOutcome
  | settled _ outcome => some outcome
  | ended _ outcome => some outcome
  | _ => none

def afterReading (told : NameOutcome → Stage) (missed : Stage) : Option NameOutcome → Stage
  | some outcome => told outcome
  | none => missed

end Stage

def NameOutcome.ofJson? (v : Json) : Option NameOutcome := NameOutcome.ofDocument? v.toDocument

def stageContract (key : String) (mine : Bool) : Contract Stage where
  start := .outside
  allows
    | .outside, op => op ≠ .leave ∧ (∀ v, op ≠ .keep key v) ∧ (mine = true → op.ofSearch = false)
    | .admitted, op => op ≠ .enter ∧ (∀ v, op ≠ .keep key v) ∧
        (mine = true → op ≠ .leave ∧ op.ofSearch = false)
    | .searching, op => mine = true ∧
        (op.ofSearch = true ∨ ∃ outcome : NameOutcome, op = .keep key outcome.toJson)
    | .settled .., op => op = .leave
    | .ended .., _ => False
  expects _ _ _ := True
  next
    | .outside, .enter, _ => .admitted
    | .outside, .lookUp k, a =>
      if mine ∧ k = key then
        .afterReading (.ended .nameCache) .outside (decoded? NameOutcome.ofDocument? a)
      else .outside
    | .admitted, .lookUp k, a =>
      if mine ∧ k = key then
        .afterReading (.settled .nameCache) .searching (decoded? NameOutcome.ofDocument? a)
      else .admitted
    | .admitted, .leave, _ => .outside
    | .searching, .keep _ v, _ =>
      .afterReading (.settled .registrySearch) .searching (NameOutcome.ofJson? v)
    | .settled source outcome, .leave, _ => .ended source outcome
    | g, _, _ => g

inductive Stage.Moves (key : String) (mine : Bool) : Stage → (op : Op) → op.Answer → Stage → Prop
  | stay {g : Stage} {op : Op} {a : op.Answer} : op ≠ .enter → op ≠ .leave →
      (∀ v, op ≠ .keep key v) → (mine = true → op.ofSearch = true → g = .searching) →
      Moves key mine g op a g
  | enter {a : Unit} : Moves key mine .outside .enter a .admitted
  | leave {a : Unit} : mine = false → Moves key mine .admitted .leave a .outside
  | leaveSettled {source : Source} {outcome : NameOutcome} {a : Unit} :
      Moves key mine (.settled source outcome) .leave a (.ended source outcome)
  | hitOutside {outcome : NameOutcome} {a : Op.Answer (.lookUp key)} :
      decoded? NameOutcome.ofDocument? a = some outcome →
      Moves key mine .outside (.lookUp key) a (.ended .nameCache outcome)
  | hit {outcome : NameOutcome} {a : Op.Answer (.lookUp key)} :
      decoded? NameOutcome.ofDocument? a = some outcome →
      Moves key mine .admitted (.lookUp key) a (.settled .nameCache outcome)
  | miss {a : Op.Answer (.lookUp key)} : decoded? NameOutcome.ofDocument? a = none →
      Moves key mine .admitted (.lookUp key) a .searching
  | keep {outcome : NameOutcome} {a : Op.Answer (.keep key outcome.toJson)} : mine = true →
      Moves key mine .searching (.keep key outcome.toJson) a (.settled .registrySearch outcome)

section

variable {α : Type} {s : Settings α} {key : String} {mine : Bool} {op : Op}

@[simp] theorem stage_lookUp_outside (a : Op.Answer (.lookUp key)) :
    (stageContract key true).next .outside (.lookUp key) a =
      .afterReading (.ended .nameCache) .outside (decoded? NameOutcome.ofDocument? a) :=
  if_pos ⟨rfl, rfl⟩

@[simp] theorem stage_lookUp_admitted (a : Op.Answer (.lookUp key)) :
    (stageContract key true).next .admitted (.lookUp key) a =
      .afterReading (.settled .nameCache) .searching (decoded? NameOutcome.ofDocument? a) :=
  if_pos ⟨rfl, rfl⟩

@[simp] theorem stage_keep (k : String) (outcome : NameOutcome)
    (a : Op.Answer (.keep k outcome.toJson)) :
    (stageContract key mine).next .searching (.keep k outcome.toJson) a =
      .settled .registrySearch outcome := by
  simp [stageContract, NameOutcome.ofJson?, Stage.afterReading]

theorem outside_of_isEnter {g : Stage} (h : (stageContract key mine).allows g op)
    (hop : op.isEnter = true) : g = .outside := by
  cases op with
  | enter =>
    cases g with
    | outside => rfl
    | admitted => exact absurd rfl h.1
    | searching =>
      obtain ⟨-, h | ⟨outcome, h⟩⟩ := h <;> cases h
    | settled source outcome => cases h
    | ended source outcome => cases h
  | _ => cases hop

theorem searching_of_op {g : Stage} (h : (stageContract key true).allows g op)
    (hop : op.ofSearch = true ∨ ∃ v, op = .keep key v) : g = .searching := by
  cases g with
  | outside =>
    rcases hop with hop | ⟨v, rfl⟩
    · exact nomatch (h.2.2 rfl).symm.trans hop
    · exact absurd rfl (h.2.1 v)
  | admitted =>
    rcases hop with hop | ⟨v, rfl⟩
    · exact nomatch (h.2.2 rfl).2.symm.trans hop
    · exact absurd rfl (h.2.1 v)
  | searching => rfl
  | settled source outcome =>
    cases h
    rcases hop with hop | ⟨v, hop⟩ <;> cases hop
  | ended source outcome => cases h

theorem stage_moves {g : Stage} (h : (stageContract key mine).allows g op) (a : op.Answer) :
    Stage.Moves key mine g op a ((stageContract key mine).next g op a) := by
  cases g with
  | outside =>
    obtain ⟨hleave, hkeep, hsearch⟩ := h
    have stays (henter : op ≠ .enter)
        (hnext : (stageContract key mine).next .outside op a = .outside) :
        Stage.Moves key mine .outside op a ((stageContract key mine).next .outside op a) := by
      rw [hnext]
      exact .stay henter hleave hkeep fun hmine hop => nomatch (hsearch hmine).symm.trans hop
    cases op with
    | enter => exact .enter
    | lookUp k =>
      by_cases hk : mine = true ∧ k = key
      · obtain ⟨rfl, rfl⟩ := hk
        cases hread : decoded? NameOutcome.ofDocument? a with
        | some outcome =>
          rw [stage_lookUp_outside, hread]
          exact .hitOutside hread
        | none => exact stays nofun (by rw [stage_lookUp_outside, hread]; rfl)
      · exact stays nofun (if_neg hk)
    | _ => exact stays nofun rfl
  | admitted =>
    obtain ⟨henter, hkeep, hsearch⟩ := h
    have stays (hleave : op ≠ .leave)
        (hnext : (stageContract key mine).next .admitted op a = .admitted) :
        Stage.Moves key mine .admitted op a ((stageContract key mine).next .admitted op a) := by
      rw [hnext]
      exact .stay henter hleave hkeep fun hmine hop => nomatch (hsearch hmine).2.symm.trans hop
    cases op with
    | leave => exact .leave (Bool.eq_false_iff.2 fun hmine => (hsearch hmine).1 rfl)
    | lookUp k =>
      by_cases hk : mine = true ∧ k = key
      · obtain ⟨rfl, rfl⟩ := hk
        cases hread : decoded? NameOutcome.ofDocument? a with
        | some outcome =>
          rw [stage_lookUp_admitted, hread]
          exact .hit hread
        | none =>
          rw [stage_lookUp_admitted, hread]
          exact .miss hread
      · exact stays nofun (if_neg hk)
    | _ => exact stays nofun rfl
  | searching =>
    obtain ⟨hmine, h | ⟨outcome, rfl⟩⟩ := h
    · cases op with
      | fetch | pause | draw => exact .stay nofun nofun nofun fun _ _ => rfl
      | _ => cases h
    · rw [stage_keep]
      exact .keep hmine
  | settled source outcome =>
    cases h
    exact .leaveSettled
  | ended source outcome => cases h

theorem stage_of_getsIndex (hindex : s.indexKey ≠ some key) (h : op.getsIndex s) :
    (stageContract key mine).allows .outside op ∧
      ∀ a, (stageContract key mine).next .outside op a = .outside := by
  rcases h with h | ⟨k, hk, rfl | ⟨v, rfl⟩⟩
  · cases op with
    | fetch url parameters =>
      cases parameters with
      | nil => exact ⟨⟨nofun, nofun, fun _ => rfl⟩, fun _ => rfl⟩
      | cons p ps => cases h
    | lookUp | keep | pause | draw | enter | leave => cases h
    | _ => exact ⟨⟨nofun, nofun, fun _ => rfl⟩, fun _ => rfl⟩
  · have hne : k ≠ key := fun e => hindex (e ▸ hk)
    refine ⟨⟨nofun, nofun, fun _ => rfl⟩, fun a => ?_⟩
    exact if_neg fun h => hne h.2
  · refine ⟨⟨nofun, fun v' e => ?_, fun _ => rfl⟩, fun a => rfl⟩
    cases e
    exact hindex hk

theorem stage_of_ofSearch (h : op.ofSearch = true) :
    (stageContract key true).allows .searching op ∧
      ∀ a, (stageContract key true).next .searching op a = .searching := by
  refine ⟨⟨rfl, .inl h⟩, fun a => ?_⟩
  cases op with
  | keep => cases h
  | _ => rfl

theorem stage_of_ofName {other : String} (h : op.ofName other) (hkeep : ∀ v, op ≠ .keep key v) :
    (stageContract key false).allows .admitted op ∧
      ∀ a, (stageContract key false).next .admitted op a = .admitted := by
  rcases h with h | rfl | ⟨v, rfl⟩
  · cases op with
    | lookUp | keep | download | enter | leave => cases h
    | claimIndex | publishIndex | openScratch | readScratch | closeScratch => cases h
    | _ => exact ⟨⟨nofun, nofun, nofun⟩, fun _ => rfl⟩
  · exact ⟨⟨nofun, nofun, nofun⟩, fun _ => rfl⟩
  · exact ⟨⟨nofun, hkeep, nofun⟩, fun _ => rfl⟩

def FromIndex (r : Except Error Identity) : Prop :=
  ∃ identity, r = .ok identity ∧ identity.source = .isinIndex

def endsAt (q : Query) (r : Except Error Identity) (g : Stage) : Prop :=
  (g = .outside ∧ FromIndex r) ∨ ∃ source outcome, source ≠ .isinIndex ∧
    g = .ended source outcome ∧ r = answer q source outcome

theorem byIsin_keeps_stage (hindex : s.indexKey ≠ some key) (q : Query) :
    (byIsin s q).Keeps (stageContract key mine)
      (fun r g => g = .outside ∧ ∀ identity, r = some identity → identity.source = .isinIndex)
      .outside := by
  unfold byIsin
  split
  · exact ⟨rfl, nofun⟩
  · refine Dialogue.keeps_bind.2 (theIndex_asks.keeps (fun op h => stage_of_getsIndex hindex h)
      fun x => ⟨rfl, fun identity h => ?_⟩)
    obtain ⟨lei, -, rfl⟩ := Option.map_eq_some_iff.1 h
    rfl

variable [Scalar α]

theorem bySearch_keeps_stage (q : Query) :
    (bySearch s q key).Keeps (stageContract key true)
      (fun r g => ∃ source outcome, source ≠ .isinIndex ∧ g = .settled source outcome ∧
        r = answer q source outcome)
      .admitted := by
  refine Dialogue.keeps_bind.2 (cachedOutcome_keeps.2
    ⟨⟨nofun, nofun, fun _ => ⟨nofun, rfl⟩⟩, fun a _ => ?_⟩)
  rw [stage_lookUp_admitted]
  cases decoded? NameOutcome.ofDocument? a with
  | some outcome => exact ⟨.nameCache, outcome, nofun, rfl, rfl⟩
  | none =>
    refine Dialogue.keeps_bind.2 ((search_asks q.name).keeps (fun op h => stage_of_ofSearch h)
      fun t => ⟨⟨rfl, .inr ⟨_, rfl⟩⟩, fun _ _ => ?_⟩)
    exact ⟨.registrySearch, NameOutcome.ofLei t.lei, nofun, stage_keep .., rfl⟩

theorem byName_keeps_stage {q : Query} (hkey : Cache.nameKey s.nameSpace q.name = key) :
    (byName s q).Keeps (stageContract key true) (endsAt q) .outside := by
  subst hkey
  refine Dialogue.keeps_bind.2 (cachedOutcome_keeps.2 ⟨⟨nofun, nofun, fun _ => rfl⟩, fun a _ => ?_⟩)
  rw [stage_lookUp_outside]
  cases decoded? NameOutcome.ofDocument? a with
  | some outcome => exact .inr ⟨.nameCache, outcome, nofun, rfl, rfl⟩
  | none =>
    refine Dialogue.keeps_perform_bind.2 ⟨⟨nofun, nofun, fun _ => rfl⟩, fun _ _ => ?_⟩
    refine Dialogue.keeps_bind.2 ((bySearch_keeps_stage q).mono fun r g h => ?_)
    obtain ⟨source, outcome, hsource, rfl, rfl⟩ := h
    exact ⟨rfl, fun _ _ => .inr ⟨source, outcome, hsource, rfl, rfl⟩⟩

theorem resolve_keeps_stage (hindex : s.indexKey ≠ some key) {q : Query}
    (hkey : Cache.nameKey s.nameSpace q.name = key) :
    (resolve s q).Keeps (stageContract key true) (endsAt q) .outside := by
  refine Dialogue.keeps_bind.2 ((byIsin_keeps_stage hindex q).mono fun r g h => ?_)
  obtain ⟨rfl, hsource⟩ := h
  cases r with
  | some identity => exact .inl ⟨rfl, identity, rfl, hsource identity rfl⟩
  | none => exact byName_keeps_stage hkey

theorem resolve_keeps_stage_of_ne (hindex : s.indexKey ≠ some key) {q : Query}
    (hkey : Cache.nameKey s.nameSpace q.name ≠ key) :
    (resolve s q).Keeps (stageContract key false) (fun _ _ => True) .outside := by
  refine Dialogue.keeps_bind.2 ((byIsin_keeps_stage hindex q).mono fun r g h => ?_)
  obtain ⟨rfl, -⟩ := h
  cases r with
  | some identity => trivial
  | none =>
    refine Dialogue.keeps_bind.2 (cachedOutcome_keeps.2 ⟨⟨nofun, nofun, nofun⟩, fun a _ => ?_⟩)
    cases decoded? NameOutcome.ofDocument? a with
    | some outcome => trivial
    | none =>
      refine Dialogue.keeps_perform_bind.2 ⟨⟨nofun, nofun, nofun⟩, fun _ _ => ?_⟩
      refine Dialogue.keeps_bind.2 ((bySearch_asks q _).keeps (fun op h => stage_of_ofName h ?_)
        fun r => ⟨⟨nofun, nofun, nofun⟩, fun _ _ => trivial⟩)
      rcases h with h | rfl | ⟨v, rfl⟩
      · rintro v rfl
        cases h
      · exact nofun
      · rintro v' ⟨⟩
        exact hkey rfl

theorem explain_keeps_stage (name : String) :
    (explain s name).Keeps (stageContract key false) (fun _ _ => True) .outside := by
  refine Dialogue.keeps_perform_bind.2 ⟨⟨nofun, nofun, nofun⟩, fun _ _ => ?_⟩
  refine Dialogue.keeps_bind.2 ((search_asks name).keeps
    (fun op h => stage_of_ofName (show op.ofName key from .inl h) ?_)
    fun t => ⟨⟨nofun, nofun, nofun⟩, fun _ _ => trivial⟩)
  rintro v rfl
  cases h

def Call.endsAt (s : Settings α) (key : String) (call : Call) (r : Return α) (g : Stage) : Prop :=
  ∀ q, call = .resolve q → call.isFor s key = true →
    ∀ x, r = .resolved x → Resolver.endsAt q x g

theorem Call.keeps_stage (hindex : s.indexKey ≠ some key) (call : Call) :
    (call.dialogue s).Keeps (stageContract key (call.isFor s key)) (call.endsAt s key) .outside := by
  cases call with
  | resolve q =>
    cases hfor : (Call.resolve q).isFor s key with
    | true =>
      refine Dialogue.keeps_bind.2 ((resolve_keeps_stage hindex (isFor_resolve.1 hfor)).mono
        fun x g h => ?_)
      rintro q' ⟨⟩ - x' ⟨⟩
      exact h
    | false =>
      have hne : Cache.nameKey s.nameSpace q.name ≠ key := fun h =>
        nomatch hfor.symm.trans (isFor_resolve.2 h)
      refine Dialogue.keeps_bind.2 ((resolve_keeps_stage_of_ne hindex hne).mono fun x g _ => ?_)
      rintro q' - hfor'
      exact nomatch hfor.symm.trans hfor'
  | index =>
    exact Dialogue.keeps_bind.2 (theIndex_asks.keeps (fun op h => stage_of_getsIndex hindex h)
      fun x => nofun)
  | explain name => exact Dialogue.keeps_bind.2 ((explain_keeps_stage name).mono fun _ _ _ => nofun)

end

end LegalEntity.Resolver
