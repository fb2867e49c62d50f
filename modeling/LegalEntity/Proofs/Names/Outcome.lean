import LegalEntity.Resolver.Resolve

namespace LegalEntity.Resolver

variable {α : Type}

theorem onlyActive_bind (s : Settings α) (completions : List Entity)
    (f : List Entity → Dialogue β) : (onlyActive s completions).bind f =
      (if completions.isEmpty then .done []
        else request s.retry s.recordsUrl
          [("filter[lei]", ",".intercalate (completions.map (·.lei))),
            ("filter[entity.status]", "ACTIVE")] Registry.identifiers?).bind fun active =>
        f (completions.filter fun e => active.contains e.lei) := by
  unfold onlyActive
  split
  · rename_i hempty
    rw [List.isEmpty_iff.1 hempty]
    rfl
  · exact Dialogue.bind_assoc ..

variable [Scalar α]

def best? (s : Settings α) (name : String) (completions : List Entity) (active : List String) :
    Option Entity :=
  (Name.ranking name s.cutoff (completions.filter fun e => active.contains e.lei)).head?.map
    (·.entity)

def outcomeOf (s : Settings α) (name : String) (completions : List Entity) (active : List String)
    (owners : List Entity) : NameOutcome :=
  if (Text.trim name.toList).isEmpty then .notFound
  else
    match best? s name completions active with
    | none => .notFound
    | some best => .found ((Name.closest? α name owners).getD best).lei

@[simp] theorem ranking_nil (name : String) (cutoff : α) : Name.ranking name cutoff [] = [] := by
  simp [Name.ranking]

@[simp] theorem best?_completions_nil (s : Settings α) (name : String) (active : List String) :
    best? s name [] active = none := by
  simp [best?]

@[simp] theorem best?_active_nil (s : Settings α) (name : String) (completions : List Entity) :
    best? s name completions [] = none := by
  have hnone : completions.filter (fun e => ([] : List String).contains e.lei) = [] := by
    induction completions with
    | nil => rfl
    | cons e es ih => exact ih
  rw [best?, hnone, ranking_nil]
  rfl

theorem outcomeOf_of_best?_none {s : Settings α} {name : String} {completions : List Entity}
    {active : List String} (h : best? s name completions active = none) (owners : List Entity) :
    outcomeOf s name completions active owners = .notFound := by
  rw [outcomeOf, h]
  exact ite_self _

theorem outcomeOf_of_best?_some {s : Settings α} {name : String} {completions : List Entity}
    {active : List String} {best : Entity} (hname : (Text.trim name.toList).isEmpty = false)
    (h : best? s name completions active = some best) (owners : List Entity) :
    outcomeOf s name completions active owners =
      .found ((Name.closest? α name owners).getD best).lei := by
  rw [outcomeOf, h, hname]
  rfl

def afterBest (s : Settings α) (name : String) : Option Entity → Dialogue NameOutcome
  | none => .done .notFound
  | some best => (fetchParents s best.lei).bind fun owners =>
    .done (.found ((Name.closest? α name owners).getD best).lei)

def searchOutcome (s : Settings α) (name : String) : Dialogue NameOutcome :=
  if (Text.trim name.toList).isEmpty then .done .notFound
  else
    (request s.retry s.completionsUrl [("field", "fulltext"), ("q", searchText name)]
        Registry.completions?).bind fun completions =>
      (if completions.isEmpty then .done []
        else request s.retry s.recordsUrl
          [("filter[lei]", ",".intercalate (completions.map (·.lei))),
            ("filter[entity.status]", "ACTIVE")] Registry.identifiers?).bind fun active =>
        afterBest s name (best? s name completions active)

theorem search_bind (s : Settings α) (name : String) (f : NameOutcome → Dialogue β) :
    ((search s name).bind fun t => f (.ofLei t.lei)) = (searchOutcome s name).bind f := by
  unfold search searchOutcome
  dsimp only
  split
  · rfl
  · rw [searchByName, Dialogue.bind_eq, Dialogue.bind_eq, Dialogue.bind_assoc, Dialogue.bind_assoc,
      Dialogue.bind_assoc]
    refine congrArg (Dialogue.bind _) (funext fun completions => ?_)
    rw [onlyActive_bind, Dialogue.bind_assoc]
    refine congrArg (Dialogue.bind _) (funext fun active => ?_)
    split
    · rename_i hbest
      change best? s name completions active = none at hbest
      rw [hbest]
      rfl
    · rename_i best hbest
      change best? s name completions active = some best at hbest
      rw [hbest, afterBest, Dialogue.bind_eq, Dialogue.bind_assoc, Dialogue.bind_assoc]
      rfl

theorem bySearch_eq (s : Settings α) (q : Query) (key : String) :
    bySearch s q key = (cachedOutcome key).bind fun
      | some outcome => .done (answer q .nameCache outcome)
      | none => (searchOutcome s q.name).bind fun outcome =>
        .ask (.keep key outcome.toJson) fun _ => .done (answer q .registrySearch outcome) := by
  unfold bySearch
  refine congrArg (Dialogue.bind _) (funext fun r => ?_)
  cases r with
  | some outcome => rfl
  | none =>
    exact search_bind s q.name fun outcome =>
      .ask (.keep key outcome.toJson) fun _ => .done (answer q .registrySearch outcome)

end LegalEntity.Resolver
