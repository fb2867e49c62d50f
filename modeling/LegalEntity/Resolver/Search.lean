import LegalEntity.Name.LegalForm
import LegalEntity.Name.Ranking
import LegalEntity.Registry.Payload
import LegalEntity.Resolver.Dialogue
import LegalEntity.Retry.Status
import LegalEntity.Settings
/-!
The search for a name in the registry: completions of the name, of them the active ones, the best
of those, and its owners. A chain of requests that fails counts as an empty reply.
-/

namespace LegalEntity.Resolver

open Registry (Parameters Reply)

variable {α : Type}

def attempts (url : String) (parameters : Parameters) : List Duration → Dialogue (Option Reply)
  | [] => pure none
  | delay :: delays => do
    if delay ≠ .zero then Dialogue.perform (.pause delay)
    match ← Dialogue.perform (.fetch url parameters) with
    | .error _ => pure none
    | .ok reply =>
      if Retry.StatusClass.of reply.status = .transient then attempts url parameters delays
      else pure (some reply)

def schedule (p : Retry.Policy) : Dialogue (List Duration) :=
  match p.seed with
  | some _ => pure (p.schedule 0)
  | none => do return p.schedule (← Dialogue.perform .draw)

def request (p : Retry.Policy) (url : String) (parameters : Parameters)
    (read : Reply → Option (List β)) : Dialogue (List β) := do
  match ← attempts url parameters (← schedule p) with
  | some reply => return if Retry.isSuccess reply.status then (read reply).getD [] else []
  | none => return []

def searchText (name : String) : String := String.ofList (Name.withoutLegalForm name.toList)

def onlyActive (s : Settings α) (es : List Entity) : Dialogue (List Entity) :=
  if es.isEmpty then pure es
  else do
    let active ← request s.retry s.recordsUrl
      [("filter[lei]", ",".intercalate (es.map (·.lei))), ("filter[entity.status]", "ACTIVE")]
      Registry.identifiers?
    return es.filter fun e => active.contains e.lei

def searchByName (s : Settings α) (name : String) : Dialogue (List Entity) := do
  let es ← request s.retry s.completionsUrl [("field", "fulltext"), ("q", searchText name)]
    Registry.completions?
  onlyActive s es

def fetchParents (s : Settings α) (lei : String) : Dialogue (List Entity) :=
  request s.retry s.recordsUrl [("filter[owns]", lei)] Registry.records?

structure Trace (α : Type) where
  name : String
  query : String
  candidates : List Entity
  ranked : List (Scored α)
  parents : List Entity
  chosenParent : Option Entity
  lei : Option String

def Trace.start (α : Type) (name : String) : Trace α :=
  { name, query := searchText name, candidates := [], ranked := [], parents := []
    chosenParent := none, lei := none }

def Trace.best? (t : Trace α) : Option Entity := t.ranked.head?.map (·.entity)

variable [Scalar α]

/-- Any owner is preferred to the entity itself. -/
def search (s : Settings α) (name : String) : Dialogue (Trace α) := do
  let t := Trace.start α name
  if (Text.trim name.toList).isEmpty then return t
  let candidates ← searchByName s name
  let t := { t with candidates, ranked := Name.ranking name s.cutoff candidates }
  match t.best? with
  | none => return t
  | some best =>
    let parents ← fetchParents s best.lei
    let chosenParent := Name.closest? α name parents
    return { t with parents, chosenParent, lei := some (chosenParent.getD best).lei }

end LegalEntity.Resolver
