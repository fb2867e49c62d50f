import LegalEntity.Cache.Key
import LegalEntity.Resolver.Index
import LegalEntity.Resolver.Search
/-!
Resolution of an equity to the LEI of its issuer: by its ISIN in the index, else by its name in the
cache, else by a search, whose outcome is cached. A search needs a slot of the gate; with the slot
in hand the cache is read once more, as another call may have answered in between.
-/

namespace LegalEntity.Resolver

open Dialogue (perform)

variable {α : Type}

def byIsin (s : Settings α) (q : Query) : Dialogue (Option Identity) := do
  match q.canonicalIsin? with
  | none => return none
  | some isin =>
    let index ← theIndex s
    return (index.bind (·.get? isin)).map (q.identity · .isinIndex)

def answer (q : Query) (source : Source) : NameOutcome → Except Error Identity
  | .found lei => .ok (q.identity lei source)
  | .notFound => .error (.notFound q.name q.isin)

def cachedOutcome (key : String) : Dialogue (Option NameOutcome) := do
  return Cache.decoded? NameOutcome.ofDocument? (← perform (.lookUp key))

variable [Scalar α]

def bySearch (s : Settings α) (q : Query) (key : String) : Dialogue (Except Error Identity) := do
  match ← cachedOutcome key with
  | some outcome => return answer q .nameCache outcome
  | none =>
    let outcome := NameOutcome.ofLei (← search s q.name).lei
    let _ ← perform (.keep key outcome.toJson)
    return answer q .registrySearch outcome

def byName (s : Settings α) (q : Query) : Dialogue (Except Error Identity) := do
  let key := Cache.nameKey s.nameSpace q.name
  match ← cachedOutcome key with
  | some outcome => return answer q .nameCache outcome
  | none =>
    perform .enter
    let r ← bySearch s q key
    perform .leave
    return r

def resolve (s : Settings α) (q : Query) : Dialogue (Except Error Identity) := do
  match ← byIsin s q with
  | some r => return .ok r
  | none => byName s q

def explain (s : Settings α) (name : String) : Dialogue (Trace α) := do
  perform .enter
  let t ← search s name
  perform .leave
  return t

end LegalEntity.Resolver
