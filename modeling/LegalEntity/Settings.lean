import LegalEntity.Retry.Policy

namespace LegalEntity

structure Settings (α : Type) where
  mappingUrl : String
  completionsUrl : String
  recordsUrl : String
  indexKey : Option String
  nameSpace : String
  retry : Retry.Policy
  concurrency : Nat
  cutoff : α
  timeout : Nat

namespace Settings

def default [OfScientific α] : Settings α where
  mappingUrl := "https://mapping.gleif.org/api/v2/isin-lei/latest"
  completionsUrl := "https://api.gleif.org/api/v1/autocompletions"
  recordsUrl := "https://api.gleif.org/api/v1/lei-records"
  indexKey := some "gleif"
  nameSpace := "gleif_names"
  retry := .default
  concurrency := 1
  cutoff := 70.0
  timeout := 30

/-- One search can always run. -/
def slots (s : Settings α) : Nat := max s.concurrency 1

def withoutIndexKey (s : Settings α) : Settings α := { s with indexKey := none }

end Settings

end LegalEntity
