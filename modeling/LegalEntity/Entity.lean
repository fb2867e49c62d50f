import LegalEntity.Table
import LegalEntity.Text.Blank
import LegalEntity.Text.Case

namespace LegalEntity

structure Entity where
  legalName : String
  lei : String
  deriving DecidableEq, Inhabited

structure Scored (α : Type) where
  entity : Entity
  score : α
  deriving DecidableEq

def canonical (s : String) : String := String.ofList (Text.uppercase (Text.trim s.toList))

/-- An equity whose issuer is sought. The ISIN is kept as it was given. -/
structure Query where
  symbol : String
  name : String
  isin : Option String
  deriving DecidableEq, Inhabited

def Query.canonicalIsin? (q : Query) : Option String :=
  (q.isin.map canonical).filter (!·.isEmpty)

inductive Source
  | isinIndex
  | nameCache
  | registrySearch
  deriving DecidableEq

structure Identity where
  name : String
  symbol : String
  isin : Option String
  lei : String
  source : Source
  deriving DecidableEq

def Query.identity (q : Query) (lei : String) (source : Source) : Identity :=
  { name := q.name, symbol := q.symbol, isin := q.isin, lei, source }

inductive NameOutcome
  | found (lei : String)
  | notFound
  deriving DecidableEq

def NameOutcome.ofLei : Option String → NameOutcome
  | some lei => .found lei
  | none => .notFound

abbrev IsinIndex := Table String

structure ArchiveMetadata where
  id : Option String
  fileName : Option String
  uploadedAt : Option String
  downloadLink : Option String
  deriving DecidableEq, Inhabited

end LegalEntity
