namespace LegalEntity

inductive Error
  | notFound (name : String) (isin : Option String)
  | transport (message : String)
  | timeout (url : String)
  | httpStatus (status : Nat) (url : String)
  | malformedPayload
  | metadataUnavailable (reason : String)
  | missingDownloadLink
  | missingCsv
  | archive
  | csv
  | io
  | task (message : String)
  | gateClosed
  deriving DecidableEq

namespace Error

/-- There is no wording where the cause is told by the system alone. -/
def message? : Error → Option String
  | notFound name isin =>
    some ("No LEI found for " ++ name ++ " (ISIN: " ++ isin.getD "none" ++ ")")
  | transport message => some ("Transport error: " ++ message)
  | timeout url => some ("Request timed out: " ++ url)
  | httpStatus status url => some ("HTTP " ++ toString status ++ " from " ++ url)
  | metadataUnavailable reason => some ("ISIN->LEI metadata unavailable: " ++ reason)
  | missingDownloadLink => some "ISIN->LEI metadata missing download link"
  | missingCsv => some "No CSV file found in ISIN->LEI archive"
  | task message => some ("Background task failed: " ++ message)
  | gateClosed => some "API admission gate closed"
  | malformedPayload | archive | csv | io => none

def isNotFound : Error → Bool
  | notFound .. => true
  | _ => false

end Error

namespace Cache

inductive Error
  | io
  | serialization
  | invalidConfig (message : String)
  deriving DecidableEq

def Error.message? : Error → Option String
  | invalidConfig message => some ("Invalid cache configuration: " ++ message)
  | io | serialization => none

end Cache

end LegalEntity
