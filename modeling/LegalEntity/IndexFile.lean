import LegalEntity.Csv
import LegalEntity.Entity
import LegalEntity.Error
import LegalEntity.Text.Utf8
/-!
The file that relates ISINs to LEIs: a header, and a row for each pair. Rows that cannot be read
are passed over; of rows with one ISIN the last counts.
-/

namespace LegalEntity.IndexFile

structure Stream where
  bytes : List UInt8
  broken : Bool
  deriving DecidableEq

def leiColumn : String := "LEI"

def isinColumn : String := "ISIN"

def cells? (row : Csv.Record) : Option (List String) := row.mapM Text.ofUtf8?

def cell (names cells : List String) (name : String) : String :=
  ((names.zip cells).lookup name).getD ""

/-- LEI and ISIN of a row. Without a readable header they are its first two cells. A row that is
shorter than its header cannot be read, nor one below a header that repeats either name. -/
def pair? (header : Option (List String)) (cells : List String) : Option (String × String) :=
  match header with
  | none => some (cells.getD 0 "", cells.getD 1 "")
  | some names =>
    if cells.length < names.length || 1 < names.count leiColumn || 1 < names.count isinColumn then
      none
    else some (cell names cells leiColumn, cell names cells isinColumn)

def pairOf? (header : Option (List String)) (row : Csv.Record) : Option (String × String) := do
  let (lei, isin) ← pair? header (← cells? row)
  if (canonical isin).isEmpty || (canonical lei).isEmpty then none
  else return (canonical isin, canonical lei)

def index : List Csv.Record → IsinIndex
  | [] => .empty
  | header :: rows => Table.ofList (rows.filterMap (pairOf? (cells? header)))

def withoutMark : List UInt8 → List UInt8
  | 0xEF :: 0xBB :: 0xBF :: s => s
  | s => s

/-- A reader that fails before the header has ended gives an empty index. -/
def read (s : Stream) : Except Error IsinIndex :=
  let r := Csv.read (withoutMark s.bytes)
  if s.broken then if r.records.isEmpty then .ok .empty else .error .csv
  else .ok (index (r.records ++ r.rest.toList))

end LegalEntity.IndexFile
