import LegalEntity.Text.Blank
import LegalEntity.Text.Case

namespace LegalEntity.Cache

open Text

def nameForm (name : List Char) : List Char := uppercase (unwords (words name))

def normalName (name : String) : String := String.ofList (nameForm name.toList)

def nameKey (nameSpace name : String) : String := nameSpace ++ ":" ++ normalName name

end LegalEntity.Cache
