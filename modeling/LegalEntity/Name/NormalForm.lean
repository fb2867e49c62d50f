import LegalEntity.Text.Alphanumeric
import LegalEntity.Text.Blank
import LegalEntity.Text.Case

namespace LegalEntity.Name

open Text

def normalChar (c : Char) : Char := if isAlphanumeric c then lowerFirst c else ' '

def normalForm (s : List Char) : List Char := unwords (words (s.map normalChar))

end LegalEntity.Name
