import LegalEntity.Text.Blank
import LegalEntity.Text.Case

namespace LegalEntity.Name

open Text

def shortForms : List (List Char) :=
  ["AB", "AG", "ASA", "BV", "CO", "CORP", "CORPORATION", "GMBH", "INC", "INCORPORATED", "KG",
    "KGAA", "LIMITED", "LLC", "LP", "LTD", "NV", "OYJ", "PLC", "SA", "SARL", "SAS", "SE", "SPA"].map
    String.toList

def longForms : List (List (List Char)) :=
  [["PUBLIC", "LIMITED", "COMPANY"].map String.toList]

def isShortForm (word : List Char) : Bool :=
  shortForms.contains (trimEnd (· == ',') ((uppercase word).filter (· != '.')))

def bareWord (word : List Char) : List Char :=
  trimBoth (fun c => c == '.' || c == ',') (uppercase word)

def remainder (ws : List (List Char)) : List Char :=
  trimEnd (fun c => c == ' ' || c == ',' || c == '.') (unwords ws)

def withoutLongForm? (ws : List (List Char)) : Option (List Char) :=
  longForms.findSome? fun form =>
    let n := ws.length - form.length
    if form.length < ws.length && (ws.drop n).map bareWord == form then some (remainder (ws.take n))
    else none

def withoutShortForm? (ws : List (List Char)) : Option (List Char) :=
  match ws.getLast? with
  | some last => if 1 < ws.length && isShortForm last then some (remainder ws.dropLast) else none
  | none => none

/-- The name without its last legal form, unless nothing would be left. -/
def withoutLegalForm (name : List Char) : List Char :=
  match (withoutLongForm? (words name)).or (withoutShortForm? (words name)) with
  | some rest => if rest.isEmpty then name else rest
  | none => name

end LegalEntity.Name
