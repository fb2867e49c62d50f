import LegalEntity.Text.Blank

namespace LegalEntity

structure Timestamp where
  year : Int
  month : Nat
  day : Nat
  hour : Nat
  minute : Nat
  second : Nat
  nanosecond : Nat
  offset : Int
  deriving DecidableEq

namespace Timestamp

/-- Days from 1970-01-01 to a date. Years are counted from March, so that a leap day ends one. -/
def days (year : Int) (month day : Nat) : Int :=
  let y := if month ≤ 2 then year - 1 else year
  let m : Int := (month + 9) % 12
  365 * y + y.fdiv 4 - y.fdiv 100 + y.fdiv 400 + (153 * m + 2) / 5 + day - 1 - 719468

def seconds (t : Timestamp) : Int :=
  days t.year t.month t.day * 86400 + t.hour * 3600 + t.minute * 60 + t.second - t.offset

def instant (t : Timestamp) : Int := t.seconds * 1000000000 + t.nanosecond

def isLeapYear (year : Int) : Bool :=
  year.fmod 4 == 0 && (year.fmod 100 != 0 || year.fmod 400 == 0)

def daysIn (year : Int) (month : Nat) : Nat :=
  if month = 2 then if isLeapYear year then 29 else 28
  else if month = 4 ∨ month = 6 ∨ month = 9 ∨ month = 11 then 30
  else 31

def minYear : Int := -262143

def maxYear : Int := 262142

/-- Every field is in its range, and so is the time in UTC. A second 60 belongs to its minute. -/
def isValid (t : Timestamp) : Bool :=
  let seconds := { t with second := min t.second 59 }.seconds
  minYear ≤ t.year && t.year ≤ maxYear && 1 ≤ t.month && t.month ≤ 12 && 1 ≤ t.day
    && t.day ≤ daysIn t.year t.month && t.hour < 24 && t.minute < 60 && t.second ≤ 60
    && t.nanosecond < 1000000000 && t.offset.natAbs < 86400
    && days minYear 1 1 * 86400 ≤ seconds && seconds < days (maxYear + 1) 1 1 * 86400

def digits (width n : Nat) : List Char :=
  let ds := Nat.toDigits 10 n
  List.replicate (width - ds.length) '0' ++ ds

def yearText (year : Int) : List Char :=
  if 0 ≤ year ∧ year ≤ 9999 then digits 4 year.toNat
  else (if year < 0 then '-' else '+') :: digits 4 year.natAbs

def fractionText (n : Nat) : List Char :=
  if n = 0 then []
  else if n % 1000000 = 0 then '.' :: digits 3 (n / 1000000)
  else if n % 1000 = 0 then '.' :: digits 6 (n / 1000)
  else '.' :: digits 9 n

def text (t : Timestamp) : List Char :=
  yearText t.year ++ '-' :: digits 2 t.month ++ '-' :: digits 2 t.day ++ 'T' :: digits 2 t.hour
    ++ ':' :: digits 2 t.minute ++ ':' :: digits 2 t.second ++ fractionText t.nanosecond ++ ['Z']

def render (t : Timestamp) : String := String.ofList t.text

def skipBlank (s : List Char) : List Char := Text.trimStart Text.isBlank s

def number? (width : Nat) (s : List Char) : Option (Nat × List Char) :=
  let s := skipBlank s
  let ds := (s.take width).takeWhile Char.isDigit
  if ds.isEmpty then none
  else some (ds.foldl (fun n d => 10 * n + (d.toNat - 48)) 0, s.drop ds.length)

def year? (s : List Char) : Option (Int × List Char) :=
  match skipBlank s with
  | '+' :: s => (unsigned? s).map fun (n, s) => (n, s)
  | '-' :: s => (unsigned? s).map fun (n, s) => (-n, s)
  | s => (number? 4 s).map fun (n, s) => (n, s)
where
  unsigned? (s : List Char) : Option (Nat × List Char) :=
    if s.head?.any Char.isDigit then number? s.length s else none

def mark? (c : Char) (s : List Char) : Option (List Char) :=
  match skipBlank s with
  | d :: s => if c = d then some s else none
  | [] => none

def fraction? : List Char → Option (Nat × List Char)
  | '.' :: s =>
    let ds := s.takeWhile Char.isDigit
    if ds.isEmpty then none
    else
      let nine := (ds ++ List.replicate 9 '0').take 9
      some (nine.foldl (fun n d => 10 * n + (d.toNat - 48)) 0, s.drop ds.length)
  | s => some (0, s)

def twoDigits? : List Char → Option (Nat × List Char)
  | a :: b :: s =>
    if a.isDigit && b.isDigit then some (10 * (a.toNat - 48) + (b.toNat - 48), s) else none
  | _ => none

def offset? (s : List Char) : Option (Int × List Char) :=
  if (s.take 3).map Char.toUpper = ['U', 'T', 'C'] then some (0, s.drop 3)
  else
    match s with
    | c :: rest =>
      if c = 'Z' ∨ c = 'z' then some (0, rest)
      else if c = '+' ∨ c = '-' ∨ c = '\u2212' then do
        let (hours, rest) ← twoDigits? rest
        let (minutes, rest) ← twoDigits? (rest.dropWhile fun c => c == ':' || Text.isBlank c)
        if 60 ≤ minutes then none
        let seconds : Int := hours * 3600 + minutes * 60
        return (if c = '+' then seconds else -seconds, rest)
      else none
    | [] => none

def read? (s : List Char) : Option Timestamp := do
  let (year, s) ← year? s
  let (month, s) ← number? 2 (← mark? '-' s)
  let (day, s) ← number? 2 (← mark? '-' s)
  let s ← match s with
    | c :: s => if c = 'T' ∨ c = 't' ∨ c = ' ' then some s else none
    | [] => none
  let (hour, s) ← number? 2 s
  let (minute, s) ← number? 2 (← mark? ':' s)
  let (second, s) ← number? 2 (← mark? ':' s)
  let (nanosecond, s) ← fraction? s
  let (offset, s) ← offset? (skipBlank s)
  let t : Timestamp := { year, month, day, hour, minute, second, nanosecond, offset }
  if (skipBlank s).isEmpty && t.isValid then return t else none

def ofText? (s : String) : Option Timestamp := read? s.toList

end Timestamp

end LegalEntity
