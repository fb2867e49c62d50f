import LegalEntity.Duration
import LegalEntity.Error
import LegalEntity.Text.Blank

namespace LegalEntity.Cache

structure Options where
  dir : String
  lifetime : Option Duration
  deriving DecidableEq

namespace Options

def defaultDir : String := "./data/cache"

def defaultMinutes : Nat := 1440

def maxSeconds : Nat := Nat.pow 2 64 - 1

def minutes? (s : List Char) : Option Nat :=
  let ds := match s with
    | '+' :: ds => ds
    | _ => s
  if ds.isEmpty || !ds.all Char.isDigit then none
  else
    let n := ds.foldl (fun n d => 10 * n + (d.toNat - 48)) 0
    if n ≤ maxSeconds then some n else none

def lifetimeOf (minutes : Nat) : Option Duration :=
  if minutes = 0 then none else some (.ofSeconds (min (minutes * 60) maxSeconds))

def of (dir minutes : Option String) : Except Error Options := do
  let dir := (dir.filter fun d => !(Text.trim d.toList).isEmpty).getD defaultDir
  match (minutes.map fun m => Text.trim m.toList).getD [] with
  | [] => return ⟨dir, lifetimeOf defaultMinutes⟩
  | raw =>
    match minutes? raw with
    | some n => return ⟨dir, lifetimeOf n⟩
    | none =>
      .error (.invalidConfig
        ("CACHE_TTL_MINUTES must be a non-negative integer, got '" ++ String.ofList raw ++ "'"))

end Options

end LegalEntity.Cache
