import LegalEntity.Cache.Store
import LegalEntity.Rehearsal.Script
import LegalEntity.Resolver.Shared
import LegalEntity.Retry.Status
/-!
Dialogues run together in a world with a scripted registry and a clock that moves only when every
dialogue waits. Time is in whole milliseconds. The dialogues take turns in a fixed order, each going
on until it has to wait. Work on files takes no time, but lets the other dialogues go first.
-/

namespace LegalEntity.Rehearsal

open Resolver

inductive Sent
  | get (time : Nat) (url query : String)
  | download (time : Nat) (url : String) (scratch : Nat)
  deriving DecidableEq

structure World (σ : Type) where
  shared : Shared
  cache : σ
  script : List Rule
  moment : Cache.Moment
  clock : Nat
  sent : List Sent

inductive Turn (σ α : Type)
  | now (answer : α) (w : World σ)
  | later (time : Nat) (answer : α) (w : World σ)
  | blocked (w : World σ)

def queryText (parameters : Registry.Parameters) : String :=
  "&".intercalate (parameters.map fun p => p.1 ++ "=" ++ p.2)

variable {σ α : Type} [Cache.Store σ]

namespace World

def after (w : World σ) (delay : Nat) (answer : α) : Turn σ α :=
  if delay = 0 then .now answer w else .later (w.clock + delay) answer w

def fetch (w : World σ) (url : String) (parameters : Registry.Parameters) :
    Turn σ Registry.Outcome :=
  let (kind, argument) := kindOf parameters
  let (reply, script) := nextReply kind argument w.script
  let (delay, outcome) := outcomeOf url reply
  after { w with script, sent := .get w.clock url (queryText parameters) :: w.sent } delay outcome

def download (w : World σ) (url : String) (scratch : Nat) : Turn σ (Except Error Unit) :=
  let (reply, script) := nextReply .download url w.script
  let (delay, outcome) := outcomeOf url reply
  let w := { w with script, sent := .download w.clock url scratch :: w.sent }
  match outcome with
  | .error e => after w delay (.error e)
  | .ok reply =>
    if Retry.isSuccess reply.status then
      after { w with shared := w.shared.write scratch reply.body } delay (.ok ())
    else after w delay (.error (.httpStatus reply.status url))

def serve (w : World σ) (caller : Nat) : (op : Op) → Turn σ op.Answer
  | .lookUp key =>
    let (answer, cache) := Cache.Store.get w.moment key w.cache
    .now answer { w with cache }
  | .keep key value =>
    let (answer, cache) := Cache.Store.put w.moment key value w.cache
    .now answer { w with cache }
  | .fetch url parameters => w.fetch url parameters
  | .download url scratch => w.download url scratch
  | .pause span => w.after span.milliseconds ()
  | .draw => .now w.moment.entropy w
  | op =>
    match w.shared.serve caller op with
    | some (.answered answer shared) => .now answer { w with shared }
    | some (.blocked shared) => .blocked { w with shared }
    | none => .blocked w

def rests (w : World σ) : Op → Nat
  | .lookUp key => Cache.Store.getRests key w.cache
  | .keep key _ => Cache.Store.putRests key w.cache
  | .readScratch _ => 1
  | _ => 0

end World

inductive Running (α : Type)
  | active (t : Dialogue α)
  | resting (times : Nat) (t : Dialogue α)
  | asleep (wakes : Nat) (t : Dialogue α)
  | ended (value : α)

def goOn (caller : Nat) (isRested : Bool) : Dialogue α → World σ → Running α × World σ × Bool
  | .done a, w => (.ended a, w, true)
  | .ask op next, w =>
    if !isRested && w.rests op ≠ 0 then (.resting (w.rests op) (.ask op next), w, true)
    else
      match w.serve caller op with
      | .now answer w =>
        let (r, w, _) := goOn caller false (next answer) w
        (r, w, true)
      | .later time answer w => (.asleep time (next answer), w, true)
      | .blocked w => (.active (.ask op next), w, false)

def turn (caller : Nat) (r : Running α) (w : World σ) : Running α × World σ × Bool :=
  match r with
  | .active t => goOn caller false t w
  | .resting times t => if times = 0 then goOn caller true t w else (.resting times t, w, false)
  | .asleep wakes t =>
    if wakes ≤ w.clock then goOn caller false t w else (.asleep wakes t, w, false)
  | .ended a => (.ended a, w, false)

def turns : Nat → List (Running α) → World σ → List (Running α) × World σ × Bool
  | _, [], w => ([], w, false)
  | caller, r :: rs, w =>
    let (r, w, moved) := turn caller r w
    let (rs, w, movedLater) := turns (caller + 1) rs w
    (r :: rs, w, moved || movedLater)

def isResting : Running α → Bool
  | .resting .. => true
  | _ => false

def rest : Running α → Running α
  | .resting times t => .resting (times - 1) t
  | r => r

def wakes? : Running α → Option Nat
  | .asleep wakes _ => some wakes
  | _ => none

def settle : Nat → List (Running α) → World σ → List (Running α) × World σ
  | 0, rs, w => (rs, w)
  | fuel + 1, rs, w =>
    let (rs, w, moved) := turns 0 rs w
    if moved then settle fuel rs w
    else if rs.any isResting then settle fuel (rs.map rest) w
    else
      match (rs.filterMap wakes?).min? with
      | none => (rs, w)
      | some time => settle fuel rs { w with clock := time }

def value? : Running α → Option α
  | .ended a => some a
  | _ => none

/-- More rounds than a dialogue can take: it waits less than five hundred times. -/
def roundsPerDialogue : Nat := 1000

def runAll (ts : List (Dialogue α)) (w : World σ) : Option (List α) × World σ :=
  let (rs, w) := settle (roundsPerDialogue * (ts.length + 1)) (ts.map .active) w
  (rs.mapM value?, w)

def runOne (t : Dialogue α) (w : World σ) : Option α × World σ :=
  let (values, w) := runAll [t] w
  (values.bind (·.head?), w)

end LegalEntity.Rehearsal
