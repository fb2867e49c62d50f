import LegalEntity.Registry.Request
/-!
A registry that answers by a script: the first rule that fits a request hands out its replies one
after another and then repeats the last.
-/

namespace LegalEntity.Rehearsal

open Registry (Parameters)

inductive Kind
  | search
  | active
  | parents
  | metadata
  | download
  deriving DecidableEq

inductive Scripted
  | reply (status : Nat) (body : List UInt8)
  | timeout
  | transport (message : String)
  deriving DecidableEq

structure ScriptedReply where
  delay : Nat
  content : Scripted
  deriving DecidableEq

structure Rule where
  kind : Kind
  argument : Option String
  replies : List ScriptedReply
  used : Nat
  deriving DecidableEq

def kindOf (parameters : Parameters) : Kind × String :=
  match parameters.lookup "q", parameters.lookup "filter[lei]", parameters.lookup "filter[owns]" with
  | some q, _, _ => (.search, q)
  | none, some leis, _ => (.active, leis)
  | none, none, some lei => (.parents, lei)
  | none, none, none => (.metadata, "")

def Rule.fits (r : Rule) (kind : Kind) (argument : String) : Bool :=
  r.kind == kind && r.argument.all (· == argument)

def nextReply (kind : Kind) (argument : String) : List Rule → Option ScriptedReply × List Rule
  | [] => (none, [])
  | r :: rs =>
    if r.fits kind argument then
      (r.replies[min r.used (r.replies.length - 1)]?, { r with used := r.used + 1 } :: rs)
    else
      let (reply, rs) := nextReply kind argument rs
      (reply, r :: rs)

def outcomeOf (url : String) : Option ScriptedReply → Nat × Registry.Outcome
  | none => (0, .error (.transport ("no route: " ++ url)))
  | some r =>
    (r.delay, match r.content with
      | .reply status body => .ok ⟨status, body⟩
      | .timeout => .error (.timeout url)
      | .transport message => .error (.transport message))

end LegalEntity.Rehearsal
