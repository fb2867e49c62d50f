import LegalEntity.Json.Printer
import LegalEntity.Proofs.Runs.Alone
import LegalEntity.Proofs.Runs.Retried

namespace LegalEntity.Resolver

section

variable {σ α : Type} {w : Surroundings σ}

theorem request_reaches {x : Shared × σ} {p : Retry.Policy} {url : String}
    {parameters : Registry.Parameters} {read : Registry.Reply → Option (List β)}
    {reply : Registry.Reply} {items : List β} (hstatus : Retry.isSuccess reply.status = true)
    (hread : read reply = some items) (hw : w.replies x.2 url parameters (.ok reply) x.2) :
    (request p url parameters read).Reaches w x x items := by
  have hsettles : settles (.ok reply) = true := by
    rw [settles_iff]
    intro reply' heq
    cases heq
    rw [Retry.StatusClass.of, if_pos hstatus]
    decide
  have hsending (entropy : UInt64) :
      (sending url parameters read (p.schedule entropy)).Reaches w x x items := by
    rw [sending, Retry.Policy.schedule, attempts_cons, if_pos rfl]
    refine .ask (.ok reply) ⟨hw, rfl⟩ ?_
    rw [onOutcome_of_settles hsettles, final?, if_neg (settles_iff.1 hsettles reply rfl)]
    simp only [Dialogue.done_bind, Option.map_some, Option.getD_some, hstatus, hread, if_true]
    exact .done
  rw [request_eq_bind, schedule]
  cases p.seed with
  | none => exact .ask (0 : UInt64) rfl (hsending 0)
  | some seed => exact hsending 0

def Shared.unused (slots : Nat) : Shared := ⟨⟨slots, [], []⟩, .unclaimed, [], 0⟩

theorem explain_reaches [Scalar α] {s : Settings α} {name : String} {t : Trace α} {free : Nat}
    {o p : σ} (h : (search s name).Reaches w (.unused free, o) (.unused free, p) t) :
    ((Call.explain name).dialogue s).Reaches w (.unused (free + 1), o) (.unused (free + 1), p)
      (.explained t) := by
  have henter : w.Serves 0 .enter () (.unused (free + 1), o) (.unused free, o) := ⟨rfl, rfl⟩
  have hleave : w.Serves 0 .leave () (.unused free, p) (.unused (free + 1), p) := ⟨rfl, rfl⟩
  have hexplain : (explain s name).Reaches w (.unused (free + 1), o) (.unused (free + 1), p) t :=
    .ask () henter (h.bind (.ask () hleave .done))
  exact hexplain.bind .done

end

def completionItem (e : Entity) : Json :=
  .object [("attributes", .object [("value", .string e.legalName)]),
    ("relationships", .object
      [("lei-records", .object [("data", .object [("id", .string e.lei)])])])]

def identifierItem (e : Entity) : Json := .object [("id", .string e.lei)]

def recordItem (e : Entity) : Json :=
  .object [("id", .string e.lei), ("attributes", .object
    [("entity", .object [("legalName", .object [("name", .string e.legalName)])])])]

def listReply (items : List Json) : Registry.Reply :=
  ⟨200, Text.utf8 (Json.object [("data", .array items)]).render⟩

/-- Completions of every name, which entities are active and the owners of all, beside a cache that
keeps nothing. -/
def Surroundings.reporting (completions active owners : List Entity) : Surroundings Unit where
  reads _ _ a _ := a = .ok none
  writes _ _ _ a _ := a = .ok ()
  replies _ _ parameters a _ := a = .ok (match parameters with
    | ("field", _) :: _ => listReply (completions.map completionItem)
    | ("filter[lei]", _) :: _ => listReply (active.map identifierItem)
    | _ => listReply (owners.map recordItem))
  delivers _ _ a file _ := a = .error .io ∧ file = none
  refuses _ := True

end LegalEntity.Resolver
