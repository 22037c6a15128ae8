import FiduciaNode.State.Tasks
import FiduciaNode.State.Fencing

inductive HandoffStatus
  | offered
  | accepted
  | rejected
  | expired
  deriving DecidableEq

structure HandoffState where
  name       : String
  resource   : String
  fromOwner  : String
  toOwner    : String
  fromToken  : Nat
  toToken    : Option Nat
  status     : HandoffStatus
  context    : Value
  expiresMs  : Option Nat
  generation : Nat

structure HandoffRecord where
  resource   : String
  fromOwner  : String
  toOwner    : String
  fromToken  : Nat
  toToken    : Option Nat
  status     : HandoffStatus
  context    : Value
  expiresMs  : Option Nat
  generation : Nat

abbrev Handoffs := HashMap String HandoffRecord

instance : Serialize HandoffStatus where
  toValue
    | .offered => "offered"
    | .accepted => "accepted"
    | .rejected => "rejected"
    | .expired => "expired"

instance : Serialize HandoffState where
  toValue h := json [
    ("name", h.name), ("resource", h.resource), ("from", h.fromOwner), ("to", h.toOwner),
    ("from_token", h.fromToken), ("to_token", h.toToken), ("status", h.status),
    ("context", h.context), ("expires_ms", h.expiresMs), ("generation", h.generation)
  ]

namespace HandoffRecord

-- An offer expires lazily.
def effectiveStatus (h : HandoffRecord) (now : Nat) : HandoffStatus :=
  if h.status = .offered && h.expiresMs.any (· ≤ now) then .expired else h.status

def view (h : HandoffRecord) (name : String) (now : Nat) : HandoffState where
  name       := name
  resource   := h.resource
  fromOwner  := h.fromOwner
  toOwner    := h.toOwner
  fromToken  := h.fromToken
  toToken    := h.toToken
  status     := h.effectiveStatus now
  context    := h.context
  expiresMs  := h.expiresMs
  generation := h.generation

end HandoffRecord

namespace Handoffs

def maxHandoffTokenAdvance : Nat := 1000000000

def refusal (reason : String) (record : HandoffRecord) (name : String) (now : Nat) : Value :=
  json [("ok", false), ("reason", reason), ("handoff", record.view name now)]

def applyHandoffOffer
    (handoffs : Handoffs) (fencing : FencingCounter) (now : Nat)
    (name resource fromOwner toOwner : String) (fromToken : Nat) (context : Value) (ttlMs : Nat) :
    Handoffs × Value :=
  if fromToken > U64.saturatingAdd fencing.nextFencingToken maxHandoffTokenAdvance then
    (handoffs, json [("ok", false), ("reason", "implausible_from_token")])
  else
    match handoffs[name]?.filter fun existing => existing.effectiveStatus now = .offered with
    | some existing => (handoffs, refusal "already_offered" existing name now)
    | none =>
      let record : HandoffRecord := {
        resource, fromOwner, toOwner, fromToken, toToken := none, status := .offered, context
        expiresMs := some (U64.saturatingAdd now ttlMs), generation := 1
      }
      (handoffs.insert name record, json [("ok", true), ("handoff", record.view name now)])

-- A refused accept consumes no token.
def applyHandoffAccept
    (handoffs : Handoffs) (fencing : FencingCounter) (now : Nat) (name toOwner : String) :
    Handoffs × FencingCounter × Value :=
  match handoffs[name]? with
  | none => (handoffs, fencing, notFound)
  | some record =>
    if record.effectiveStatus now ≠ .offered then
      (handoffs, fencing, refusal "not_offered" record name now)
    else if record.toOwner ≠ toOwner then
      (handoffs, fencing, refusal "not_recipient" record name now)
    else
      match fencing.mintTokenAbove record.fromToken with
      | none => (handoffs, fencing, fencingTokensExhausted)
      | some (token, fencing) =>
        let record := { record with
          status := .accepted, toToken := some token, generation := record.generation + 1
        }
        (handoffs.insert name record, fencing, json [
          ("ok", true), ("to_token", token), ("handoff", record.view name now)
        ])

def applyHandoffReject (handoffs : Handoffs) (now : Nat) (name toOwner : String) :
    Handoffs × Value :=
  match handoffs[name]? with
  | none => (handoffs, notFound)
  | some record =>
    if record.effectiveStatus now ≠ .offered then
      (handoffs, refusal "not_offered" record name now)
    else if record.toOwner ≠ toOwner then
      (handoffs, refusal "not_recipient" record name now)
    else
      let record := { record with status := .rejected, generation := record.generation + 1 }
      (handoffs.insert name record, json [("ok", true), ("handoff", record.view name now)])

end Handoffs
