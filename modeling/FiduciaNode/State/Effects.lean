import FiduciaNode.State.Tasks

inductive EffectStatus
  | prepared
  | approved
  | committed
  | aborted
  deriving DecidableEq

structure EffectState where
  name              : String
  effectType        : String
  payload           : Value
  risk              : String
  idempotencyKey    : String
  status            : EffectStatus
  requiredApprovals : Nat
  approvals         : List String
  result            : Option Value
  generation        : Nat

structure EffectRecord where
  effectType        : String
  payload           : Value
  risk              : String
  idempotencyKey    : String
  status            : EffectStatus
  requiredApprovals : Nat
  approvals         : BTreeSet String
  result            : Option Value
  generation        : Nat

abbrev Effects := HashMap String EffectRecord

instance : Serialize EffectStatus where
  toValue
    | .prepared => "prepared"
    | .approved => "approved"
    | .committed => "committed"
    | .aborted => "aborted"

instance : Serialize EffectState where
  toValue e := json [
    ("name", e.name), ("effect_type", e.effectType), ("payload", e.payload), ("risk", e.risk),
    ("idempotency_key", e.idempotencyKey), ("status", e.status),
    ("required_approvals", e.requiredApprovals), ("approvals", e.approvals), ("result", e.result),
    ("generation", e.generation)
  ]

namespace EffectStatus

def isTerminal : EffectStatus → Bool
  | committed | aborted => true
  | _ => false

end EffectStatus

namespace EffectRecord

def view (e : EffectRecord) (name : String) : EffectState where
  name              := name
  effectType        := e.effectType
  payload           := e.payload
  risk              := e.risk
  idempotencyKey    := e.idempotencyKey
  status            := e.status
  requiredApprovals := e.requiredApprovals
  approvals         := e.approvals.toList
  result            := e.result
  generation        := e.generation

end EffectRecord

namespace Effects

def applyEffectPrepare
    (effects : Effects) (name effectType : String) (payload : Value) (risk idempotencyKey : String)
    (requiredApprovals : Nat) : Effects × Value :=
  match effects[name]? with
  | some existing =>
    (effects, json [("ok", true), ("created", false), ("effect", existing.view name)])
  | none =>
    let record : EffectRecord := {
      effectType, payload, risk, idempotencyKey
      status := if requiredApprovals = 0 then .approved else .prepared
      requiredApprovals, approvals := ∅, result := none, generation := 1
    }
    (effects.insert name record, json [
      ("ok", true), ("created", true), ("effect", record.view name)
    ])

-- Approving and aborting an effect are refused once the effect is terminal.
def applyOpen (effects : Effects) (name : String) (update : EffectRecord → EffectRecord) :
    Effects × Value :=
  match effects[name]? with
  | none => (effects, notFound)
  | some record =>
    if record.status.isTerminal then
      (effects, json [("ok", false), ("reason", "terminal"), ("effect", record.view name)])
    else
      let record := { update record with generation := record.generation + 1 }
      (effects.insert name record, json [("ok", true), ("effect", record.view name)])

def applyEffectApprove (effects : Effects) (name principal : String) : Effects × Value :=
  effects.applyOpen name fun record =>
    let approvals := record.approvals.insert principal
    let status := if approvals.size ≥ record.requiredApprovals then .approved else record.status
    { record with approvals, status }

def applyEffectAbort (effects : Effects) (name : String) : Effects × Value :=
  effects.applyOpen name ({ · with status := .aborted })

def applyEffectCommit (effects : Effects) (name : String) (result : Value) : Effects × Value :=
  match effects[name]? with
  | none => (effects, notFound)
  | some record =>
    match record.status with
    | .committed =>
      (effects, json [("ok", true), ("committed", false), ("effect", record.view name)])
    | .aborted =>
      (effects, json [("ok", false), ("reason", "aborted"), ("effect", record.view name)])
    | .prepared =>
      (effects, json [
        ("ok", false), ("reason", "not_approved"), ("approvals", record.approvals.size),
        ("required_approvals", record.requiredApprovals), ("effect", record.view name)
      ])
    | .approved =>
      let record := { record with
        status := .committed, result := some result, generation := record.generation + 1
      }
      (effects.insert name record, json [
        ("ok", true), ("committed", true), ("effect", record.view name)
      ])

end Effects
