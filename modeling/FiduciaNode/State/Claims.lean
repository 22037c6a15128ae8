import FiduciaNode.State.Tasks

inductive ClaimStatus
  | asserted
  | contested
  | accepted
  | rejected
  | superseded
  deriving DecidableEq

structure ClaimContest where
  agent  : String
  reason : String

structure ClaimState where
  name         : String
  subject      : String
  predicate    : String
  value        : Value
  confidence   : Float32
  author       : String
  status       : ClaimStatus
  supporters   : List String
  contests     : List ClaimContest
  evidence     : List String
  validUntilMs : Option Nat
  supersededBy : Option String
  version      : Nat
  generation   : Nat

structure ClaimRecord where
  subject      : String
  predicate    : String
  value        : Value
  confidence   : Float32
  author       : String
  status       : ClaimStatus
  supporters   : BTreeSet String
  contests     : BTreeMap String String
  evidence     : List String
  validUntilMs : Option Nat
  supersededBy : Option String
  version      : Nat
  generation   : Nat

abbrev Claims := HashMap String ClaimRecord

instance : Serialize ClaimStatus where
  toValue
    | .asserted => "asserted"
    | .contested => "contested"
    | .accepted => "accepted"
    | .rejected => "rejected"
    | .superseded => "superseded"

instance : Serialize ClaimContest where
  toValue c := json [("agent", c.agent), ("reason", c.reason)]

instance : Serialize ClaimState where
  toValue c := json [
    ("name", c.name), ("subject", c.subject), ("predicate", c.predicate), ("value", c.value),
    ("confidence", c.confidence), ("author", c.author), ("status", c.status),
    ("supporters", c.supporters), ("contests", c.contests), ("evidence", c.evidence),
    ("valid_until_ms", c.validUntilMs), ("superseded_by", c.supersededBy), ("version", c.version),
    ("generation", c.generation)
  ]

namespace ClaimStatus

def isTerminal : ClaimStatus → Bool
  | accepted | rejected | superseded => true
  | _ => false

end ClaimStatus

namespace ClaimRecord

def view (c : ClaimRecord) (name : String) : ClaimState where
  name         := name
  subject      := c.subject
  predicate    := c.predicate
  value        := c.value
  confidence   := c.confidence
  author       := c.author
  status       := c.status
  supporters   := c.supporters.toList
  contests     := c.contests.toList.map fun (agent, reason) => { agent, reason }
  evidence     := c.evidence
  validUntilMs := c.validUntilMs
  supersededBy := c.supersededBy
  version      := c.version
  generation   := c.generation

end ClaimRecord

namespace Claims

-- A claim that is not terminal is asserted again without its supporters and contests.
def applyClaimAssert
    (claims : Claims) (name subject predicate : String) (value : Value) (confidence : Float32)
    (author : String) (evidence : List String) (validUntilMs : Option Nat) : Claims × Value :=
  match claims[name]? with
  | some record =>
    if record.status.isTerminal then
      (claims, json [("ok", false), ("reason", "terminal"), ("claim", record.view name)])
    else
      let record := { record with
        subject, predicate, value, confidence, author, evidence, validUntilMs
        status := .asserted, supporters := ∅, contests := ∅
        version := record.version + 1, generation := record.generation + 1
      }
      (claims.insert name record, json [
        ("ok", true), ("created", false), ("claim", record.view name)
      ])
  | none =>
    let record : ClaimRecord := {
      subject, predicate, value, confidence, author, status := .asserted, supporters := ∅
      contests := ∅, evidence, validUntilMs, supersededBy := none, version := 1, generation := 1
    }
    (claims.insert name record, json [("ok", true), ("created", true), ("claim", record.view name)])

def applyOpen (claims : Claims) (name : String) (update : ClaimRecord → ClaimRecord) :
    Claims × Value :=
  match claims[name]? with
  | none => (claims, notFound)
  | some record =>
    if record.status.isTerminal then
      (claims, json [("ok", false), ("reason", "terminal"), ("claim", record.view name)])
    else
      let record := { update record with generation := record.generation + 1 }
      (claims.insert name record, json [("ok", true), ("claim", record.view name)])

def applyClaimSupport (claims : Claims) (name agent : String) : Claims × Value :=
  claims.applyOpen name fun record => { record with supporters := record.supporters.insert agent }

def applyClaimContest (claims : Claims) (name agent reason : String) : Claims × Value :=
  claims.applyOpen name fun record => { record with
    contests := record.contests.insert agent reason, status := .contested
  }

def applyClaimResolve (claims : Claims) (name : String) (accepted : Bool) : Claims × Value :=
  claims.applyOpen name ({ · with status := if accepted then .accepted else .rejected })

-- Unlike the other operations this one also applies to a claim that was accepted or rejected.
def applyClaimSupersede (claims : Claims) (name supersededBy : String) : Claims × Value :=
  match claims[name]? with
  | none => (claims, notFound)
  | some record =>
    if record.status = .superseded then
      (claims, json [("ok", true), ("superseded", false), ("claim", record.view name)])
    else
      let record := { record with
        status := .superseded, supersededBy := some supersededBy
        generation := record.generation + 1
      }
      (claims.insert name record, json [
        ("ok", true), ("superseded", true), ("claim", record.view name)
      ])

end Claims
