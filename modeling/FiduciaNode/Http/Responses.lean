import FiduciaNode.Consensus.Messages
import FiduciaNode.Http.Coordination
import FiduciaNode.State.Apply
import FiduciaNode.State.Views

structure Response where
  status : Nat
  body   : Value

-- What a shard answers to a proposal that it has committed and applied.
instance : Serialize ProposeOutcome where
  toValue r := json [
    ("shard", r.shard), ("log_index", r.logIndex), ("revision", r.revision), ("output", r.output)
  ]

namespace Response

def ok (body : Value) : Response where
  status := 200
  body   := body

def scopeViolation : Response where
  status := 500
  body   := json [
    ("error", "org_scope_violation"),
    ("detail", "a response contained an identity outside the caller org")
  ]

def committed (outcome : ProposeOutcome) : Response :=
  ok (json [("committed", true), ("result", outcome)])

end Response

namespace OrgScope

-- The fields that hold keys and names.
def identityFields : List String := [
  "key", "keys", "held_keys", "conflicts", "name", "tenant", "service", "holder", "superseded_by",
  "idempotency_key"
]

-- The fields that hold what the callers store, which is not looked into.
def opaqueFields : List String := [
  "value", "payload", "result", "context", "checkpoint", "metadata", "evidence", "target"
]

variable [External] (org : OrgScope)

-- A text is taken for a scoped one iff it begins with the delimiter.
def unscopeText (text : String) : Option String :=
  if text.toList.head? = some External.orgScopeDelim then org.unscope text else some text

mutual

-- Whether a text stands for a key or a name is decided by the closest field around it.
def unscopeValue (identity : Bool) : Value → Option Value
  | .string text => if identity then (org.unscopeText text).map .string else some (.string text)
  | .array items => (unscopeItems identity items).map .array
  | .object fields => (unscopeFields fields).map .object
  | .null => some .null
  | .bool b => some (.bool b)
  | .number n => some (.number n)
  | .float x => some (.float x)

def unscopeItems (identity : Bool) : List Value → Option (List Value)
  | [] => some []
  | item :: items => do some ((← unscopeValue identity item) :: (← unscopeItems identity items))

def unscopeFields : List (String × Value) → Option (List (String × Value))
  | [] => some []
  | (field, child) :: fields => do
    let child ←
      if opaqueFields.contains field then some child
      else unscopeValue (identityFields.contains field) child
    some ((field, child) :: (← unscopeFields fields))

end

def response (value : Value) : Response :=
  match org.unscopeValue false value with
  | some value => .ok value
  | none => .scopeViolation

def proposeResponse (outcome : ProposeOutcome) : Response :=
  match org.unscopeValue false outcome.output with
  | some output => .committed { outcome with output }
  | none => .scopeViolation

end OrgScope

namespace Http

variable [External] (o : IterOrder) (s : Store) (now : Nat) (org : OrgScope)

def Locks.getLock (key : String) : Response :=
  org.response (json [("key", key), ("lock", s.lockGet now (org.scope key))])

-- What the other reads have in common: the name as it stands in the query, and the record if there is one.
def getNamed {α : Type} [Serialize α] (kind name : String) (record : Option α) : Response :=
  org.response (json [("name", name), ("found", record.isSome), (kind, record)])

def Barriers.getBarrier (name : String) : Response :=
  getNamed org "barrier" name (s.barrierGet o now (org.scope name))

def Tasks.getTask (name : String) : Response :=
  getNamed org "task" name (s.taskGet (org.scope name))

def Effects.getEffect (name : String) : Response :=
  getNamed org "effect" name (s.effectGet (org.scope name))

def Handoffs.getHandoff (name : String) : Response :=
  getNamed org "handoff" name (s.handoffGet now (org.scope name))

def Decisions.getDecision (name : String) : Response :=
  getNamed org "decision" name (s.decisionGet now (org.scope name))

def Budgets.getBudget (name : String) : Response :=
  getNamed org "budget" name (s.budgetGet (org.scope name))

def Claims.getClaim (name : String) : Response :=
  getNamed org "claim" name (s.claimGet (org.scope name))

-- A request that reads one record, by the route that it comes in on.
inductive Read
  | lock (key : String)
  | barrier (name : String)
  | task (name : String)
  | effect (name : String)
  | handoff (name : String)
  | decision (name : String)
  | budget (name : String)
  | claim (name : String)

def Read.respond : Read → Response
  | lock key => Locks.getLock s now org key
  | barrier name => Barriers.getBarrier o s now org name
  | task name => Tasks.getTask s org name
  | effect name => Effects.getEffect s org name
  | handoff name => Handoffs.getHandoff s now org name
  | decision name => Decisions.getDecision s now org name
  | budget name => Budgets.getBudget s org name
  | claim name => Claims.getClaim s org name

-- A request is proposed in the form that the active protocol permits, and the shard applies it to its
-- store. Otherwise the answer is a rejection or an error of the shard.
def Write.outcome (active shard logIndex : Nat) (write : Write) : Option ProposeOutcome := do
  let command ← (write.handle org).toOption
  let command ← (command.forActiveProtocol active).toOption
  let result := (s.applyAt o command now).2
  some { shard, logIndex, revision := result.revision, output := result.output }

inductive Request
  | read (query : Read)
  | write (proposal : Write)

def Request.respond (active shard logIndex : Nat) : Request → Option Response
  | read query => some (query.respond o s now org)
  | write proposal => (proposal.outcome o s now org active shard logIndex).map org.proposeResponse

end Http
