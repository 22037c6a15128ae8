import FiduciaNode.State.Command
import FiduciaNode.Primitives.Integer

inductive TaskStatus
  | pending
  | claimed
  | running
  | completed
  | failed
  | cancelled
  deriving DecidableEq

structure TaskState where
  name           : String
  taskType       : String
  payload        : Value
  status         : TaskStatus
  owner          : Option String
  fencingToken   : Nat
  progress       : Nat
  checkpoint     : Value
  result         : Option Value
  leaseExpiresMs : Option Nat
  deadlineMs     : Option Nat
  generation     : Nat

structure TaskRecord where
  taskType       : String
  payload        : Value
  status         : TaskStatus
  owner          : Option String
  fencingToken   : Nat
  leaseTtlMs     : Nat
  leaseExpiresMs : Option Nat
  progress       : Nat
  checkpoint     : Value
  result         : Option Value
  deadlineMs     : Option Nat
  generation     : Nat

abbrev Tasks := HashMap String TaskRecord

instance : Serialize TaskStatus where
  toValue
    | .pending => "pending"
    | .claimed => "claimed"
    | .running => "running"
    | .completed => "completed"
    | .failed => "failed"
    | .cancelled => "cancelled"

instance : Serialize TaskState where
  toValue t := json [
    ("name", t.name), ("task_type", t.taskType), ("payload", t.payload), ("status", t.status),
    ("owner", t.owner), ("fencing_token", t.fencingToken), ("progress", t.progress),
    ("checkpoint", t.checkpoint), ("result", t.result), ("lease_expires_ms", t.leaseExpiresMs),
    ("deadline_ms", t.deadlineMs), ("generation", t.generation)
  ]

namespace TaskStatus

def isTerminal : TaskStatus → Bool
  | completed | failed | cancelled => true
  | _ => false

end TaskStatus

-- The answer to an operation on a record that does not exist.
def notFound : Value :=
  json [("ok", false), ("reason", "not_found")]

def fencingTokensExhausted : Value :=
  json [("ok", false), ("reason", "fencing_tokens_exhausted")]

namespace TaskRecord

def claimable (t : TaskRecord) (now : Nat) : Bool :=
  !t.status.isTerminal && (t.status = .pending || t.leaseExpiresMs.all (· ≤ now))

def ownedNow (t : TaskRecord) (now : Nat) (worker : String) (token : Nat) : Bool :=
  !t.status.isTerminal && t.owner = some worker && t.fencingToken = token &&
  t.leaseExpiresMs.any (· > now)

def view (t : TaskRecord) (name : String) : TaskState where
  name           := name
  taskType       := t.taskType
  payload        := t.payload
  status         := t.status
  owner          := t.owner
  fencingToken   := t.fencingToken
  progress       := t.progress
  checkpoint     := t.checkpoint
  result         := t.result
  leaseExpiresMs := t.leaseExpiresMs
  deadlineMs     := t.deadlineMs
  generation     := t.generation

end TaskRecord

namespace Tasks

def applyTaskCreate
    (tasks : Tasks) (name taskType : String) (payload : Value) (deadlineMs : Option Nat) :
    Tasks × Value :=
  match tasks[name]? with
  | some existing =>
    (tasks, json [("ok", true), ("created", false), ("task", existing.view name)])
  | none =>
    let record : TaskRecord := {
      taskType, payload, status := .pending, owner := none, fencingToken := 0, leaseTtlMs := 0,
      leaseExpiresMs := none, progress := 0, checkpoint := .null, result := none, deadlineMs,
      generation := 1
    }
    (tasks.insert name record, json [("ok", true), ("created", true), ("task", record.view name)])

-- The token is minted before the task is looked up.
def applyTaskClaim
    (tasks : Tasks) (token? : Option Nat) (now : Nat) (name worker : String) (ttlMs : Nat) :
    Tasks × Value :=
  match token?, tasks[name]? with
  | none, _ => (tasks, fencingTokensExhausted)
  | some _, none => (tasks, notFound)
  | some token, some record =>
    if record.status.isTerminal then
      (tasks, json [("ok", false), ("reason", "terminal"), ("task", record.view name)])
    else if !record.claimable now then
      (tasks, json [
        ("ok", false), ("reason", "already_claimed"), ("owner", record.owner),
        ("task", record.view name)
      ])
    else
      let record := { record with
        owner := some worker, fencingToken := token, leaseTtlMs := ttlMs
        leaseExpiresMs := some (U64.saturatingAdd now ttlMs), status := .claimed
        generation := record.generation + 1
      }
      (tasks.insert name record, json [
        ("ok", true), ("fencing_token", token), ("task", record.view name)
      ])

-- The operations that need the current owner with the current token differ in what they do to the
-- record and in the fields they answer.
def applyOwned
    (tasks : Tasks) (now : Nat) (name worker : String) (fencingToken : Nat)
    (answer : List (String × Value)) (update : TaskRecord → TaskRecord) : Tasks × Value :=
  match tasks[name]? with
  | none => (tasks, notFound)
  | some record =>
    if !record.ownedNow now worker fencingToken then
      (tasks, json [("ok", false), ("reason", "fenced"), ("task", record.view name)])
    else
      let record := { update record with generation := record.generation + 1 }
      let answer := [("ok", toValue true)] ++ answer ++ [("task", toValue (record.view name))]
      (tasks.insert name record, json answer)

def applyTaskProgress
    (tasks : Tasks) (now : Nat) (name worker : String) (fencingToken percent : Nat)
    (checkpoint : Value) : Tasks × Value :=
  tasks.applyOwned now name worker fencingToken [] fun record => { record with
    status := .running, progress := min percent 100, checkpoint
    leaseExpiresMs := some (U64.saturatingAdd now record.leaseTtlMs)
  }

def applyTaskComplete
    (tasks : Tasks) (now : Nat) (name worker : String) (fencingToken : Nat) (result : Value) :
    Tasks × Value :=
  tasks.applyOwned now name worker fencingToken [] fun record => { record with
    status := .completed, progress := 100, result := some result, leaseExpiresMs := none
  }

def applyTaskFail
    (tasks : Tasks) (now : Nat) (name worker : String) (fencingToken : Nat) (retryable : Bool) :
    Tasks × Value :=
  tasks.applyOwned now name worker fencingToken [("retryable", retryable)] fun record =>
    if retryable
    then { record with status := .pending, owner := none, leaseExpiresMs := none }
    else { record with status := .failed }

def applyTaskCancel (tasks : Tasks) (name : String) : Tasks × Value :=
  match tasks[name]? with
  | none => (tasks, notFound)
  | some record =>
    if record.status.isTerminal then
      (tasks, json [("ok", false), ("reason", "terminal"), ("task", record.view name)])
    else
      let record := { record with
        status := .cancelled, owner := none, leaseExpiresMs := none
        generation := record.generation + 1
      }
      (tasks.insert name record, json [("ok", true), ("task", record.view name)])

end Tasks
