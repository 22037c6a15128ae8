import FiduciaNode.Cron
import FiduciaNode.State.Cancellation
import FiduciaNode.State.Command
import FiduciaNode.State.Fencing

-- Why a request is refused before it is proposed.
structure Rejection where
  code   : String
  detail : String
  deriving DecidableEq

def isControl (c : Char) : Bool :=
  c.toNat < 0x20 || (0x7f ≤ c.toNat && c.toNat ≤ 0x9f)

namespace Validate

def maxLockKeys : Nat := 256

def maxKeyBytes : Nat := 1024

def maxHolderBytes : Nat := 512

def maxOrgBytes : Nat := 128

def maxRequestIdBytes : Nat := 128

def maxNameBytes : Nat := 1024

def maxWaitTimeoutMs : Nat := maxTtlMs

def maxSemaphoreLimit : Nat := 1000000

def maxWeight : Nat := 1000000000000

def checkStr (label value : String) (max : Nat) (allowEmpty : Bool) : Except Rejection Unit :=
  let given := value.utf8ByteSize
  if !allowEmpty && value = "" then
    .error { code := "empty_field", detail := s!"{label} must not be empty" }
  else if given > max then
    .error { code := "field_too_long", detail := s!"{label} exceeds {max} bytes ({given} given)" }
  else .ok ()

-- The text has no character that is visible, or it has a control character.
def isBlankOrControl (value : String) : Bool :=
  Cron.trim value.toList = [] || value.toList.any isControl

def checkHolder (value : String) : Except Rejection Unit := do
  checkStr "holder" value maxHolderBytes false
  if isBlankOrControl value then
    .error {
      code := "invalid_holder"
      detail := "holder must contain a non-whitespace character and no control characters"
    }
  else .ok ()

section Stored

def validHolderComponent (value : String) : Bool :=
  value ≠ "" && value.utf8ByteSize ≤ maxHolderBytes && !isBlankOrControl value

def validOrg (value : String) : Bool :=
  value ≠ "" && value.utf8ByteSize ≤ maxOrgBytes &&
  !value.toList.any fun c => isControl c || Cron.isWhitespace c

variable [External]

-- A holder as it is stored: with the organization that scopes it, or without one in snapshots that
-- predate the scopes.
def validStoredHolder (value : String) : Bool :=
  match value.toList with
  | [] => validHolderComponent value
  | c :: rest =>
    if c ≠ External.orgScopeDelim then validHolderComponent value else
      match Cron.splitOnce External.orgScopeDelim rest with
      | none => false
      | some (org, holder) =>
        validOrg (String.ofList org) && validHolderComponent (String.ofList holder)

end Stored

def acquisitionRequestId (requestId : Option String) : Except Rejection Unit :=
  match requestId with
  | none => .ok ()
  | some requestId => do
    checkStr "request_id" requestId maxRequestIdBytes false
    if isBlankOrControl requestId then
      .error {
        code := "invalid_request_id"
        detail := "request_id must contain a non-whitespace character and no control characters"
      }
    else .ok ()

def checkTtl (ttlMs : Nat) : Except Rejection Unit :=
  if ttlMs = 0 then
    .error { code := "invalid_ttl", detail := "ttl_ms must be greater than zero" }
  else if ttlMs > maxTtlMs then
    .error { code := "ttl_too_large", detail := s!"ttl_ms exceeds the {maxTtlMs} ms (24h) ceiling" }
  else .ok ()

def checkWaitTimeout (waitTimeoutMs : Nat) : Except Rejection Unit :=
  if waitTimeoutMs = 0 then
    .error {
      code := "invalid_wait_timeout", detail := "wait_timeout_ms must be greater than zero"
    }
  else if waitTimeoutMs > maxWaitTimeoutMs then
    .error {
      code := "wait_timeout_too_large"
      detail := s!"wait_timeout_ms exceeds the {maxWaitTimeoutMs} ms (24h) ceiling"
    }
  else .ok ()

def checkRequiredHolder (holder : Option String) : Except Rejection Unit :=
  match holder with
  | none =>
    .error { code := "missing_holder", detail := "holder is required and must not be empty" }
  | some holder => checkHolder holder

def validateFencingToken (fencingToken : Nat) : Except Rejection Unit :=
  if fencingToken = 0 || fencingToken > maxFencingToken then
    .error {
      code := "invalid_fencing_token"
      detail := s!"fencing_token must be between 1 and {maxFencingToken} inclusive"
    }
  else .ok ()

-- An optional field is checked if it is there.
def checkOption (check : α → Except Rejection Unit) : Option α → Except Rejection Unit
  | none => .ok ()
  | some a => check a

section Locks

def checkLockKeys (keys : List String) : Except Rejection Unit :=
  let given := keys.length
  if given > maxLockKeys then
    .error {
      code := "too_many_keys", detail := s!"union lock has {given} keys; max is {maxLockKeys}"
    }
  else keys.forM fun key => checkStr "lock key" key maxKeyBytes false

def noKeys : Rejection where
  code   := "no_keys"
  detail := "provide `keys` or `key`"

def lockAcquire (keys : List String) (holder : Option String) (ttlMs waitTimeoutMs : Option Nat) :
    Except Rejection Unit := do
  checkLockKeys keys
  checkRequiredHolder holder
  checkOption checkTtl ttlMs
  checkOption checkWaitTimeout waitTimeoutMs

def lockRelease (holder : String) : Except Rejection Unit :=
  checkHolder holder

def lockRenew (keys : List String) (holder : String) (fencingToken : Nat) (ttlMs : Option Nat) :
    Except Rejection Unit :=
  if keys = [] then .error noKeys else do
    checkLockKeys keys
    checkHolder holder
    validateFencingToken fencingToken
    checkOption checkTtl ttlMs

def lockCancel (keys : List String) (holder : String) : Except Rejection Unit :=
  if keys = [] then .error noKeys else do
    checkLockKeys keys
    checkHolder holder

end Locks

section Semaphores

def semaphoreAcquire
    (key : String) (holder : Option String) (limit : Nat) (ttlMs waitTimeoutMs : Option Nat) :
    Except Rejection Unit := do
  checkStr "semaphore key" key maxKeyBytes false
  checkRequiredHolder holder
  if limit = 0 then
    .error { code := "invalid_limit", detail := "semaphore limit must be greater than zero" }
  else if limit > maxSemaphoreLimit then
    .error {
      code := "limit_too_large"
      detail := s!"semaphore limit {limit} exceeds {maxSemaphoreLimit}"
    }
  else do
    checkOption checkTtl ttlMs
    checkOption checkWaitTimeout waitTimeoutMs

def semaphoreHolder (key holder : String) : Except Rejection Unit := do
  checkStr "semaphore key" key maxKeyBytes false
  checkHolder holder

def semaphoreRenew (key holder : String) (fencingToken : Nat) (ttlMs : Option Nat) :
    Except Rejection Unit := do
  semaphoreHolder key holder
  validateFencingToken fencingToken
  checkOption checkTtl ttlMs

end Semaphores

section Names

def checkWeight (weight : Nat) : Except Rejection Unit :=
  if weight > maxWeight then
    .error { code := "weight_too_large", detail := s!"weight {weight} exceeds {maxWeight}" }
  else .ok ()

-- The name of a record and, if the operation names one, who acts on it.
def checkNamed (label : String) (name : String) (role : String) (actor : Option String) :
    Except Rejection Unit := do
  checkStr label name maxNameBytes false
  checkOption (fun actor => checkStr role actor maxHolderBytes false) actor

def barrier (name : String) : Except Rejection Unit :=
  checkStr "barrier name" name maxNameBytes false

def barrierArrive (name participant : String) (weight : Nat) : Except Rejection Unit := do
  checkNamed "barrier name" name "participant" (some participant)
  checkWeight weight

def task (name : String) (worker : Option String) : Except Rejection Unit :=
  checkNamed "task name" name "worker" worker

def handoff (name : String) (fromOwner toOwner : Option String) : Except Rejection Unit := do
  checkNamed "handoff name" name "from" fromOwner
  checkOption (fun toOwner => checkStr "to" toOwner maxHolderBytes false) toOwner

def budget (name : String) (reservationId holder : Option String) : Except Rejection Unit := do
  checkStr "budget name" name maxNameBytes false
  checkOption (fun id => checkStr "reservation_id" id maxNameBytes false) reservationId
  checkOption (fun holder => checkStr "holder" holder maxHolderBytes false) holder

def maxBudgetAmount : Nat := 1000000000000000

-- The first axis on which the amount is too large.
def budgetAmount (amount : BudgetAmount) : Except Rejection Unit :=
  [("usd_micros", amount.usdMicros), ("tokens", amount.tokens), ("tool_calls", amount.toolCalls)].forM
    fun (label, value) =>
      if value.any (· > maxBudgetAmount) then
        .error { code := "amount_too_large", detail := s!"{label} exceeds {maxBudgetAmount}" }
      else .ok ()

def claim (name : String) (actor : Option String) : Except Rejection Unit :=
  checkNamed "claim name" name "actor" actor

def decision (name : String) (voter : Option String) : Except Rejection Unit :=
  checkNamed "decision name" name "voter" voter

def decisionVote (name voter : String) (weight : Nat) : Except Rejection Unit := do
  decision name (some voter)
  checkWeight weight

def effect (name : String) (principal : Option String) : Except Rejection Unit :=
  checkNamed "effect name" name "principal" principal

end Names

section RateLimits

def maxRateLimitSegmentBytes : Nat := 256

def maxRateLimitLimit : Nat := 1000000

def maxRateLimitCost : Nat := 1000000

def checkPathSegment (label value : String) : Except Rejection Unit := do
  checkStr label value maxRateLimitSegmentBytes false
  if value.toList.any fun c => isControl c || Cron.isWhitespace c then
    .error {
      code := "invalid_field", detail := s!"{label} must not contain control or whitespace characters"
    }
  else .ok ()

def rateLimit (tenant key : String) : Except Rejection Unit := do
  checkPathSegment "tenant" tenant
  checkPathSegment "key" key

def rateLimitParams (limit windowMs cost : Nat) (refillPerSecond : Option Float) : Except Rejection Unit :=
  if limit = 0 then
    .error { code := "invalid_limit", detail := "rate limit must be greater than zero" }
  else if limit > maxRateLimitLimit then
    .error { code := "limit_too_large", detail := s!"rate limit {limit} exceeds {maxRateLimitLimit}" }
  else if windowMs = 0 then
    .error { code := "invalid_window", detail := "window_ms must be greater than zero" }
  else if cost = 0 then
    .error { code := "invalid_cost", detail := "cost must be greater than zero" }
  else if cost > maxRateLimitCost then
    .error { code := "cost_too_large", detail := s!"cost {cost} exceeds {maxRateLimitCost}" }
  else if refillPerSecond.any fun refill => !refill.isFinite || refill ≤ 0 then
    .error {
      code := "invalid_refill", detail := "refill_per_second must be a finite number greater than zero"
    }
  else .ok ()

end RateLimits

end Validate
