import FiduciaNode.Primitives.Value

inductive BarrierPolicy
  | all
  | quorum (required : Nat)
  | firstSuccess
  | anyVeto
  | bestByDeadline
  | weightedQuorum (requiredWeight : Nat)

inductive DecisionPolicy
  | plurality (minVotes : Nat)
  | threshold (requiredWeight : Nat)
  | unanimous (minVotes : Nat)

-- `none` is an unlimited axis.
structure BudgetAmount where
  usdMicros : Option Nat
  tokens    : Option Nat
  toolCalls : Option Nat

inductive RateLimitAlgorithm
  | tokenBucket
  | slidingWindow
  deriving DecidableEq

inductive DeliverySemantics
  | atLeastOnce
  | exactlyOnce
  deriving DecidableEq

inductive ScheduleTarget
  | webhook (url : String)
  | queue (name : String)
  | grpc (endpoint : String)
  | function (functionId : String)

-- Every mutation of the replicated state, as it travels through the log.
inductive Command
  | activateCommandProtocol (version : Nat)
  | kvPut (key value : String) (ttlMs prevRevision : Option Nat)
  | kvDelete (key : String)
  | counterAdd (key : String) (delta : Int) (prevRevision : Option Nat)
  | counterSet (key : String) (value : Int) (prevRevision : Option Nat)
  | barrierCreate (name : String) (policy : BarrierPolicy) (expected : Nat)
      (deadlineMs : Option Nat)
  | barrierArrive (name participant : String) (weight : Nat) (veto : Bool)
  | taskCreate (name taskType : String) (payload : Value) (deadlineMs : Option Nat)
  | taskClaim (name worker : String) (ttlMs : Nat)
  | taskProgress (name worker : String) (fencingToken percent : Nat) (checkpoint : Value)
  | taskComplete (name worker : String) (fencingToken : Nat) (result : Value)
  | taskFail (name worker : String) (fencingToken : Nat) (retryable : Bool)
  | taskCancel (name : String)
  | effectPrepare (name effectType : String) (payload : Value) (risk idempotencyKey : String)
      (requiredApprovals : Nat)
  | effectApprove (name principal : String)
  | effectCommit (name : String) (result : Value)
  | effectAbort (name : String)
  | handoffOffer (name resource fromOwner toOwner : String) (fromToken : Nat) (context : Value)
      (ttlMs : Nat)
  | handoffAccept (name toOwner : String)
  | handoffReject (name toOwner : String)
  | decisionPropose (name question : String) (options : List String) (policy : DecisionPolicy)
      (deadlineMs : Option Nat)
  | decisionVote (name voter : String) (option : Option String) (confidence : Float32)
      (weight : Nat) (veto : Bool) (evidence : List String)
  | budgetSet (name : String) (limit : BudgetAmount)
  | budgetReserve (name reservationId holder : String) (amount : BudgetAmount)
  | budgetCommit (name reservationId : String) (actual : BudgetAmount)
  | budgetRelease (name reservationId : String)
  | claimAssert (name subject predicate : String) (value : Value) (confidence : Float32)
      (author : String) (evidence : List String) (validUntilMs : Option Nat)
  | claimSupport (name agent : String)
  | claimContest (name agent reason : String)
  | claimResolve (name : String) (accepted : Bool)
  | claimSupersede (name supersededBy : String)
  | lockAcquire (keys : List String) (holder : String) (ttlMs : Nat) (wait : Bool)
      (waitTimeoutMs : Option Nat)
  | lockAcquireV2 (keys : List String) (holder : String) (ttlMs : Nat) (wait : Bool)
      (waitTimeoutMs : Option Nat)
  | lockAcquireAttempt (keys : List String) (holder requestId : String) (ttlMs : Nat)
      (wait : Bool) (waitTimeoutMs : Option Nat)
  | lockRenew (keys : List String) (holder : String) (fencingToken ttlMs : Nat)
  | lockRelease (holder : String) (fencingToken : Nat)
  | lockCancel (keys : List String) (holder : String)
  | lockCancelAttempt (keys : List String) (holder requestId : String)
  | semaphoreAcquire (key holder : String) (limit ttlMs : Nat) (wait : Bool)
      (waitTimeoutMs : Option Nat)
  | semaphoreAcquireV2 (key holder : String) (limit ttlMs : Nat) (wait : Bool)
      (waitTimeoutMs : Option Nat)
  | semaphoreAcquireAttempt (key holder requestId : String) (limit ttlMs : Nat) (wait : Bool)
      (waitTimeoutMs : Option Nat)
  | semaphoreRenew (key holder : String) (fencingToken ttlMs : Nat)
  | semaphoreRelease (key holder : String) (fencingToken : Nat)
  | semaphoreCancel (key holder : String)
  | semaphoreCancelAttempt (key holder requestId : String)
  | rateLimitCheck (key tenant : String) (algorithm : RateLimitAlgorithm) (limit windowMs : Nat)
      (refillPerSecond : Option Float) (cost : Nat)
  | idempotencyClaim (key owner : String) (ttlMs : Nat) (retentionMs : Option Nat)
      (metadata : HashMap String String)
  | idempotencyComplete (key owner : String) (fencingToken : Nat) (result : Option Value)
  | idempotencyRenew (key owner : String) (fencingToken ttlMs : Nat)
  | idempotencyAbandon (key owner : String) (fencingToken : Nat)
  | scheduleUpsert (name : String) (cron : Option String) (oneShotAtMs : Option Nat)
      (target : ScheduleTarget) (delivery : DeliverySemantics) (maxRetries nowMs : Nat)
  | scheduleRecordRun (name fireId : String) (firedAtMs : Nat)
  | scheduleClaimFire (name : String) (fireIdMs : Nat)
  | scheduleRecordResult (name : String) (fireIdMs : Nat) (delivered : Bool) (attempts : Nat)
      (error : Option String)
  | scheduleSetEnabled (name : String) (enabled : Bool) (nowMs : Nat) (catchUp : Bool)
  | scheduleDelete (name : String)
  | scheduleTrigger (name : String) (fireIdMs requestedAtMs : Nat)
  | scheduleRecordResultV2 (name : String) (fireIdMs : Nat) (delivered : Bool) (attempts : Nat)
      (error errorClass : Option String) (httpStatus : Option Nat) (durationMs completedAtMs : Nat)
      (traceId spanId : Option String)
  | electionCampaign (name candidate : String) (ttlMs : Nat) (metadata : HashMap String String)
  | electionRenew (name candidate : String) (fencingToken : Nat) (ttlMs : Option Nat)
  | electionResign (name candidate : String) (fencingToken : Nat)
  | serviceRegister (service instanceId address : String) (ttlMs : Nat)
      (metadata : HashMap String String)
  | serviceHeartbeat (service instanceId : String) (ttlMs : Option Nat)
  | serviceDeregister (service instanceId : String)

namespace Command

def legacyCommandProtocol : Nat := 1

def lockCommandProtocol : Nat := 2

def currentCommandProtocol : Nat := 3

def isProtocolActivation : Command → Bool
  | activateCommandProtocol _ => true
  | _ => false

-- The least command protocol under which the command can be parsed and applied.
def requiredProtocol : Command → Nat
  | activateCommandProtocol version => version
  | lockAcquireV2 .. | lockAcquireAttempt .. | lockRenew .. | lockCancel .. | lockCancelAttempt ..
  | semaphoreAcquireV2 .. | semaphoreAcquireAttempt .. | semaphoreRenew .. | semaphoreCancel ..
  | semaphoreCancelAttempt .. => lockCommandProtocol
  | scheduleUpsert _ _ _ (.function _) _ _ _ | scheduleSetEnabled .. | scheduleDelete ..
  | scheduleTrigger .. | scheduleRecordResultV2 .. => currentCommandProtocol
  | _ => legacyCommandProtocol

-- The form of the command that the active protocol permits, or the protocol it requires.
def forActiveProtocol (c : Command) (active : Nat) : Except Nat Command :=
  if c.requiredProtocol ≤ active then
    .ok c
  else
    match c with
    | lockAcquireV2 keys holder ttlMs wait waitTimeoutMs =>
      if active < lockCommandProtocol
      then .ok (lockAcquire keys holder ttlMs wait waitTimeoutMs)
      else .error c.requiredProtocol
    | semaphoreAcquireV2 key holder limit ttlMs wait waitTimeoutMs =>
      if active < lockCommandProtocol
      then .ok (semaphoreAcquire key holder limit ttlMs wait waitTimeoutMs)
      else .error c.requiredProtocol
    | scheduleRecordResultV2 name fireIdMs delivered attempts error _ _ _ _ _ _ =>
      if active < currentCommandProtocol
      then .ok (scheduleRecordResult name fireIdMs delivered attempts error)
      else .error c.requiredProtocol
    | _ => .error c.requiredProtocol

end Command
