import FiduciaNode.State.Store

namespace Store

variable [External]

-- The effect of a command on the store that the sweep left.
def applyCommand (o : IterOrder) (s : Store) (revision now : Nat) : Command → Store × Value
  | .activateCommandProtocol version => s.applyActivateCommandProtocol version
  | .kvPut key value ttlMs prevRevision =>
    s.onKv (s.kv.applyKvPut revision now key value ttlMs prevRevision)
  | .kvDelete key => s.onKv (s.kv.applyKvDelete revision key)
  | .counterAdd key delta prevRevision =>
    s.onCounters (s.counters.applyCounterAdd revision key delta prevRevision)
  | .counterSet key value prevRevision =>
    s.onCounters (s.counters.applyCounterSet revision key value prevRevision)
  | .barrierCreate name policy expected deadlineMs =>
    s.onBarriers (s.barriers.applyBarrierCreate o now name policy expected deadlineMs)
  | .barrierArrive name participant weight veto =>
    s.onBarriers (s.barriers.applyBarrierArrive o now name participant weight veto)
  | .taskCreate name taskType payload deadlineMs =>
    s.onTasks (s.tasks.applyTaskCreate name taskType payload deadlineMs)
  | .taskClaim name worker ttlMs => s.applyTaskClaim now name worker ttlMs
  | .taskProgress name worker fencingToken percent checkpoint =>
    s.onTasks (s.tasks.applyTaskProgress now name worker fencingToken percent checkpoint)
  | .taskComplete name worker fencingToken result =>
    s.onTasks (s.tasks.applyTaskComplete now name worker fencingToken result)
  | .taskFail name worker fencingToken retryable =>
    s.onTasks (s.tasks.applyTaskFail now name worker fencingToken retryable)
  | .taskCancel name => s.onTasks (s.tasks.applyTaskCancel name)
  | .effectPrepare name effectType payload risk idempotencyKey requiredApprovals =>
    s.onEffects
      (s.effects.applyEffectPrepare name effectType payload risk idempotencyKey requiredApprovals)
  | .effectApprove name principal => s.onEffects (s.effects.applyEffectApprove name principal)
  | .effectCommit name result => s.onEffects (s.effects.applyEffectCommit name result)
  | .effectAbort name => s.onEffects (s.effects.applyEffectAbort name)
  | .handoffOffer name resource fromOwner toOwner fromToken context ttlMs =>
    s.onHandoffs (s.handoffs.applyHandoffOffer s.fencing now name resource fromOwner toOwner
      fromToken context ttlMs)
  | .handoffAccept name toOwner => s.applyHandoffAccept now name toOwner
  | .handoffReject name toOwner => s.onHandoffs (s.handoffs.applyHandoffReject now name toOwner)
  | .decisionPropose name question options policy deadlineMs =>
    s.onDecisions
      (s.decisions.applyDecisionPropose now name question options policy deadlineMs)
  | .decisionVote name voter option confidence weight veto evidence =>
    s.onDecisions
      (s.decisions.applyDecisionVote now name voter option confidence weight veto evidence)
  | .budgetSet name limit => s.onBudgets (s.budgets.applyBudgetSet name limit)
  | .budgetReserve name reservationId holder amount =>
    s.onBudgets (s.budgets.applyBudgetReserve name reservationId holder amount)
  | .budgetCommit name reservationId actual =>
    s.onBudgets (s.budgets.applyBudgetCommit name reservationId actual)
  | .budgetRelease name reservationId =>
    s.onBudgets (s.budgets.applyBudgetRelease name reservationId)
  | .claimAssert name subject predicate value confidence author evidence validUntilMs =>
    s.onClaims (s.claims.applyClaimAssert name subject predicate value confidence author evidence
      validUntilMs)
  | .claimSupport name agent => s.onClaims (s.claims.applyClaimSupport name agent)
  | .claimContest name agent reason => s.onClaims (s.claims.applyClaimContest name agent reason)
  | .claimResolve name accepted => s.onClaims (s.claims.applyClaimResolve name accepted)
  | .claimSupersede name supersededBy =>
    s.onClaims (s.claims.applyClaimSupersede name supersededBy)
  | .lockAcquire keys holder ttlMs wait waitTimeoutMs =>
    s.applyLockAcquire revision now {
      keys, holder, ttlMs, wait, waitTimeoutMs, requestId := none, legacySemantics := true
    }
  | .lockAcquireV2 keys holder ttlMs wait waitTimeoutMs =>
    s.applyLockAcquire revision now {
      keys, holder, ttlMs, wait, waitTimeoutMs, requestId := none, legacySemantics := false
    }
  | .lockAcquireAttempt keys holder requestId ttlMs wait waitTimeoutMs =>
    s.applyLockAcquire revision now {
      keys, holder, ttlMs, wait, waitTimeoutMs, requestId := some requestId
      legacySemantics := false
    }
  | .lockRenew keys holder fencingToken ttlMs =>
    s.applyLockRenew revision now keys holder fencingToken ttlMs
  | .lockRelease holder fencingToken => s.applyLockRelease revision now holder fencingToken
  | .lockCancel keys holder => s.applyLockCancel o revision now keys holder none
  | .lockCancelAttempt keys holder requestId =>
    s.applyLockCancel o revision now keys holder (some requestId)
  | .semaphoreAcquire key holder limit ttlMs wait waitTimeoutMs =>
    s.applySemaphoreAcquire revision now {
      key, holder, limit, ttlMs, wait, waitTimeoutMs, requestId := none, legacySemantics := true
    }
  | .semaphoreAcquireV2 key holder limit ttlMs wait waitTimeoutMs =>
    s.applySemaphoreAcquire revision now {
      key, holder, limit, ttlMs, wait, waitTimeoutMs, requestId := none, legacySemantics := false
    }
  | .semaphoreAcquireAttempt key holder requestId limit ttlMs wait waitTimeoutMs =>
    s.applySemaphoreAcquire revision now {
      key, holder, limit, ttlMs, wait, waitTimeoutMs, requestId := some requestId
      legacySemantics := false
    }
  | .semaphoreRenew key holder fencingToken ttlMs =>
    s.applySemaphoreRenew revision now key holder fencingToken ttlMs
  | .semaphoreRelease key holder fencingToken =>
    s.applySemaphoreRelease revision now key holder fencingToken
  | .semaphoreCancel key holder => s.applySemaphoreCancel revision now key holder none
  | .semaphoreCancelAttempt key holder requestId =>
    s.applySemaphoreCancel revision now key holder (some requestId)
  | .rateLimitCheck key tenant algorithm limit windowMs refillPerSecond cost =>
    s.onRateLimits (s.rateLimits.applyRateLimitCheck now key tenant algorithm limit windowMs
      refillPerSecond (max cost 1))
  | .idempotencyClaim key owner ttlMs retentionMs metadata =>
    s.applyIdempotencyClaim revision now key owner ttlMs retentionMs metadata
  | .idempotencyComplete key owner fencingToken result =>
    s.onIdempotency
      (s.idempotency.applyIdempotencyComplete revision now key owner fencingToken result)
  | .idempotencyRenew key owner fencingToken ttlMs =>
    s.onIdempotency (s.idempotency.applyIdempotencyRenew revision now key owner fencingToken ttlMs)
  | .idempotencyAbandon key owner fencingToken =>
    s.onIdempotency (s.idempotency.applyIdempotencyAbandon revision key owner fencingToken)
  | .scheduleUpsert name cron oneShotAtMs target delivery maxRetries nowMs =>
    s.onSchedules (s.schedules.applyScheduleUpsert name cron oneShotAtMs target delivery maxRetries
      nowMs)
  | .scheduleRecordRun name fireId firedAtMs =>
    s.onSchedules (s.schedules.applyScheduleRecordRun name fireId firedAtMs)
  | .scheduleClaimFire name fireIdMs =>
    s.onSchedules (s.schedules.applyScheduleClaimFire name fireIdMs)
  | .scheduleRecordResult name fireIdMs delivered attempts error =>
    s.onSchedules (s.schedules.applyScheduleRecordResult name fireIdMs {
      delivered, attempts, error, errorClass := none, httpStatus := none, durationMs := none
      completedAtMs := none, traceId := none, spanId := none
    })
  | .scheduleSetEnabled name enabled nowMs catchUp =>
    s.onSchedules (s.schedules.applyScheduleSetEnabled name enabled nowMs catchUp)
  | .scheduleDelete name => s.onSchedules (s.schedules.applyScheduleDelete name)
  | .scheduleTrigger name fireIdMs requestedAtMs =>
    s.onSchedules (s.schedules.applyScheduleTrigger name fireIdMs requestedAtMs)
  | .scheduleRecordResultV2 name fireIdMs delivered attempts error errorClass httpStatus durationMs
      completedAtMs traceId spanId =>
    s.onSchedules (s.schedules.applyScheduleRecordResult name fireIdMs {
      delivered, attempts, error, errorClass, httpStatus, durationMs := some durationMs
      completedAtMs := some completedAtMs, traceId, spanId
    })
  | .electionCampaign name candidate ttlMs metadata =>
    s.applyElectionCampaign revision now name candidate ttlMs metadata
  | .electionRenew name candidate fencingToken ttlMs =>
    s.onElections (s.elections.applyElectionRenew now name candidate fencingToken ttlMs)
  | .electionResign name candidate fencingToken =>
    s.onElections (s.elections.applyElectionResign name candidate fencingToken)
  | .serviceRegister service instanceId address ttlMs metadata =>
    s.onServices (s.services.applyServiceRegister now service instanceId address ttlMs metadata)
  | .serviceHeartbeat service instanceId ttlMs =>
    s.onServices (s.services.applyServiceHeartbeat now service instanceId ttlMs)
  | .serviceDeregister service instanceId =>
    s.onServices (s.services.applyServiceDeregister service instanceId)

-- The activation of a protocol neither sweeps the store nor counts as a revision.
def prepare (o : IterOrder) (s : Store) (c : Command) (now : Nat) : Store :=
  if c.isProtocolActivation then s else
    let s := { s with commandProtocol := max s.commandProtocol c.requiredProtocol }.expireDue o now
    { s with revision := s.revision + 1 }

def applyAt (o : IterOrder) (s : Store) (c : Command) (proposedAtMs : Nat) : Store × ApplyResult :=
  let s := s.prepare o c proposedAtMs
  let revision := s.revision
  let (s, output) := s.applyCommand o revision proposedAtMs c
  (s, { revision, output })

-- The stores that commands build from the empty store, each of them applied with some timestamp
-- and some order of iteration.
inductive Reachable : Store → Prop
  | empty : Reachable .empty
  | apply (o : IterOrder) (c : Command) (now : Nat) : Reachable s → Reachable (s.applyAt o c now).1

-- The stores that commands build from `s` if each of them, its timestamp and the store it is applied
-- to satisfy `p`.
inductive Runs (p : Store → IterOrder → Command → Nat → Prop) (s : Store) : Store → Prop
  | refl : Runs p s s
  | apply (h : p s₁ o c now) : Runs p s s₁ → Runs p s (s₁.applyAt o c now).1

end Store
