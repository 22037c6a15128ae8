import FiduciaNode.State.History

namespace Store

-- The parts of a store, apart from the fencing counter.
inductive Part
  | protocol
  | revision
  | kv
  | counters
  | barriers
  | tasks
  | effects
  | handoffs
  | decisions
  | budgets
  | claims
  | locks
  | semaphores
  | rateLimits
  | idempotency
  | elections
  | schedules
  | services
  deriving DecidableEq

namespace Part

@[reducible]
def type : Part → Type
  | protocol | revision => Nat
  | kv => Kv
  | counters => Counters
  | barriers => Barriers
  | tasks => Tasks
  | effects => Effects
  | handoffs => Handoffs
  | decisions => Decisions
  | budgets => Budgets
  | claims => Claims
  | locks => LockManager × CancellationLedger
  | semaphores => Semaphores × CancellationLedger
  | rateLimits => RateLimits
  | idempotency => Idempotency
  | elections => Elections
  | schedules => Schedules
  | services => Services

def get (s : Store) : (part : Part) → part.type
  | protocol => s.commandProtocol
  | revision => s.revision
  | kv => s.kv
  | counters => s.counters
  | barriers => s.barriers
  | tasks => s.tasks
  | effects => s.effects
  | handoffs => s.handoffs
  | decisions => s.decisions
  | budgets => s.budgets
  | claims => s.claims
  | locks => (s.locks, s.lockCancellations)
  | semaphores => (s.semaphores, s.semaphoreCancellations)
  | rateLimits => s.rateLimits
  | idempotency => s.idempotency
  | elections => s.elections
  | schedules => s.schedules
  | services => s.services

def set (s : Store) : (part : Part) → part.type → Store
  | protocol, v => { s with commandProtocol := v }
  | revision, v => { s with revision := v }
  | kv, v => { s with kv := v }
  | counters, v => { s with counters := v }
  | barriers, v => { s with barriers := v }
  | tasks, v => { s with tasks := v }
  | effects, v => { s with effects := v }
  | handoffs, v => { s with handoffs := v }
  | decisions, v => { s with decisions := v }
  | budgets, v => { s with budgets := v }
  | claims, v => { s with claims := v }
  | locks, v => { s with locks := v.1, lockCancellations := v.2 }
  | semaphores, v => { s with semaphores := v.1, semaphoreCancellations := v.2 }
  | rateLimits, v => { s with rateLimits := v }
  | idempotency, v => { s with idempotency := v }
  | elections, v => { s with elections := v }
  | schedules, v => { s with schedules := v }
  | services, v => { s with services := v }

theorem get_set {s : Store} {part part' : Part} {v : part.type} (ne : part' ≠ part) :
    part'.get (part.set s v) = part'.get s := by
  cases part <;> cases part' <;> first | rfl | exact absurd rfl ne

-- The parts that change before a command is applied.
def isPrepared : Part → Bool
  | protocol | revision | kv | locks | semaphores | idempotency | elections | services => true
  | _ => false

end Part

end Store

namespace Command

open Store

-- The part that the command is about.
def part : Command → Part
  | activateCommandProtocol .. => .protocol
  | kvPut .. | kvDelete .. => .kv
  | counterAdd .. | counterSet .. => .counters
  | barrierCreate .. | barrierArrive .. => .barriers
  | taskCreate .. | taskClaim .. | taskProgress .. | taskComplete .. | taskFail .. | taskCancel .. =>
    .tasks
  | effectPrepare .. | effectApprove .. | effectCommit .. | effectAbort .. => .effects
  | handoffOffer .. | handoffAccept .. | handoffReject .. => .handoffs
  | decisionPropose .. | decisionVote .. => .decisions
  | budgetSet .. | budgetReserve .. | budgetCommit .. | budgetRelease .. => .budgets
  | claimAssert .. | claimSupport .. | claimContest .. | claimResolve .. | claimSupersede .. => .claims
  | lockAcquire .. | lockAcquireV2 .. | lockAcquireAttempt .. | lockRenew .. | lockRelease ..
  | lockCancel .. | lockCancelAttempt .. => .locks
  | semaphoreAcquire .. | semaphoreAcquireV2 .. | semaphoreAcquireAttempt .. | semaphoreRenew ..
  | semaphoreRelease .. | semaphoreCancel .. | semaphoreCancelAttempt .. => .semaphores
  | rateLimitCheck .. => .rateLimits
  | idempotencyClaim .. | idempotencyComplete .. | idempotencyRenew .. | idempotencyAbandon .. =>
    .idempotency
  | scheduleUpsert .. | scheduleRecordRun .. | scheduleClaimFire .. | scheduleRecordResult ..
  | scheduleSetEnabled .. | scheduleDelete .. | scheduleTrigger .. | scheduleRecordResultV2 .. =>
    .schedules
  | electionCampaign .. | electionRenew .. | electionResign .. => .elections
  | serviceRegister .. | serviceHeartbeat .. | serviceDeregister .. => .services

end Command

namespace Store

-- Only the part and the fencing counter differ.
def Touches (part : Part) (s s' : Store) : Prop :=
  s' = part.set { s with fencing := s'.fencing } (part.get s')

theorem Touches.frame {part : Part} {s s' : Store} (h : Touches part s s') (part' : Part)
    (ne : part' ≠ part) :
    part'.get s' = part'.get s := by
  rw [h, Part.get_set ne]
  cases part' <;> rfl

section Fenced

variable {s : Store} {now : Nat}

theorem applyActivateCommandProtocol_touches (version : Nat) :
    Touches .protocol s (s.applyActivateCommandProtocol version).1 := by
  simp only [applyActivateCommandProtocol]
  split
  case isTrue => rfl
  case isFalse => split <;> rfl

theorem onHandoffs_touches (r : Handoffs × Value) : Touches .handoffs s (s.onHandoffs r).1 :=
  rfl

theorem applyTaskClaim_touches (name worker : String) (ttlMs : Nat) :
    Touches .tasks s (s.applyTaskClaim now name worker ttlMs).1 := by
  simp only [applyTaskClaim]
  split <;> rfl

end Fenced

variable [External] {s : Store} {o : IterOrder} {c : Command} {revision now : Nat}

-- A command changes the part that it is about, and may mint tokens.
theorem applyCommand_touches : Touches c.part s (s.applyCommand o revision now c).1 := by
  cases c
  case activateCommandProtocol version => exact applyActivateCommandProtocol_touches version
  case taskClaim name worker ttlMs => exact applyTaskClaim_touches name worker ttlMs
  case handoffOffer => exact onHandoffs_touches _
  all_goals rfl

omit [External] in
theorem prepare_frame (part : Part) (h : part.isPrepared = false) :
    part.get (s.prepare o c now) = part.get s := by
  simp only [prepare]
  split
  case isTrue => rfl
  case isFalse => cases part <;> first | rfl | contradiction

theorem applyAt_frame (part : Part) (h : part.isPrepared = false) (ne : part ≠ c.part) :
    part.get (s.applyAt o c now).1 = part.get s :=
  (applyCommand_touches.frame part ne).trans (prepare_frame part h)

end Store
