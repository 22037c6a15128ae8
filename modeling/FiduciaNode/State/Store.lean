import FiduciaNode.State.Kv
import FiduciaNode.State.Barriers
import FiduciaNode.State.Effects
import FiduciaNode.State.Handoffs
import FiduciaNode.State.Decisions
import FiduciaNode.State.Budgets
import FiduciaNode.State.Claims
import FiduciaNode.State.Semaphores
import FiduciaNode.State.RateLimits
import FiduciaNode.State.Idempotency
import FiduciaNode.State.Elections
import FiduciaNode.State.Schedules

@[ext]
structure Store where
  commandProtocol        : Nat
  revision               : Nat
  fencing                : FencingCounter
  kv                     : Kv
  counters               : Counters
  barriers               : Barriers
  tasks                  : Tasks
  effects                : Effects
  handoffs               : Handoffs
  decisions              : Decisions
  budgets                : Budgets
  claims                 : Claims
  locks                  : LockManager
  semaphores             : Semaphores
  lockCancellations      : CancellationLedger
  semaphoreCancellations : CancellationLedger
  rateLimits             : RateLimits
  idempotency            : Idempotency
  elections              : Elections
  schedules              : Schedules
  services               : Services

structure ApplyResult where
  revision : Nat
  output   : Value

namespace Store

def empty : Store where
  commandProtocol        := Command.legacyCommandProtocol
  revision               := 0
  fencing                := .zero
  kv                     := ∅
  counters               := ∅
  barriers               := ∅
  tasks                  := ∅
  effects                := ∅
  handoffs               := ∅
  decisions              := ∅
  budgets                := ∅
  claims                 := ∅
  locks                  := .empty
  semaphores             := ∅
  lockCancellations      := .empty
  semaphoreCancellations := .empty
  rateLimits             := ∅
  idempotency            := ∅
  elections              := ∅
  schedules              := ∅
  services               := ∅

-- The sweep at the start of every command.
def expireDue (o : IterOrder) (s : Store) (now : Nat) : Store :=
  let (locks, fencing) := s.locks.expireDue o s.fencing now
  let (semaphores, fencing) := s.semaphores.expireDue o fencing now
  { s with
    kv := s.kv.expireDue now
    lockCancellations := s.lockCancellations.expire now
    semaphoreCancellations := s.semaphoreCancellations.expire now
    locks, semaphores, fencing
    elections := s.elections.expireDue now
    idempotency := s.idempotency.expireDue now
    services := s.services.expireDue now
  }

-- A command that mints no token works on one table.
section Tables

variable (s : Store)

def onKv (r : Kv × Value) : Store × Value := ({ s with kv := r.1 }, r.2)

def onCounters (r : Counters × Value) : Store × Value := ({ s with counters := r.1 }, r.2)

def onBarriers (r : Barriers × Value) : Store × Value := ({ s with barriers := r.1 }, r.2)

def onTasks (r : Tasks × Value) : Store × Value := ({ s with tasks := r.1 }, r.2)

def onEffects (r : Effects × Value) : Store × Value := ({ s with effects := r.1 }, r.2)

def onHandoffs (r : Handoffs × Value) : Store × Value := ({ s with handoffs := r.1 }, r.2)

def onDecisions (r : Decisions × Value) : Store × Value := ({ s with decisions := r.1 }, r.2)

def onBudgets (r : Budgets × Value) : Store × Value := ({ s with budgets := r.1 }, r.2)

def onClaims (r : Claims × Value) : Store × Value := ({ s with claims := r.1 }, r.2)

def onRateLimits (r : RateLimits × Value) : Store × Value := ({ s with rateLimits := r.1 }, r.2)

def onIdempotency (r : Idempotency × Value) : Store × Value := ({ s with idempotency := r.1 }, r.2)

def onElections (r : Elections × Value) : Store × Value := ({ s with elections := r.1 }, r.2)

def onSchedules (r : Schedules × Value) : Store × Value := ({ s with schedules := r.1 }, r.2)

def onServices (r : Services × Value) : Store × Value := ({ s with services := r.1 }, r.2)

end Tables

section Fenced

variable (s : Store)

def applyTaskClaim (now : Nat) (name worker : String) (ttlMs : Nat) : Store × Value :=
  match s.fencing.nextToken with
  | none => s.onTasks (s.tasks.applyTaskClaim none now name worker ttlMs)
  | some (token, fencing) =>
    { s with fencing }.onTasks (s.tasks.applyTaskClaim (some token) now name worker ttlMs)

def applyHandoffAccept (now : Nat) (name toOwner : String) : Store × Value :=
  let (handoffs, fencing, output) := s.handoffs.applyHandoffAccept s.fencing now name toOwner
  ({ s with handoffs, fencing }, output)

def applyIdempotencyClaim
    (revision now : Nat) (key owner : String) (ttlMs : Nat) (retentionMs : Option Nat)
    (metadata : HashMap String String) : Store × Value :=
  let (idempotency, fencing, output) :=
    s.idempotency.applyIdempotencyClaim s.fencing revision now key owner ttlMs retentionMs metadata
  ({ s with idempotency, fencing }, output)

def applyElectionCampaign
    (revision now : Nat) (name candidate : String) (ttlMs : Nat)
    (metadata : HashMap String String) : Store × Value :=
  let (elections, fencing, output) :=
    s.elections.applyElectionCampaign s.fencing revision now name candidate ttlMs metadata
  ({ s with elections, fencing }, output)

def applyLockRenew
    (revision now : Nat) (keys : List String) (holder : String) (fencingToken ttlMs : Nat) :
    Store × Value :=
  let (locks, output) := s.locks.applyLockRenew revision now keys holder fencingToken ttlMs
  ({ s with locks }, output)

def applyLockRelease (revision now : Nat) (holder : String) (fencingToken : Nat) : Store × Value :=
  let (locks, fencing, output) :=
    s.locks.applyLockRelease s.fencing revision now holder fencingToken
  ({ s with locks, fencing }, output)

def applySemaphoreRenew (revision now : Nat) (key holder : String) (fencingToken ttlMs : Nat) :
    Store × Value :=
  let (semaphores, output) :=
    s.semaphores.applySemaphoreRenew revision now key holder fencingToken ttlMs
  ({ s with semaphores }, output)

def applySemaphoreRelease (revision now : Nat) (key holder : String) (fencingToken : Nat) :
    Store × Value :=
  let (semaphores, fencing, output) :=
    s.semaphores.applySemaphoreRelease s.fencing revision now key holder fencingToken
  ({ s with semaphores, fencing }, output)

variable [External]

def applyLockAcquire (revision now : Nat) (input : LockAcquireInput) : Store × Value :=
  let (locks, fencing, output) :=
    s.locks.applyLockAcquire s.lockCancellations s.fencing revision now input
  ({ s with locks, fencing }, output)

def applyLockCancel
    (o : IterOrder) (revision now : Nat) (keys : List String) (holder : String)
    (requestId : Option String) : Store × Value :=
  let (locks, lockCancellations, fencing, output) :=
    s.locks.applyLockCancel o s.lockCancellations s.fencing revision now keys holder requestId
  ({ s with locks, lockCancellations, fencing }, output)

def applySemaphoreAcquire (revision now : Nat) (input : SemaphoreAcquireInput) : Store × Value :=
  let (semaphores, fencing, output) :=
    s.semaphores.applySemaphoreAcquire s.semaphoreCancellations s.fencing revision now input
  ({ s with semaphores, fencing }, output)

def applySemaphoreCancel (revision now : Nat) (key holder : String) (requestId : Option String) :
    Store × Value :=
  let (semaphores, semaphoreCancellations, fencing, output) :=
    s.semaphores.applySemaphoreCancel
      s.semaphoreCancellations s.fencing revision now key holder requestId
  ({ s with semaphores, semaphoreCancellations, fencing }, output)

end Fenced

def applyActivateCommandProtocol (s : Store) (version : Nat) : Store × Value :=
  let answer (activated : List (String × Value)) (protocol : Nat) := json <|
    activated ++ [("command_protocol", toValue protocol), ("revision", toValue s.revision)]
  if Command.lockCommandProtocol ≤ version && version ≤ Command.currentCommandProtocol &&
    version ≥ s.commandProtocol
  then
    ({ s with commandProtocol := version }, answer [("activated", true)] version)
  else if version = s.commandProtocol then
    (s, answer [("activated", true), ("duplicate", true)] s.commandProtocol)
  else
    (s, answer [
      ("activated", false), ("reason", "unsupported_or_regressive_command_protocol"),
      ("requested", version)
    ] s.commandProtocol)

end Store
