import FiduciaNode.State.Theorems.LockSteps
import FiduciaNode.State.Theorems.SemaphoreSteps

namespace LockManager

variable {c : Command} {now : Nat} {m : LockManager} {f₁ f₂ : FencingCounter} {t₁ t₂ : Table}

theorem Step.fencing (e : Step c now t₁ t₂) : FencingCounter.Steps t₁.2 t₂.2 := by
  cases e
  case mint e => exact .single e
  case grant next => exact .single (FencingCounter.nextToken_step next)
  case promote next => exact .single (FencingCounter.nextToken_step next)
  all_goals exact .refl

theorem Steps.fencing (e : Steps c now t₁ t₂) : FencingCounter.Steps t₁.2 t₂.2 := by
  induction e
  case refl => exact .refl
  case tail e ih => exact ih.trans e.fencing

theorem mint_steps (e : FencingCounter.Steps f₁ f₂) : Steps c now (m, f₁) (m, f₂) := by
  induction e
  case refl => exact .refl
  case tail e ih => exact ih.tail (.mint e)

end LockManager

namespace Semaphores

variable {c : Command} {now : Nat} {sems : Semaphores} {f₁ f₂ : FencingCounter} {t₁ t₂ : Table}

theorem Step.fencing (e : Step c now t₁ t₂) : FencingCounter.Steps t₁.2 t₂.2 := by
  cases e
  case mint e => exact .single e
  case grant next => exact .single (FencingCounter.nextToken_step next)
  case promote next => exact .single (FencingCounter.nextToken_step next)
  all_goals exact .refl

theorem Steps.fencing (e : Steps c now t₁ t₂) : FencingCounter.Steps t₁.2 t₂.2 := by
  induction e
  case refl => exact .refl
  case tail e ih => exact ih.trans e.fencing

theorem mint_steps (e : FencingCounter.Steps f₁ f₂) : Steps c now (sems, f₁) (sems, f₂) := by
  induction e
  case refl => exact .refl
  case tail e ih => exact ih.tail (.mint e)

end Semaphores

namespace Command

def isLock : Command → Bool
  | lockAcquire .. | lockAcquireV2 .. | lockAcquireAttempt .. | lockRenew .. | lockRelease ..
  | lockCancel .. | lockCancelAttempt .. => true
  | _ => false

def isSemaphore : Command → Bool
  | semaphoreAcquire .. | semaphoreAcquireV2 .. | semaphoreAcquireAttempt .. | semaphoreRenew ..
  | semaphoreRelease .. | semaphoreCancel .. | semaphoreCancelAttempt .. => true
  | _ => false

end Command

namespace Store

variable {s : Store} {o : IterOrder} {c c' : Command} {now revision : Nat}

section Fenced

theorem applyTaskClaim_fencing :
    FencingCounter.Steps s.fencing (s.applyTaskClaim now name worker ttlMs).1.fencing := by
  simp only [applyTaskClaim]
  split
  case h_1 => exact .refl
  case h_2 next => exact .single (FencingCounter.nextToken_step next)

theorem applyHandoffAccept_fencing :
    FencingCounter.Steps s.fencing (s.applyHandoffAccept now name toOwner).1.fencing := by
  simp only [applyHandoffAccept, Handoffs.applyHandoffAccept]
  split
  case h_1 => exact .refl
  case h_2 =>
    split
    case isTrue => exact .refl
    case isFalse =>
      split
      case isTrue => exact .refl
      case isFalse =>
        split
        case h_1 => exact .refl
        case h_2 next => exact .single (FencingCounter.mintTokenAbove_step next)

theorem applyIdempotencyClaim_fencing :
    FencingCounter.Steps s.fencing
      (s.applyIdempotencyClaim revision now key owner ttlMs retentionMs metadata).1.fencing := by
  simp only [applyIdempotencyClaim, Idempotency.applyIdempotencyClaim]
  split
  case isTrue => exact .refl
  case isFalse =>
    split
    case h_1 => exact .refl
    case h_2 =>
      split
      case h_1 => exact .refl
      case h_2 next => exact .single (FencingCounter.nextToken_step next)

theorem applyElectionCampaign_fencing :
    FencingCounter.Steps s.fencing
      (s.applyElectionCampaign revision now name candidate ttlMs metadata).1.fencing := by
  simp only [applyElectionCampaign, Elections.applyElectionCampaign]
  split
  case h_1 => split <;> exact .refl
  case h_2 =>
    split
    case h_1 => exact .refl
    case h_2 next => exact .single (FencingCounter.nextToken_step next)

end Fenced

section Sweep

theorem expireDue_lockSteps :
    LockManager.Steps c now (s.locks, s.fencing)
      ((s.expireDue o now).locks, (s.expireDue o now).fencing) :=
  (LockManager.expireDue_steps o).trans
    (LockManager.mint_steps (Semaphores.expireDue_steps o (c := c)).fencing)

theorem expireDue_semaphoreSteps :
    Semaphores.Steps c now (s.semaphores, s.fencing)
      ((s.expireDue o now).semaphores, (s.expireDue o now).fencing) :=
  (Semaphores.mint_steps (LockManager.expireDue_steps o (c := c)).fencing).trans
    (Semaphores.expireDue_steps o)

-- The sweep is the same for every command.
theorem prepare_lockSteps :
    LockManager.Steps c' now (s.locks, s.fencing)
      ((s.prepare o c now).locks, (s.prepare o c now).fencing) := by
  simp only [prepare]
  split
  case isTrue => exact .refl
  case isFalse => exact expireDue_lockSteps (s := { s with commandProtocol := _ })

theorem prepare_semaphoreSteps :
    Semaphores.Steps c' now (s.semaphores, s.fencing)
      ((s.prepare o c now).semaphores, (s.prepare o c now).fencing) := by
  simp only [prepare]
  split
  case isTrue => exact .refl
  case isFalse => exact expireDue_semaphoreSteps (s := { s with commandProtocol := _ })

theorem prepare_queueLive (h : c.isProtocolActivation = false) :
    (s.prepare o c now).locks.QueueLive now := by
  simp only [prepare, h]
  exact LockManager.expireDue_queueLive o

theorem prepare_queuesLive (h : c.isProtocolActivation = false) :
    (s.prepare o c now).semaphores.QueuesLive now := by
  simp only [prepare, h]
  exact Semaphores.expireDue_queuesLive o

end Sweep

section Commands

variable [External]

theorem applySemaphoreAcquire_steps {input} (request : c.semaphoreRequest = some input) :
    Semaphores.Steps c now (s.semaphores, s.fencing)
      ((s.applySemaphoreAcquire revision now input).1.semaphores,
        (s.applySemaphoreAcquire revision now input).1.fencing) :=
  Semaphores.applySemaphoreAcquire_steps request

omit [External] in
theorem applySemaphoreRelease_steps (l : s.semaphores.QueuesLive now) :
    Semaphores.Steps c now (s.semaphores, s.fencing)
      ((s.applySemaphoreRelease revision now key holder token).1.semaphores,
        (s.applySemaphoreRelease revision now key holder token).1.fencing) :=
  Semaphores.applySemaphoreRelease_steps l

theorem applySemaphoreCancel_steps {requestId : Option String} (l : s.semaphores.QueuesLive now)
    (cancels : ∀ w : QueuedPermit, (requestId = none ∨ w.requestId = requestId) →
      c.CancelsPermit key holder w) :
    Semaphores.Steps c now (s.semaphores, s.fencing)
      ((s.applySemaphoreCancel revision now key holder requestId).1.semaphores,
        (s.applySemaphoreCancel revision now key holder requestId).1.fencing) :=
  Semaphores.applySemaphoreCancel_steps l cancels

theorem applyLockAcquire_steps {input} (request : c.lockRequest = some input) :
    LockManager.Steps c now (s.locks, s.fencing)
      ((s.applyLockAcquire revision now input).1.locks,
        (s.applyLockAcquire revision now input).1.fencing) :=
  LockManager.applyLockAcquire_steps request

omit [External] in
theorem applyLockRelease_steps (l : s.locks.QueueLive now) :
    LockManager.Steps c now (s.locks, s.fencing)
      ((s.applyLockRelease revision now holder token).1.locks,
        (s.applyLockRelease revision now holder token).1.fencing) :=
  LockManager.applyLockRelease_steps l

theorem applyLockCancel_steps {requestId : Option String} (l : s.locks.QueueLive now)
    (cancels : ∀ w : QueuedLock, (requestId = none ∨ w.requestId = requestId) →
      c.CancelsLock (holder, canonicalKeys keys) w) :
    LockManager.Steps c now (s.locks, s.fencing)
      ((s.applyLockCancel o revision now keys holder requestId).1.locks,
        (s.applyLockCancel o revision now keys holder requestId).1.fencing) :=
  LockManager.applyLockCancel_steps l cancels

-- What a command can do to the locks, to the semaphores and to the counter they share.
structure Steps (c : Command) (now : Nat) (s₁ s₂ : Store) : Prop where
  locks      : LockManager.Steps c now (s₁.locks, s₁.fencing) (s₂.locks, s₂.fencing)
  semaphores : Semaphores.Steps c now (s₁.semaphores, s₁.fencing) (s₂.semaphores, s₂.fencing)

namespace Steps

variable {s₁ s₂ s₃ : Store}

omit [External]

theorem trans (e₁ : Steps c now s₁ s₂) (e₂ : Steps c now s₂ s₃) : Steps c now s₁ s₃ where
  locks      := e₁.locks.trans e₂.locks
  semaphores := e₁.semaphores.trans e₂.semaphores

theorem ofLocks (e : LockManager.Steps c now (s₁.locks, s₁.fencing) (s₂.locks, s₂.fencing))
    (h : s₂.semaphores = s₁.semaphores) : Steps c now s₁ s₂ where
  locks      := e
  semaphores := h ▸ Semaphores.mint_steps e.fencing

theorem ofSemaphores
    (e : Semaphores.Steps c now (s₁.semaphores, s₁.fencing) (s₂.semaphores, s₂.fencing))
    (h : s₂.locks = s₁.locks) : Steps c now s₁ s₂ where
  locks      := h ▸ LockManager.mint_steps e.fencing
  semaphores := e

theorem ofFencing (e : FencingCounter.Steps s₁.fencing s₂.fencing) (h₁ : s₂.locks = s₁.locks)
    (h₂ : s₂.semaphores = s₁.semaphores) : Steps c now s₁ s₂ where
  locks      := h₁ ▸ LockManager.mint_steps e
  semaphores := h₂ ▸ Semaphores.mint_steps e

theorem ofEq (hl : s₂.locks = s₁.locks) (hs : s₂.semaphores = s₁.semaphores)
    (hf : s₂.fencing = s₁.fencing) : Steps c now s₁ s₂ :=
  .ofFencing (hf ▸ .refl) hl hs

theorem fencing (e : Steps c now s₁ s₂) : FencingCounter.Steps s₁.fencing s₂.fencing :=
  e.locks.fencing

end Steps

omit [External] in
theorem prepare_steps : Steps c now s (s.prepare o c now) where
  locks      := prepare_lockSteps
  semaphores := prepare_semaphoreSteps

omit [External] in
theorem applyTaskClaim_steps : Steps c now s (s.applyTaskClaim now name worker ttlMs).1 := by
  refine .ofFencing applyTaskClaim_fencing ?_ ?_ <;> simp only [applyTaskClaim] <;> split <;> rfl

-- Stated for any result, so that the bound on the tokens of an offer is never evaluated.
omit [External] in
theorem onHandoffs_steps {r : Handoffs × Value} : Steps c now s (s.onHandoffs r).1 :=
  .ofEq rfl rfl rfl

theorem applyCommand_steps
    (locks : c.isProtocolActivation = false → s.locks.QueueLive now)
    (semaphores : c.isProtocolActivation = false → s.semaphores.QueuesLive now) :
    Steps c now s (s.applyCommand o revision now c).1 := by
  cases c
  case activateCommandProtocol =>
    simp only [applyCommand, applyActivateCommandProtocol]
    split
    case isTrue => exact .ofEq rfl rfl rfl
    case isFalse => split <;> exact .ofEq rfl rfl rfl
  case lockAcquire | lockAcquireV2 | lockAcquireAttempt =>
    exact .ofLocks (applyLockAcquire_steps rfl) rfl
  case lockRenew => exact .ofLocks LockManager.applyLockRenew_steps rfl
  case lockRelease => exact .ofLocks (applyLockRelease_steps (locks rfl)) rfl
  case lockCancel keys holder =>
    exact .ofLocks (applyLockCancel_steps (locks rfl) fun _ _ => rfl) rfl
  case lockCancelAttempt keys holder requestId =>
    exact .ofLocks (applyLockCancel_steps (locks rfl) fun _ h => ⟨rfl, by simpa using h⟩) rfl
  case semaphoreAcquire | semaphoreAcquireV2 | semaphoreAcquireAttempt =>
    exact .ofSemaphores (applySemaphoreAcquire_steps rfl) rfl
  case semaphoreRenew => exact .ofSemaphores Semaphores.applySemaphoreRenew_steps rfl
  case semaphoreRelease =>
    exact .ofSemaphores (applySemaphoreRelease_steps (semaphores rfl)) rfl
  case semaphoreCancel =>
    exact .ofSemaphores (applySemaphoreCancel_steps (semaphores rfl) fun _ _ => ⟨rfl, rfl⟩) rfl
  case semaphoreCancelAttempt =>
    refine .ofSemaphores (applySemaphoreCancel_steps (semaphores rfl) fun _ h => ⟨rfl, rfl, ?_⟩) rfl
    simpa using h
  case taskClaim => exact applyTaskClaim_steps
  case handoffAccept => exact .ofFencing applyHandoffAccept_fencing rfl rfl
  case idempotencyClaim => exact .ofFencing applyIdempotencyClaim_fencing rfl rfl
  case electionCampaign => exact .ofFencing applyElectionCampaign_fencing rfl rfl
  case handoffOffer => exact onHandoffs_steps
  all_goals exact .ofEq rfl rfl rfl

theorem applyAt_steps : Steps c now s (s.applyAt o c now).1 :=
  prepare_steps.trans (applyCommand_steps prepare_queueLive prepare_queuesLive)

section Frames

omit [External] in
theorem onHandoffs_locks {r : Handoffs × Value} : (s.onHandoffs r).1.locks = s.locks :=
  rfl

omit [External] in
theorem onHandoffs_semaphores {r : Handoffs × Value} :
    (s.onHandoffs r).1.semaphores = s.semaphores :=
  rfl

theorem applyCommand_locks (h : c.isLock = false) :
    (s.applyCommand o revision now c).1.locks = s.locks := by
  cases c <;> try contradiction
  case handoffOffer => exact onHandoffs_locks
  case taskClaim =>
    simp only [applyCommand, applyTaskClaim]
    split <;> rfl
  case activateCommandProtocol =>
    simp only [applyCommand, applyActivateCommandProtocol]
    split
    case isTrue => rfl
    case isFalse => split <;> rfl
  all_goals rfl

theorem applyCommand_semaphores (h : c.isSemaphore = false) :
    (s.applyCommand o revision now c).1.semaphores = s.semaphores := by
  cases c <;> try contradiction
  case handoffOffer => exact onHandoffs_semaphores
  case taskClaim =>
    simp only [applyCommand, applyTaskClaim]
    split <;> rfl
  case activateCommandProtocol =>
    simp only [applyCommand, applyActivateCommandProtocol]
    split
    case isTrue => rfl
    case isFalse => split <;> rfl
  all_goals rfl

end Frames

end Commands

end Store
