import FiduciaNode.State.Theorems.Cancellation
import FiduciaNode.State.Theorems.Frames

-- A command that is refused leaves the store as the sweep has left it, apart from the two that change
-- something before they are refused.

namespace Value

def outcomes : List String := [
  "ok", "acquired", "renewed", "released", "claimed", "completed", "abandoned", "won", "resigned"
]

-- The answer denies the request, and neither queues nor cancels it.
def isRefusal (v : Value) : Bool :=
  outcomes.any (fun name => v.flag name = some false) && v.flag "queued" ≠ some true &&
  v.flag "cancelled" ≠ some true

end Value

namespace Command

-- The commands on tasks, handoffs, elections, idempotency records, locks and semaphores, apart from the
-- legacy acquire of a permit.
def isGuarded : Command → Bool
  | taskCreate .. | taskClaim .. | taskProgress .. | taskComplete .. | taskFail .. | taskCancel .. => true
  | handoffOffer .. | handoffAccept .. | handoffReject .. => true
  | electionCampaign .. | electionRenew .. | electionResign .. => true
  | idempotencyClaim .. | idempotencyComplete .. | idempotencyRenew .. | idempotencyAbandon .. => true
  | lockAcquire .. | lockAcquireV2 .. | lockAcquireAttempt .. | lockRenew .. | lockRelease .. | lockCancel ..
  | lockCancelAttempt .. => true
  | semaphoreAcquireV2 .. | semaphoreAcquireAttempt .. | semaphoreRenew .. | semaphoreRelease ..
  | semaphoreCancel .. | semaphoreCancelAttempt .. => true
  | _ => false

end Command

-- What a command returns: the tables that it works on, and its answer.
structure Answered (α : Type) where
  tables : α
  answer : Value

namespace Answered

variable {α β γ : Type}

def one (r : α × Value) : Answered α :=
  ⟨r.1, r.2⟩

def two (r : α × β × Value) : Answered (α × β) :=
  ⟨(r.1, r.2.1), r.2.2⟩

def three (r : α × β × γ × Value) : Answered (α × β × γ) :=
  ⟨(r.1, r.2.1, r.2.2.1), r.2.2.2⟩

-- The tables are as before if the answer is a refusal.
def Steady (before : α) (r : Answered α) : Prop :=
  r.answer.isRefusal → r.tables = before

theorem Steady.keep {before : α} {r : Answered α} (same : r.tables = before) : Steady before r :=
  fun _ => same

theorem Steady.accept {before : α} {r : Answered α} (accepted : r.answer.isRefusal = false) : Steady before r :=
  fun refused => by simp [accepted] at refused

theorem Steady.kept {before : α} {r : α × Value} (steady : Steady before (one r)) (refused : r.2.isRefusal) :
    r.1 = before :=
  steady refused

end Answered

open Answered

namespace Tasks

variable {tasks : Tasks} {now fencingToken ttlMs : Nat} {name worker : String} {token? : Option Nat}

theorem applyTaskCreate_steady {taskType : String} {payload : Value} {deadlineMs : Option Nat} :
    Steady tasks (one (tasks.applyTaskCreate name taskType payload deadlineMs)) := by
  simp only [applyTaskCreate]
  split
  case h_1 => exact .keep rfl
  case h_2 => exact .accept rfl

theorem applyTaskClaim_steady : Steady tasks (one (tasks.applyTaskClaim token? now name worker ttlMs)) := by
  simp only [applyTaskClaim]
  split
  case h_1 | h_2 => exact .keep rfl
  case h_3 =>
    split
    case isTrue => exact .keep rfl
    case isFalse =>
      split
      case isTrue => exact .keep rfl
      case isFalse => exact .accept rfl

theorem applyOwned_steady {update : TaskRecord → TaskRecord} {fields : List (String × Value)}
    (accepted : ∀ task, (json ([("ok", toValue true)] ++ fields ++ [("task", task)])).isRefusal = false) :
    Steady tasks (one (tasks.applyOwned now name worker fencingToken fields update)) := by
  simp only [applyOwned]
  split
  case h_1 => exact .keep rfl
  case h_2 =>
    split
    case isTrue => exact .keep rfl
    case isFalse => exact .accept (accepted _)

theorem applyTaskCancel_steady : Steady tasks (one (tasks.applyTaskCancel name)) := by
  simp only [applyTaskCancel]
  split
  case h_1 => exact .keep rfl
  case h_2 =>
    split
    case isTrue => exact .keep rfl
    case isFalse => exact .accept rfl

end Tasks

namespace Handoffs

variable {handoffs : Handoffs} {fencing : FencingCounter} {now fromToken ttlMs : Nat}
  {name resource fromOwner toOwner : String} {context : Value}

theorem applyHandoffOffer_steady :
    Steady handoffs (one (handoffs.applyHandoffOffer fencing now name resource fromOwner toOwner fromToken
      context ttlMs)) := by
  simp only [applyHandoffOffer]
  split
  case isTrue => exact .keep rfl
  case isFalse =>
    split
    case h_1 => exact .keep rfl
    case h_2 => exact .accept rfl

theorem applyHandoffAccept_steady :
    Steady (handoffs, fencing) (two (handoffs.applyHandoffAccept fencing now name toOwner)) := by
  simp only [applyHandoffAccept]
  split
  case h_1 => exact .keep rfl
  case h_2 =>
    split
    case isTrue => exact .keep rfl
    case isFalse =>
      split
      case isTrue => exact .keep rfl
      case isFalse =>
        split
        case h_1 => exact .keep rfl
        case h_2 => exact .accept rfl

theorem applyHandoffReject_steady : Steady handoffs (one (handoffs.applyHandoffReject now name toOwner)) := by
  simp only [applyHandoffReject]
  split
  case h_1 => exact .keep rfl
  case h_2 =>
    split
    case isTrue => exact .keep rfl
    case isFalse =>
      split
      case isTrue => exact .keep rfl
      case isFalse => exact .accept rfl

end Handoffs

namespace Elections

variable {elections : Elections} {fencing : FencingCounter} {revision now ttlMs fencingToken : Nat}
  {name candidate : String} {metadata : HashMap String String}

theorem applyElectionCampaign_steady :
    Steady (elections, fencing)
      (two (elections.applyElectionCampaign fencing revision now name candidate ttlMs metadata)) := by
  simp only [applyElectionCampaign]
  split
  case h_1 => split <;> exact .keep rfl
  case h_2 =>
    split
    case h_1 => exact .keep rfl
    case h_2 => exact .accept rfl

theorem applyElectionRenew_steady {ttlMs : Option Nat} :
    Steady elections (one (elections.applyElectionRenew now name candidate fencingToken ttlMs)) := by
  simp only [applyElectionRenew]
  split
  case h_1 => exact .keep rfl
  case h_2 =>
    split
    case isTrue => exact .keep rfl
    case isFalse => exact .accept rfl

theorem applyElectionResign_steady :
    Steady elections (one (elections.applyElectionResign name candidate fencingToken)) := by
  simp only [applyElectionResign]
  generalize elections[name]?.any _ = ok
  cases ok
  case false => exact .keep rfl
  case true => exact .accept rfl

end Elections

namespace Idempotency

variable {idempotency : Idempotency} {fencing : FencingCounter} {revision now ttlMs fencingToken : Nat}
  {key owner : String}

theorem applyIdempotencyClaim_steady {retentionMs : Option Nat} {metadata : HashMap String String} :
    Steady (idempotency, fencing)
      (two (idempotency.applyIdempotencyClaim fencing revision now key owner ttlMs retentionMs metadata)) := by
  simp only [applyIdempotencyClaim]
  split
  case isTrue => exact .keep rfl
  case isFalse =>
    split
    case h_1 => exact .keep rfl
    case h_2 =>
      split
      case h_1 => exact .keep rfl
      case h_2 => exact .accept rfl

theorem forHolder_steady {flag : String} {f : IdempotencyRecord → Idempotency × Value}
    (h : ∀ record, Steady idempotency (one (f record))) :
    Steady idempotency (one (idempotency.forHolder flag revision key owner fencingToken f)) := by
  simp only [forHolder]
  split
  case h_1 => exact .keep rfl
  case h_2 =>
    split
    case isTrue => exact .keep rfl
    case isFalse => exact h _

theorem applyIdempotencyComplete_steady {result : Option Value} :
    Steady idempotency (one (idempotency.applyIdempotencyComplete revision now key owner fencingToken result)) := by
  refine forHolder_steady fun record => ?_
  split
  case isTrue => exact .keep rfl
  case isFalse => exact .accept rfl

theorem applyIdempotencyRenew_steady :
    Steady idempotency (one (idempotency.applyIdempotencyRenew revision now key owner fencingToken ttlMs)) := by
  refine forHolder_steady fun record => ?_
  split
  case isTrue => exact .keep rfl
  case isFalse => exact .accept rfl

theorem applyIdempotencyAbandon_steady :
    Steady idempotency (one (idempotency.applyIdempotencyAbandon revision key owner fencingToken)) := by
  refine forHolder_steady fun record => ?_
  split
  case isTrue => exact .keep rfl
  case isFalse => exact .accept rfl

end Idempotency

theorem CancellationLedger.remember_full {l l' : CancellationLedger} {identity tenant : String} {now : Nat}
    (h : l.remember identity tenant now = (l', .capacityExceeded)) : l' = l := by
  rcases l.remember_cases identity tenant now with ⟨_, e⟩ | e | ⟨_, e, _⟩
  case inl => simp [e] at h
  case inr.inl => exact (congrArg Prod.fst (h.symm.trans e) :)
  case inr.inr => simp [h] at e

namespace LockManager

variable {m : LockManager} {fencing : FencingCounter} {o : IterOrder} {ledger : CancellationLedger}
  {revision now ttlMs fencingToken : Nat} {keys : List String} {holder : String} {requestId : Option String}

theorem applyLockRenew_steady : Steady m (one (m.applyLockRenew revision now keys holder fencingToken ttlMs)) := by
  simp only [applyLockRenew]
  split
  case h_1 => exact .keep rfl
  case h_2 =>
    split
    case isTrue => exact .keep rfl
    case isFalse =>
      split
      case isTrue => exact .keep rfl
      case isFalse => exact .accept rfl

theorem applyLockRelease_steady :
    Steady (m, fencing) (two (m.applyLockRelease fencing revision now holder fencingToken)) := by
  simp only [applyLockRelease]
  split
  case h_1 => exact .keep rfl
  case h_2 =>
    split
    case isTrue => exact .keep rfl
    case isFalse => exact .accept rfl

theorem cancelQueued_steady :
    Steady (m, fencing) (two (m.cancelQueued o fencing revision now keys holder requestId)) := by
  simp only [cancelQueued]
  split
  case isTrue => exact .accept rfl
  case isFalse =>
    split
    case h_1 => exact .keep rfl
    case h_2 => split <;> exact .keep rfl

-- The cancellation of an attempt that is remembered is never refused.
theorem cancelQueued_accepted {request : String} (absent : m.grantOf? o holder keys (some request) = none) :
    (m.cancelQueued o fencing revision now keys holder (some request)).2.2.isRefusal = false := by
  simp only [cancelQueued, absent]
  split <;> rfl

section Acquire

variable {input : LockAcquireInput} {identityInUse : Bool}

theorem position_pushBack {κ ν : Type} [DecidableEq κ] {q : IndexedQueue κ ν} {k : κ} {v : ν} :
    ((q.pushBack k v).position k).isSome := by
  have queued : k ∈ (q.pushBack k v).entries.map Prod.fst := by
    by_cases present : q.contains k
    case pos => simpa [present] using IndexedQueue.contains_iff.mp present
    case neg => simp [IndexedQueue.entries_pushBack (Bool.eq_false_iff.mpr present)]
  simpa [IndexedQueue.position] using queued

theorem queued_isRefusal :
    (m.queued revision input keys identityInUse).isRefusal =
      !(let position := if identityInUse then none else m.queue.position (input.holder, keys) |>.map (· + 1)
        if input.legacySemantics then input.wait && position.isSome else position.isSome) := by
  simp only [queued]
  generalize (if identityInUse then none else (m.queue.position (input.holder, keys)).map (· + 1)) = position
  cases input.legacySemantics <;> cases input.wait <;> cases position <;> rfl

theorem applyBlocked_steady :
    let already := m.queue.get (input.holder, keys) |>.any (·.requestId = input.requestId)
    let identityInUse := m.queue.contains (input.holder, keys) && !already
    Steady m ⟨m.enqueue now input keys, (m.enqueue now input keys).queued revision input keys identityInUse⟩ := by
  intro already identityInUse
  by_cases waits : input.wait && !m.queue.contains (input.holder, keys)
  case neg =>
    have same : m.enqueue now input keys = m := if_neg waits
    exact .keep same
  case pos =>
    simp only [Bool.and_eq_true, Bool.not_eq_true'] at waits
    have new : identityInUse = false := by simp [identityInUse, waits.2]
    refine .accept ?_
    rw [queued_isRefusal, new, enqueue]
    simp [waits, position_pushBack]

variable [External]

theorem applyLockAcquire_steady : Steady (m, fencing) (two (m.applyLockAcquire ledger fencing revision now input)) := by
  simp only [applyLockAcquire]
  split
  case isTrue => exact .keep rfl
  case isFalse =>
    split
    case isTrue => exact .keep rfl
    case isFalse =>
      split
      case h_1 token grant again =>
        cases legacy : input.legacySemantics
        case true => exact .accept rfl
        case false =>
          refine .keep ?_
          obtain ⟨_, _, _, stored, _⟩ := reacquired?_eq_some_iff.mp again
          simp only [two, Bool.false_eq_true, if_false, HashMap.insert_eq_self stored]
      case h_2 =>
        split
        case isTrue => exact fun refused => Prod.ext (applyBlocked_steady refused) rfl
        case isFalse =>
          split
          case h_1 => exact .keep rfl
          case h_2 => exact .accept rfl

end Acquire

section Cancel

variable [External]

theorem applyLockCancel_steady :
    Steady (m, ledger, fencing) (three (m.applyLockCancel o ledger fencing revision now keys holder requestId)) := by
  simp only [applyLockCancel]
  split
  case h_1 =>
    intro refused
    exact congrArg (fun p => (p.1, ledger, p.2)) (cancelQueued_steady refused)
  case h_2 request =>
    split
    case h_1 => exact .keep rfl
    case h_2 absent =>
      split
      case h_1 full => exact .keep (congrArg (m, ·, fencing) (CancellationLedger.remember_full full))
      case h_2 => exact .accept (cancelQueued_accepted absent)

end Cancel

end LockManager

namespace Semaphores

variable {sems : Semaphores} {fencing : FencingCounter} {ledger : CancellationLedger}
  {revision now ttlMs fencingToken : Nat} {key holder : String} {requestId : Option String}

theorem applySemaphoreRenew_steady :
    Steady sems (one (sems.applySemaphoreRenew revision now key holder fencingToken ttlMs)) := by
  simp only [applySemaphoreRenew]
  split
  case h_1 => exact .keep rfl
  case h_2 =>
    split
    case h_1 => exact .keep rfl
    case h_2 =>
      split
      case isTrue => exact .keep rfl
      case isFalse => exact .accept rfl

theorem applySemaphoreRelease_steady :
    Steady (sems, fencing) (two (sems.applySemaphoreRelease fencing revision now key holder fencingToken)) := by
  simp only [applySemaphoreRelease]
  split
  case h_1 => exact .keep rfl
  case h_2 =>
    split
    case isTrue => exact .keep rfl
    case isFalse => exact .accept rfl

theorem cancelQueued_steady :
    Steady (sems, fencing) (two (sems.cancelQueued fencing revision now key holder requestId)) := by
  simp only [cancelQueued]
  split
  case h_1 => exact .accept rfl
  case h_2 =>
    split
    case h_1 => exact .keep rfl
    case h_2 => split <;> exact .keep rfl

theorem cancelQueued_accepted {request : String} (absent : sems.slotOf? key holder (some request) = none) :
    (sems.cancelQueued fencing revision now key holder (some request)).2.2.isRefusal = false := by
  simp only [cancelQueued, absent]
  split <;> rfl

section Acquire

variable {sem : Semaphore} {input : SemaphoreAcquireInput} {identityInUse : Bool}

theorem queued_isRefusal :
    (queued sem revision input identityInUse).isRefusal =
      !(let position := if identityInUse then none else sem.queue.position input.holder |>.map (· + 1)
        if input.legacySemantics then input.wait && position.isSome else position.isSome) := by
  simp only [queued]
  generalize (if identityInUse then none else (sem.queue.position input.holder).map (· + 1)) = position
  cases input.legacySemantics <;> cases input.wait <;> cases position <;> rfl

theorem acquireFrom_steady :
    Steady (sems.insert input.key sem, fencing) (two (sems.acquireFrom sem fencing revision now input)) := by
  simp only [acquireFrom]
  split
  case h_1 => exact .keep rfl
  case h_2 =>
    split
    case isTrue =>
      split
      case h_1 => exact .keep rfl
      case h_2 => exact .accept rfl
    case isFalse =>
      by_cases waits : input.wait && !sem.queue.contains input.holder
      case neg =>
        have same : enqueue sem now input = sem := if_neg waits
        simp only [same]
        exact .keep rfl
      case pos =>
        simp only [Bool.and_eq_true, Bool.not_eq_true'] at waits
        refine .accept ?_
        simp only [two, queued_isRefusal, enqueue, waits]
        simp [LockManager.position_pushBack]

variable [External]

def isTombstoned (ledger : CancellationLedger) (input : SemaphoreAcquireInput) : Bool :=
  input.requestId.any fun requestId =>
    ledger.contains (acquisitionIdentity "semaphore" input.holder [input.key] requestId)

-- A refused acquire leaves an empty semaphore behind where there was none.
theorem applySemaphoreAcquire_refused (modern : input.legacySemantics = false)
    (refused : (sems.applySemaphoreAcquire ledger fencing revision now input).2.2.isRefusal) :
    ((sems.applySemaphoreAcquire ledger fencing revision now input).1,
      (sems.applySemaphoreAcquire ledger fencing revision now input).2.1) = (sems, fencing) ↔
    isTombstoned ledger input ∨ sems.contains input.key := by
  by_cases tombstone : isTombstoned ledger input
  case pos =>
    have same : sems.applySemaphoreAcquire ledger fencing revision now input = (sems, fencing, _) := if_pos tombstone
    simp only [same, tombstone, true_or]
  case neg =>
    rw [or_iff_right tombstone]
    unfold isTombstoned at tombstone
    cases stored : sems[input.key]?
    case none =>
      have fresh : sems.applySemaphoreAcquire ledger fencing revision now input =
          sems.acquireFrom (sems.entry input) fencing revision now input := by
        rw [applySemaphoreAcquire, if_neg tombstone, stored, Option.filter_none]
      rw [fresh] at refused ⊢
      have created : ((sems.acquireFrom (sems.entry input) fencing revision now input).1, _) = _ :=
        acquireFrom_steady refused
      rw [created]
      refine iff_of_false (fun same => ?_) (Bool.eq_false_iff.mp (HashMap.contains_eq_false_iff.mpr stored))
      have := (congrArg (fun r : Semaphores × FencingCounter => r.1[input.key]?) same).trans stored
      simp at this
    case some sem =>
      refine iff_of_true ?_ (by simp [Std.ExtTreeMap.contains_eq_isSome_getElem?, stored])
      have entry : sems.entry input = sem := by simp [Semaphores.entry, stored, modern]
      have same : sems.insert input.key sem = sems := HashMap.insert_eq_self stored
      by_cases mismatch : sem.limit = input.limit
      case pos =>
        have existing : sems.applySemaphoreAcquire ledger fencing revision now input =
            sems.acquireFrom sem fencing revision now input := by
          rw [applySemaphoreAcquire, if_neg tombstone, stored, Option.filter_some, if_neg (by simp [mismatch]), entry]
        rw [existing] at refused ⊢
        exact (acquireFrom_steady refused).trans (congrArg (·, fencing) same)
      case neg =>
        rw [applySemaphoreAcquire, if_neg tombstone, stored, Option.filter_some, if_pos (by simp [mismatch, modern])]

end Acquire

section Cancel

variable [External]

theorem applySemaphoreCancel_steady :
    Steady (sems, ledger, fencing) (three (sems.applySemaphoreCancel ledger fencing revision now key holder requestId)) := by
  simp only [applySemaphoreCancel]
  split
  case h_1 =>
    intro refused
    exact congrArg (fun p => (p.1, ledger, p.2)) (cancelQueued_steady refused)
  case h_2 request =>
    split
    case h_1 => exact .keep rfl
    case h_2 absent =>
      split
      case h_1 full => exact .keep (congrArg (sems, ·, fencing) (CancellationLedger.remember_full full))
      case h_2 => exact .accept (cancelQueued_accepted absent)

end Cancel

end Semaphores

namespace Store

section Lift

variable {s : Store} {revision now : Nat}

theorem onTasks_steady {r : Tasks × Value} (h : Steady s.tasks (one r)) : Steady s (one (s.onTasks r)) :=
  fun refused => congrArg (fun tasks => { s with tasks }) (h refused)

theorem onHandoffs_steady {r : Handoffs × Value} (h : Steady s.handoffs (one r)) :
    Steady s (one (s.onHandoffs r)) :=
  fun refused => congrArg (fun handoffs => { s with handoffs }) (h refused)

theorem onElections_steady {r : Elections × Value} (h : Steady s.elections (one r)) :
    Steady s (one (s.onElections r)) :=
  fun refused => congrArg (fun elections => { s with elections }) (h refused)

theorem onIdempotency_steady {r : Idempotency × Value} (h : Steady s.idempotency (one r)) :
    Steady s (one (s.onIdempotency r)) :=
  fun refused => congrArg (fun idempotency => { s with idempotency }) (h refused)

theorem applyHandoffAccept_steady {name toOwner : String} : Steady s (one (s.applyHandoffAccept now name toOwner)) :=
  fun refused => congrArg (fun (handoffs, fencing) => { s with handoffs, fencing })
    (Handoffs.applyHandoffAccept_steady refused)

theorem applyElectionCampaign_steady {name candidate : String} {ttlMs : Nat} {metadata : HashMap String String} :
    Steady s (one (s.applyElectionCampaign revision now name candidate ttlMs metadata)) :=
  fun refused => congrArg (fun (elections, fencing) => { s with elections, fencing })
    (Elections.applyElectionCampaign_steady refused)

theorem applyIdempotencyClaim_steady {key owner : String} {ttlMs : Nat} {retentionMs : Option Nat}
    {metadata : HashMap String String} :
    Steady s (one (s.applyIdempotencyClaim revision now key owner ttlMs retentionMs metadata)) :=
  fun refused => congrArg (fun (idempotency, fencing) => { s with idempotency, fencing })
    (Idempotency.applyIdempotencyClaim_steady refused)

theorem applyLockRenew_steady {keys : List String} {holder : String} {fencingToken ttlMs : Nat} :
    Steady s (one (s.applyLockRenew revision now keys holder fencingToken ttlMs)) :=
  fun refused => congrArg (fun locks => { s with locks }) (LockManager.applyLockRenew_steady refused)

theorem applyLockRelease_steady {holder : String} {fencingToken : Nat} :
    Steady s (one (s.applyLockRelease revision now holder fencingToken)) :=
  fun refused => congrArg (fun p => { s with locks := p.1, fencing := p.2 })
    (LockManager.applyLockRelease_steady refused)

theorem applySemaphoreRenew_steady {key holder : String} {fencingToken ttlMs : Nat} :
    Steady s (one (s.applySemaphoreRenew revision now key holder fencingToken ttlMs)) :=
  fun refused => congrArg (fun semaphores => { s with semaphores }) (Semaphores.applySemaphoreRenew_steady refused)

theorem applySemaphoreRelease_steady {key holder : String} {fencingToken : Nat} :
    Steady s (one (s.applySemaphoreRelease revision now key holder fencingToken)) :=
  fun refused => congrArg (fun p => { s with semaphores := p.1, fencing := p.2 })
    (Semaphores.applySemaphoreRelease_steady refused)

variable [External]

theorem applyLockAcquire_steady {input : LockAcquireInput} : Steady s (one (s.applyLockAcquire revision now input)) :=
  fun refused => congrArg (fun p => { s with locks := p.1, fencing := p.2 })
    (LockManager.applyLockAcquire_steady refused)

theorem applyLockCancel_steady {o : IterOrder} (keys : List String) (holder : String) (requestId : Option String) :
    Steady s (one (s.applyLockCancel o revision now keys holder requestId)) :=
  fun refused => congrArg (fun (locks, lockCancellations, fencing) => { s with locks, lockCancellations, fencing })
    (LockManager.applyLockCancel_steady refused)

theorem applySemaphoreCancel_steady (key holder : String) (requestId : Option String) :
    Steady s (one (s.applySemaphoreCancel revision now key holder requestId)) :=
  fun refused => congrArg (fun (semaphores, semaphoreCancellations, fencing) =>
    { s with semaphores, semaphoreCancellations, fencing }) (Semaphores.applySemaphoreCancel_steady refused)

end Lift

variable [External] {s : Store} {o : IterOrder} {c : Command} {revision now : Nat}

-- The command is refused before it changes anything: no token is left that it would take, or the semaphore
-- is there already, or its attempt was cancelled.
def RefusesFreely (s : Store) : Command → Prop
  | .taskClaim .. => s.fencing.nextToken = none
  | .semaphoreAcquireV2 key .. => s.semaphores.contains key
  | .semaphoreAcquireAttempt key holder requestId .. =>
    s.semaphoreCancellations.contains (acquisitionIdentity "semaphore" holder [key] requestId) ∨
    s.semaphores.contains key
  | _ => True

omit [External] in
theorem applyTaskClaim_refused {name worker : String} {ttlMs : Nat}
    (refused : (s.applyTaskClaim now name worker ttlMs).2.isRefusal) :
    (s.applyTaskClaim now name worker ttlMs).1 = s ↔ s.fencing.nextToken = none := by
  cases minted : s.fencing.nextToken
  case none =>
    simp only [applyTaskClaim, minted] at refused ⊢
    exact iff_of_true (onTasks_steady Tasks.applyTaskClaim_steady refused) trivial
  case some t =>
    have taken : (s.applyTaskClaim now name worker ttlMs).1.fencing = t.2 := by
      simp only [applyTaskClaim, minted]
      rfl
    refine iff_of_false (fun same => ?_) (Option.some_ne_none t)
    exact FencingCounter.nextToken_ne minted (taken.symm.trans (congrArg fencing same))

theorem applySemaphoreAcquire_refused {input : SemaphoreAcquireInput} (modern : input.legacySemantics = false)
    (refused : (s.applySemaphoreAcquire revision now input).2.isRefusal) :
    (s.applySemaphoreAcquire revision now input).1 = s ↔
      Semaphores.isTombstoned s.semaphoreCancellations input ∨ s.semaphores.contains input.key := by
  rw [← Semaphores.applySemaphoreAcquire_refused modern refused]
  constructor
  case mp => exact fun same => Prod.ext (congrArg semaphores same) (congrArg fencing same)
  case mpr => exact fun same => congrArg (fun p => { s with semaphores := p.1, fencing := p.2 }) same

theorem applyCommand_refused (guarded : c.isGuarded) (refused : (s.applyCommand o revision now c).2.isRefusal) :
    (s.applyCommand o revision now c).1 = s ↔ s.RefusesFreely c := by
  revert refused
  cases c <;> cases guarded <;> intro refused
  case taskClaim => exact applyTaskClaim_refused refused
  case semaphoreAcquireV2 => exact (applySemaphoreAcquire_refused rfl refused).trans (by simp [Semaphores.isTombstoned, RefusesFreely])
  case semaphoreAcquireAttempt => exact applySemaphoreAcquire_refused rfl refused
  case taskCreate => exact iff_of_true (onTasks_steady Tasks.applyTaskCreate_steady refused) trivial
  case taskProgress | taskComplete | taskFail =>
    exact iff_of_true (onTasks_steady (Tasks.applyOwned_steady fun _ => rfl) refused) trivial
  case taskCancel => exact iff_of_true (onTasks_steady Tasks.applyTaskCancel_steady refused) trivial
  case handoffOffer name resource fromOwner toOwner fromToken context ttlMs =>
    have steady : Steady s (one (s.applyCommand o revision now
        (.handoffOffer name resource fromOwner toOwner fromToken context ttlMs))) := by
      simp only [applyCommand]
      exact onHandoffs_steady Handoffs.applyHandoffOffer_steady
    exact iff_of_true (steady.kept refused) trivial
  case handoffAccept => exact iff_of_true (applyHandoffAccept_steady refused) trivial
  case handoffReject => exact iff_of_true (onHandoffs_steady Handoffs.applyHandoffReject_steady refused) trivial
  case electionCampaign => exact iff_of_true (applyElectionCampaign_steady refused) trivial
  case electionRenew => exact iff_of_true (onElections_steady Elections.applyElectionRenew_steady refused) trivial
  case electionResign => exact iff_of_true (onElections_steady Elections.applyElectionResign_steady refused) trivial
  case idempotencyClaim => exact iff_of_true (applyIdempotencyClaim_steady refused) trivial
  case idempotencyComplete =>
    exact iff_of_true (onIdempotency_steady Idempotency.applyIdempotencyComplete_steady refused) trivial
  case idempotencyRenew =>
    exact iff_of_true (onIdempotency_steady Idempotency.applyIdempotencyRenew_steady refused) trivial
  case idempotencyAbandon =>
    exact iff_of_true (onIdempotency_steady Idempotency.applyIdempotencyAbandon_steady refused) trivial
  case lockAcquire | lockAcquireV2 | lockAcquireAttempt => exact iff_of_true (applyLockAcquire_steady refused) trivial
  case lockRenew => exact iff_of_true (applyLockRenew_steady refused) trivial
  case lockRelease => exact iff_of_true (applyLockRelease_steady refused) trivial
  case lockCancel keys holder => exact iff_of_true (applyLockCancel_steady keys holder none refused) trivial
  case lockCancelAttempt keys holder requestId =>
    exact iff_of_true (applyLockCancel_steady keys holder (some requestId) refused) trivial
  case semaphoreRenew => exact iff_of_true (applySemaphoreRenew_steady refused) trivial
  case semaphoreRelease => exact iff_of_true (applySemaphoreRelease_steady refused) trivial
  case semaphoreCancel key holder => exact iff_of_true (applySemaphoreCancel_steady key holder none refused) trivial
  case semaphoreCancelAttempt key holder requestId =>
    exact iff_of_true (applySemaphoreCancel_steady key holder (some requestId) refused) trivial

-- The store with the two counters that every command may raise.
def counted (s : Store) (revision commandProtocol : Nat) : Store :=
  { s with revision, commandProtocol }

omit [External] in
theorem prepare_eq_counted (guarded : c.isGuarded) :
    s.prepare o c now =
      (s.expireDue o now).counted (s.prepare o c now).revision (s.prepare o c now).commandProtocol := by
  have command : c.isProtocolActivation = false := by cases c <;> cases guarded <;> rfl
  simp only [prepare, command]
  rfl

theorem counted_refusesFreely {protocol : Nat} : (s.counted revision protocol).RefusesFreely c ↔ s.RefusesFreely c := by
  cases c <;> rfl

theorem applyAt_counters (guarded : c.isGuarded) :
    (s.applyAt o c now).1.revision = (s.prepare o c now).revision ∧
    (s.applyAt o c now).1.commandProtocol = (s.prepare o c now).commandProtocol := by
  have parts : .revision ≠ c.part ∧ .protocol ≠ c.part := by
    cases c <;> cases guarded <;> exact ⟨nofun, nofun⟩
  exact ⟨applyCommand_touches.frame .revision parts.1, applyCommand_touches.frame .protocol parts.2⟩

-- A refused command leaves the store as the sweep has left it, unless it is a claim of a task while there
-- are tokens or an acquire of a permit that sets its semaphore up.
theorem refused_unchanged_iff (guarded : c.isGuarded) (refused : (s.applyAt o c now).2.output.isRefusal) :
    let s' := (s.applyAt o c now).1
    (s' = (s.expireDue o now).counted s'.revision s'.commandProtocol) ↔ (s.expireDue o now).RefusesFreely c := by
  have ⟨revision, protocol⟩ : (s.applyAt o c now).1.revision = _ ∧ (s.applyAt o c now).1.commandProtocol = _ :=
    applyAt_counters guarded
  have prepared : s.prepare o c now = _ := prepare_eq_counted guarded
  simp only [revision, protocol]
  rw [← prepared, ← counted_refusesFreely, ← prepared]
  exact applyCommand_refused guarded refused

-- The claim of a task that is not there takes a token, and the acquire of a permit of none leaves an empty
-- semaphore.
omit [External] in
theorem refused_claim_takes_token :
    letI := External.fixed
    let claim := Store.empty.applyAt .sorted (.taskClaim "t" "w" 10) 0
    let acquire := Store.empty.applyAt .sorted (.semaphoreAcquireV2 "k" "h" 0 10 false none) 0
    claim.2.output.isRefusal = true ∧ claim.1.fencing.nextFencingToken = 1 ∧
    acquire.2.output.isRefusal = true ∧ acquire.1.semaphores.contains "k" = true ∧
    (Store.empty.expireDue .sorted 0).fencing.nextFencingToken = 0 ∧
    (Store.empty.expireDue .sorted 0).semaphores.contains "k" = false := by
  decide +kernel

omit [External] in
theorem refused_completion_unchanged :
    letI := External.fixed
    let s' := (Store.empty.applyAt .sorted (.taskComplete "t" "w" 1 .null) 0).1
    s' = (Store.empty.expireDue .sorted 0).counted s'.revision s'.commandProtocol := by
  let := External.fixed
  exact (refused_unchanged_iff rfl (by decide +kernel)).mpr trivial

end Store
