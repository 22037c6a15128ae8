import FiduciaNode.State.Apply
import FiduciaNode.State.Theorems.Fencing

namespace Command

def lockRequest : Command → Option LockAcquireInput
  | .lockAcquire keys holder ttlMs wait waitTimeoutMs => some {
      keys, holder, ttlMs, wait, waitTimeoutMs, requestId := none, legacySemantics := true
    }
  | .lockAcquireV2 keys holder ttlMs wait waitTimeoutMs => some {
      keys, holder, ttlMs, wait, waitTimeoutMs, requestId := none, legacySemantics := false
    }
  | .lockAcquireAttempt keys holder requestId ttlMs wait waitTimeoutMs => some {
      keys, holder, ttlMs, wait, waitTimeoutMs, requestId := some requestId
      legacySemantics := false
    }
  | _ => none

-- The command cancels the request `w` that is queued as `i`.
def CancelsLock (i : LockId) (w : QueuedLock) : Command → Prop
  | .lockCancel keys holder => i = (holder, canonicalKeys keys)
  | .lockCancelAttempt keys holder requestId =>
    i = (holder, canonicalKeys keys) ∧ w.requestId = some requestId
  | _ => False

end Command

namespace LockManager

abbrev Table := LockManager × FencingCounter

-- Everything that a command with the timestamp `now` can do to the locks and the counter.
-- Other primitives also mint tokens.
inductive Step (c : Command) (now : Nat) : Table → Table → Prop
  | mint (step : FencingCounter.Step f₁ f₂) : Step c now (m, f₁) (m, f₂)
  | renew (mem : m.grants[token]? = some grant) (lease : Nat) :
    Step c now (m, f)
      ({ m with grants := m.grants.insert token { grant with leaseExpiresMs := lease } }, f)
  | release (token : Nat) : Step c now (m, f) (m.releaseGrant token, f)
  | expire :
    Step c now (m, f)
      ({ m with queue := m.queue.retain fun _ w => waiterIsLive w.waitExpiresMs now }, f)
  | cancel (mem : m.queue.get i = some waiter) (cancels : c.CancelsLock i waiter) :
    Step c now (m, f) ({ m with queue := m.queue.remove i }, f)
  | enqueue (request : c.lockRequest = some input) (keys : canonicalKeys input.keys ≠ [])
    (fresh : m.reacquired? input (canonicalKeys input.keys) = none) :
    Step c now (m, f) (m.enqueue now input (canonicalKeys input.keys), f)
  | grant (request : c.lockRequest = some input) (keys : canonicalKeys input.keys ≠ [])
    (free : m.blocked (canonicalKeys input.keys) = false) (next : f₁.nextToken = some (token, f₂)) :
    Step c now (m, f₁)
      (m.give (newGrant input (canonicalKeys input.keys) token now) now none m.queue.values, f₂)
  | promote (first : m.lockFirstGrantable = some i) (mem : m.queue.get i = some waiter)
    (live : waiterIsLive waiter.waitExpiresMs now) (next : f₁.nextToken = some (token, f₂)) :
    Step c now (m, f₁) (m.promote i waiter token now, f₂)

abbrev Steps (c : Command) (now : Nat) := Relation.ReflTransGen (Step c now)

def QueueLive (m : LockManager) (now : Nat) : Prop :=
  ∀ e ∈ m.queue.entries, waiterIsLive e.2.waitExpiresMs now

variable {c : Command} {now : Nat} {m m₁ m₂ : LockManager} {f f₁ f₂ : FencingCounter}

@[simp]
theorem give_queue : (m.give grant now waiter ahead).queue = m.queue :=
  rfl

@[simp]
theorem promote_queue : (m.promote i waiter token now).queue = m.queue.remove i :=
  rfl

@[simp]
theorem releaseGrant_queue : (m.releaseGrant token).queue = m.queue := by
  simp only [releaseGrant]
  split <;> rfl

theorem QueueLive.remove (l : m.QueueLive now) (i : LockId) :
    QueueLive { m with queue := m.queue.remove i } now :=
  fun e h => l e (IndexedQueue.mem_remove.mp h).left

theorem QueueLive.promote (l : m.QueueLive now) : (m.promote i waiter token now).QueueLive now :=
  l.remove i

theorem QueueLive.releaseGrant (l : m.QueueLive now) : (m.releaseGrant token).QueueLive now := by
  simpa [QueueLive] using l

section Promotion

variable {fuel : Nat}

theorem promoteLoop_steps (l : m.QueueLive now) :
    Steps c now (m, f) ((m.promoteLoop f now fuel).1, (m.promoteLoop f now fuel).2.1) := by
  induction fuel generalizing m f
  case zero => exact .refl
  case succ ih =>
    simp only [promoteLoop]
    split
    case h_1 => exact .refl
    case h_2 i first =>
      split
      case h_1 token f₂ waiter next mem =>
        have live := l (i, waiter) (IndexedQueue.get_eq_some_iff.mp mem)
        exact .head (.promote first mem live next) (ih l.promote)
      case h_2 => exact .refl

theorem promoteLoop_queueLive (l : m.QueueLive now) : (m.promoteLoop f now fuel).1.QueueLive now := by
  induction fuel generalizing m f
  case zero => exact l
  case succ ih =>
    simp only [promoteLoop]
    split
    case h_1 => exact l
    case h_2 =>
      split
      case h_1 => exact ih l.promote
      case h_2 => exact l

end Promotion

theorem release_all_steps (tokens : List Nat) :
    Steps c now (m, f) (tokens.foldl releaseGrant m, f) := by
  induction tokens generalizing m
  case nil => exact .refl
  case cons token tokens ih => exact .head (.release token) ih

theorem release_all_queueLive {tokens : List Nat} (l : m.QueueLive now) :
    (tokens.foldl releaseGrant m).QueueLive now := by
  induction tokens generalizing m
  case nil => exact l
  case cons ih => exact ih l.releaseGrant

theorem retain_queueLive :
    QueueLive { m with queue := m.queue.retain fun _ w => waiterIsLive w.waitExpiresMs now } now :=
  fun _ h => (IndexedQueue.mem_retain.mp h).right

theorem expireDue_steps (o : IterOrder) :
    Steps c now (m, f) ((m.expireDue o f now).1, (m.expireDue o f now).2) :=
  .head .expire <|
    (release_all_steps _).trans (promoteLoop_steps (release_all_queueLive retain_queueLive))

theorem expireDue_queueLive (o : IterOrder) : (m.expireDue o f now).1.QueueLive now :=
  promoteLoop_queueLive (release_all_queueLive retain_queueLive)

theorem applyLockRelease_steps (l : m.QueueLive now) :
    Steps c now (m, f) ((m.applyLockRelease f revision now holder token).1,
      (m.applyLockRelease f revision now holder token).2.1) := by
  simp only [applyLockRelease]
  split
  case h_1 => exact .refl
  case h_2 =>
    split
    case isTrue => exact .refl
    case isFalse => exact .head (.release token) (promoteLoop_steps l.releaseGrant)

theorem applyLockRenew_steps :
    Steps c now (m, f) ((m.applyLockRenew revision now keys holder token ttlMs).1, f) := by
  simp only [applyLockRenew]
  split
  case h_1 => exact .refl
  case h_2 mem =>
    split
    case isTrue => exact .refl
    case isFalse =>
      split
      case isTrue => exact .refl
      case isFalse => exact .single (.renew mem _)

theorem reacquired?_eq_some_iff {input : LockAcquireInput} {keys : List String}
    {token : Nat} {grant : LockGrant} :
    (m.reacquired? input keys = some (token, grant)) ↔
    (∃ key, keys.head? = some key ∧ m.held[key]? = some token ∧ m.grants[token]? = some grant ∧
      grant.holder = input.holder ∧ grant.keys = keys ∧
      (input.legacySemantics ∨ grant.requestId = input.requestId)) := by
  simp only [reacquired?, Option.bind_eq_bind, Option.bind_eq_some_iff]
  grind

variable [External]

theorem applyLockAcquire_steps {input : LockAcquireInput} (request : c.lockRequest = some input) :
    Steps c now (m, f) ((m.applyLockAcquire ledger f revision now input).1,
      (m.applyLockAcquire ledger f revision now input).2.1) := by
  simp only [applyLockAcquire]
  split
  case isTrue => exact .refl
  case isFalse keys =>
    split
    case isTrue => exact .refl
    case isFalse =>
      split
      case h_1 token grant found =>
        obtain ⟨_, _, _, mem, _⟩ := reacquired?_eq_some_iff.mp found
        split
        case isTrue => exact .single (.renew mem _)
        case isFalse => exact .single (.renew mem grant.leaseExpiresMs)
      case h_2 fresh =>
        split
        case isTrue => exact .single (.enqueue request keys fresh)
        case isFalse free =>
          split
          case h_1 => exact .refl
          case h_2 next =>
            exact .single (.grant request keys (Bool.eq_false_iff.mpr free) next)

omit [External] in
theorem cancelQueued_steps {o : IterOrder} {keys : List String} {holder : String}
    {requestId : Option String} (l : m.QueueLive now)
    (cancels : ∀ w : QueuedLock, (requestId = none ∨ w.requestId = requestId) →
      c.CancelsLock (holder, keys) w) :
    Steps c now (m, f) ((m.cancelQueued o f revision now keys holder requestId).1,
      (m.cancelQueued o f revision now keys holder requestId).2.1) := by
  simp only [cancelQueued]
  split
  case isTrue h =>
    have ⟨waiter, mem, hr⟩ := Option.any_eq_true _ _ |>.mp h
    simp only [Option.isNone_iff_eq_none, Bool.or_eq_true, decide_eq_true_eq] at hr
    exact .head (.cancel mem (cancels waiter hr)) (promoteLoop_steps (l.remove _))
  case isFalse =>
    split
    case h_1 => exact .refl
    case h_2 => split <;> exact .refl

theorem applyLockCancel_steps {o : IterOrder} {keys : List String} {holder : String}
    {requestId : Option String} (l : m.QueueLive now)
    (cancels : ∀ w : QueuedLock, (requestId = none ∨ w.requestId = requestId) →
      c.CancelsLock (holder, canonicalKeys keys) w) :
    Steps c now (m, f) ((m.applyLockCancel o ledger f revision now keys holder requestId).1,
      (m.applyLockCancel o ledger f revision now keys holder requestId).2.2.1) := by
  simp only [applyLockCancel]
  split
  case h_1 => exact cancelQueued_steps l cancels
  case h_2 =>
    split
    case h_1 => exact .refl
    case h_2 =>
      split
      case h_1 => exact .refl
      case h_2 => exact cancelQueued_steps l cancels

end LockManager
