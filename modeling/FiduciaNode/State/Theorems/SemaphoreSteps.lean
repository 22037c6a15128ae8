import FiduciaNode.State.Apply
import FiduciaNode.State.Theorems.Fencing

namespace Command

def semaphoreRequest : Command → Option SemaphoreAcquireInput
  | .semaphoreAcquire key holder limit ttlMs wait waitTimeoutMs => some {
      key, holder, limit, ttlMs, wait, waitTimeoutMs, requestId := none, legacySemantics := true
    }
  | .semaphoreAcquireV2 key holder limit ttlMs wait waitTimeoutMs => some {
      key, holder, limit, ttlMs, wait, waitTimeoutMs, requestId := none, legacySemantics := false
    }
  | .semaphoreAcquireAttempt key holder requestId limit ttlMs wait waitTimeoutMs => some {
      key, holder, limit, ttlMs, wait, waitTimeoutMs, requestId := some requestId
      legacySemantics := false
    }
  | _ => none

-- The command cancels the request `w` of `holder` that is queued at the semaphore `key`.
def CancelsPermit (key holder : String) (w : QueuedPermit) : Command → Prop
  | .semaphoreCancel key' holder' => key = key' ∧ holder = holder'
  | .semaphoreCancelAttempt key' holder' requestId =>
    key = key' ∧ holder = holder' ∧ w.requestId = some requestId
  | _ => False

end Command

namespace Semaphores

abbrev Table := Semaphores × FencingCounter

-- Everything that a command with the timestamp `now` can do to the semaphores and the counter.
inductive Step (c : Command) (now : Nat) : Table → Table → Prop
  | mint (step : FencingCounter.Step f₁ f₂) : Step c now (sems, f₁) (sems, f₂)
  | sweep : Step c now (sems, f) (sems.sweep now, f)
  | renew (mem : sems[key]? = some sem) (holders : sem.holders = before ++ slot :: after)
    (lease : Nat) :
    Step c now (sems, f) (sems.insert key
      { sem with holders := before ++ { slot with leaseExpiresMs := lease } :: after }, f)
  | release (mem : sems[key]? = some sem) (keep : SemaphoreSlot → Bool) :
    Step c now (sems, f) (sems.insert key { sem with holders := sem.holders.filter keep }, f)
  | cancel (mem : sems[key]? = some sem) (queued : sem.queue.get holder = some waiter)
    (cancels : c.CancelsPermit key holder waiter) :
    Step c now (sems, f) (sems.insert key { sem with queue := sem.queue.remove holder }, f)
  | enter (request : c.semaphoreRequest = some input) :
    Step c now (sems, f) (sems.insert input.key (sems.entry input), f)
  | enqueue (request : c.semaphoreRequest = some input) (mem : sems[input.key]? = some sem)
    (fresh : ∀ slot ∈ sem.holders, slot.holder = input.holder → slot.requestId ≠ input.requestId)
    (full : sem.limit ≤ sem.holders.length ∨ ¬sem.queue.isEmpty) :
    Step c now (sems, f) (sems.insert input.key (Semaphores.enqueue sem now input), f)
  | grant (request : c.semaphoreRequest = some input) (mem : sems[input.key]? = some sem)
    (fresh : ∀ slot ∈ sem.holders, slot.holder = input.holder → slot.requestId ≠ input.requestId)
    (free : sem.holders.length < sem.limit) (empty : sem.queue.isEmpty) (lease : Nat)
    (next : f₁.nextToken = some (token, f₂)) :
    Step c now (sems, f₁) (sems.insert input.key { sem with holders := sem.holders ++ [{
      holder := input.holder, fencingToken := token, leaseExpiresMs := lease
      requestId := input.requestId }] }, f₂)
  | promote (mem : sems[key]? = some sem) (free : sem.promotable)
    (front : sem.queue.front = some (holder, waiter))
    (live : waiterIsLive waiter.waitExpiresMs now) (next : f₁.nextToken = some (token, f₂)) :
    Step c now (sems, f₁) (sems.insert key (sem.admitted waiter token now), f₂)

abbrev Steps (c : Command) (now : Nat) := Relation.ReflTransGen (Step c now)

def QueuesLive (sems : Semaphores) (now : Nat) : Prop :=
  ∀ (key : String) sem, sems[key]? = some sem →
    ∀ e ∈ sem.queue.entries, waiterIsLive e.2.waitExpiresMs now

variable {c : Command} {now : Nat} {sems sems₁ sems₂ : Semaphores} {f f₁ f₂ : FencingCounter}
variable {sem : Semaphore} {key holder : String}

theorem QueuesLive.insert (l : sems.QueuesLive now)
    (h : ∀ e ∈ sem.queue.entries, waiterIsLive e.2.waitExpiresMs now) :
    QueuesLive (sems.insert key sem) now := by
  intro key' sem' mem
  simp only [HashMap.get_insert] at mem
  split at mem
  case isTrue => exact Option.some.inj mem ▸ h
  case isFalse => exact l key' sem' mem

theorem sweep_queuesLive : (sems.sweep now).QueuesLive now := by
  intro key sem mem e h
  simp only [sweep, Std.ExtTreeMap.getElem?_map, Option.map_eq_some_iff] at mem
  have ⟨_, _, hs⟩ := mem
  subst hs
  exact (IndexedQueue.mem_retain.mp h).right

section Promotion

theorem front_mem {q : IndexedQueue κ ν} {e : κ × ν} (h : q.front = some e) : e ∈ q.entries :=
  List.mem_of_mem_head? h

theorem popFront_subset {q : IndexedQueue κ ν} : q.popFront.entries ⊆ q.entries :=
  List.tail_subset _

theorem promoteLoop_steps (mem : sems[key]? = some sem)
    (l : ∀ e ∈ sem.queue.entries, waiterIsLive e.2.waitExpiresMs now) :
    Steps c now (sems, f)
      (sems.insert key (sem.promoteLoop f now fuel).1, (sem.promoteLoop f now fuel).2.1) := by
  induction fuel generalizing sems sem f
  case zero => simpa [Semaphore.promoteLoop, HashMap.insert_eq_self mem] using .refl
  case succ fuel ih =>
    simp only [Semaphore.promoteLoop]
    split
    case isTrue => simpa [HashMap.insert_eq_self mem] using .refl
    case isFalse free =>
      split
      case h_2 => simpa [HashMap.insert_eq_self mem] using .refl
      case h_1 token f₂ holder waiter next front =>
        have step : Step c now (sems, f) (sems.insert key (sem.admitted waiter token now), f₂) :=
          .promote mem (by simpa using free) front (l _ (front_mem front)) next
        have mem' : (sems.insert key (sem.admitted waiter token now))[key]? =
            some (sem.admitted waiter token now) := by simp
        have rest : Steps c now (sems.insert key (sem.admitted waiter token now), f₂) _ :=
          ih mem' fun e h => l e (popFront_subset h)
        rw [HashMap.insert_insert_self] at rest
        exact .head step rest

theorem promoteLoop_live (l : ∀ e ∈ sem.queue.entries, waiterIsLive e.2.waitExpiresMs now) :
    ∀ e ∈ (sem.promoteLoop f now fuel).1.queue.entries, waiterIsLive e.2.waitExpiresMs now := by
  induction fuel generalizing sem f
  case zero => exact l
  case succ ih =>
    simp only [Semaphore.promoteLoop]
    split
    case isTrue => exact l
    case isFalse =>
      split
      case h_1 => exact ih fun e h => l e (popFront_subset h)
      case h_2 => exact l

theorem semaphorePromote_steps (l : sems.QueuesLive now) :
    Steps c now (sems, f)
      ((sems.semaphorePromote f key now).1, (sems.semaphorePromote f key now).2.1) := by
  simp only [semaphorePromote]
  split
  case h_1 => exact .refl
  case h_2 sem mem => exact promoteLoop_steps mem (l key sem mem)

theorem semaphorePromote_queuesLive (l : sems.QueuesLive now) :
    (sems.semaphorePromote f key now).1.QueuesLive now := by
  simp only [semaphorePromote]
  split
  case h_1 => exact l
  case h_2 sem mem => exact l.insert (promoteLoop_live (l key sem mem))

end Promotion

theorem promote_all_steps (keys : List String) (l : sems.QueuesLive now) :
    Steps c now (sems, f) (keys.foldl (fun (sems, f) key =>
      ((semaphorePromote sems f key now).1, (semaphorePromote sems f key now).2.1)) (sems, f)) := by
  induction keys generalizing sems f
  case nil => exact .refl
  case cons key keys ih =>
    exact (semaphorePromote_steps l).trans (ih (semaphorePromote_queuesLive l))

theorem promote_all_queuesLive (keys : List String) (l : sems.QueuesLive now) :
    QueuesLive (keys.foldl (fun (sems, f) key =>
      ((semaphorePromote sems f key now).1, (semaphorePromote sems f key now).2.1)) (sems, f)).1
      now := by
  induction keys generalizing sems f
  case nil => exact l
  case cons key keys ih => exact ih (semaphorePromote_queuesLive l)

theorem expireDue_steps (o : IterOrder) : Steps c now (sems, f) (sems.expireDue o f now) :=
  .head .sweep (promote_all_steps _ sweep_queuesLive)

theorem expireDue_queuesLive (o : IterOrder) : (sems.expireDue o f now).1.QueuesLive now :=
  promote_all_queuesLive _ sweep_queuesLive

theorem applySemaphoreRenew_steps :
    Steps c now (sems, f) ((sems.applySemaphoreRenew revision now key holder token ttlMs).1, f) := by
  simp only [applySemaphoreRenew]
  split
  case h_1 => exact .refl
  case h_2 sem mem =>
    split
    case h_1 => exact .refl
    case h_2 before slot after h =>
      split
      case isTrue => exact .refl
      case isFalse =>
        have : sem.holders = before ++ slot :: after := by
          rw [List.span_eq_takeWhile_dropWhile] at h
          have ⟨hb, ha⟩ := Prod.mk.inj h
          rw [← hb, ← ha, List.takeWhile_append_dropWhile]
        exact .single (.renew mem this _)

theorem applySemaphoreRelease_steps (l : sems.QueuesLive now) :
    Steps c now (sems, f) ((sems.applySemaphoreRelease f revision now key holder token).1,
      (sems.applySemaphoreRelease f revision now key holder token).2.1) := by
  simp only [applySemaphoreRelease]
  split
  case h_1 => exact .refl
  case h_2 sem mem =>
    split
    case isTrue => exact .refl
    case isFalse =>
      exact .head (.release mem _) (semaphorePromote_steps (l.insert (l key sem mem)))

theorem acquireFrom_steps {input : SemaphoreAcquireInput}
    (request : c.semaphoreRequest = some input) :
    Steps c now (sems, f) ((sems.acquireFrom (sems.entry input) f revision now input).1,
      (sems.acquireFrom (sems.entry input) f revision now input).2.1) := by
  have mem : (sems.insert input.key (sems.entry input))[input.key]? = some (sems.entry input) := by
    simp
  simp only [acquireFrom]
  split
  case h_1 => exact .single (.enter request)
  case h_2 none =>
    have fresh : ∀ slot ∈ (sems.entry input).holders,
        slot.holder = input.holder → slot.requestId ≠ input.requestId := by
      intro slot h hh hr
      simpa [hh, hr] using List.find?_eq_none.mp none slot h
    split
    case isTrue free =>
      simp only [Bool.and_eq_true, decide_eq_true_eq] at free
      split
      case h_1 => exact .single (.enter request)
      case h_2 next =>
        have step : Step c now _ _ :=
          .grant request mem fresh free.1 free.2 (U64.saturatingAdd now input.ttlMs) next
        rw [HashMap.insert_insert_self] at step
        exact .head (.enter request) (.single step)
    case isFalse full =>
      simp only [Bool.and_eq_true, decide_eq_true_eq, not_and_or, not_lt] at full
      have step : Step c now (_, f) _ := .enqueue request mem fresh full
      rw [HashMap.insert_insert_self] at step
      exact .head (.enter request) (.single step)

theorem cancelQueued_steps {requestId : Option String} (l : sems.QueuesLive now)
    (cancels : ∀ w : QueuedPermit, (requestId = none ∨ w.requestId = requestId) →
      c.CancelsPermit key holder w) :
    Steps c now (sems, f) ((sems.cancelQueued f revision now key holder requestId).1,
      (sems.cancelQueued f revision now key holder requestId).2.1) := by
  simp only [cancelQueued]
  split
  case h_1 sem h =>
    have ⟨mem, queued⟩ := Option.filter_eq_some_iff.mp h
    have ⟨waiter, queued, hr⟩ := Option.any_eq_true _ _ |>.mp queued
    simp only [Option.isNone_iff_eq_none, Bool.or_eq_true, decide_eq_true_eq] at hr
    refine .head (.cancel mem queued (cancels waiter hr)) (semaphorePromote_steps (l.insert ?_))
    exact fun e h => l key sem mem e (IndexedQueue.mem_remove.mp h).left
  case h_2 =>
    split
    case h_1 => exact .refl
    case h_2 => split <;> exact .refl

variable [External]

theorem applySemaphoreAcquire_steps {input : SemaphoreAcquireInput}
    (request : c.semaphoreRequest = some input) :
    Steps c now (sems, f) ((sems.applySemaphoreAcquire ledger f revision now input).1,
      (sems.applySemaphoreAcquire ledger f revision now input).2.1) := by
  simp only [applySemaphoreAcquire]
  split
  case isTrue => exact .refl
  case isFalse =>
    split
    case h_1 => exact .refl
    case h_2 => exact acquireFrom_steps request

theorem applySemaphoreCancel_steps {requestId : Option String} (l : sems.QueuesLive now)
    (cancels : ∀ w : QueuedPermit, (requestId = none ∨ w.requestId = requestId) →
      c.CancelsPermit key holder w) :
    Steps c now (sems, f) ((sems.applySemaphoreCancel ledger f revision now key holder requestId).1,
      (sems.applySemaphoreCancel ledger f revision now key holder requestId).2.2.1) := by
  simp only [applySemaphoreCancel]
  split
  case h_1 => exact cancelQueued_steps l cancels
  case h_2 =>
    split
    case h_1 => exact .refl
    case h_2 =>
      split
      case h_1 => exact .refl
      case h_2 => exact cancelQueued_steps l cancels

end Semaphores
