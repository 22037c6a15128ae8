import FiduciaNode.State.Store

structure LockWaiter where
  holder        : String
  keys          : List String
  requestedMs   : Nat
  waitExpiresMs : Option Nat

structure LockState where
  key            : String
  holder         : Option String
  fencingToken   : Option Nat
  leaseExpiresMs : Option Nat
  heldKeys       : List String
  waitQueue      : List LockWaiter

structure LockHolding where
  holder         : String
  keys           : List String
  fencingToken   : Nat
  leaseExpiresMs : Nat

structure LockInventory where
  held      : List LockHolding
  waitQueue : List LockWaiter

structure SemaphoreHolder where
  holder         : String
  fencingToken   : Nat
  leaseExpiresMs : Nat

structure SemaphoreState where
  key       : String
  limit     : Nat
  holders   : List SemaphoreHolder
  available : Nat
  waitQueue : List LockWaiter

instance : Serialize LockWaiter where
  toValue w := json [
    ("holder", w.holder), ("keys", w.keys), ("requested_ms", w.requestedMs),
    ("wait_expires_ms", w.waitExpiresMs)
  ]

instance : Serialize LockState where
  toValue l := json [
    ("key", l.key), ("holder", l.holder), ("fencing_token", l.fencingToken),
    ("lease_expires_ms", l.leaseExpiresMs), ("held_keys", l.heldKeys), ("wait_queue", l.waitQueue)
  ]

namespace LockManager

-- A grant that has run out is left out, but neither released nor are the requests behind it promoted.
def lockSnapshotLiveAt (m : LockManager) (key : String) (now : Nat) : LockState :=
  let grant := (m.held[key]?.bind fun token => m.grants[token]?).filter (·.leaseExpiresMs > now)
  let waitQueue := m.queue.iter.filter fun (_, q) =>
    waiterIsLive q.waitExpiresMs now && q.keys.contains key
  {
    key
    holder := grant.map LockGrant.holder
    fencingToken := grant.map LockGrant.fencingToken
    leaseExpiresMs := grant.map LockGrant.leaseExpiresMs
    heldKeys := (grant.map LockGrant.keys).getD []
    waitQueue := waitQueue.map fun (_, q) => {
      holder := q.holder, keys := q.keys, requestedMs := q.requestedMs, waitExpiresMs := q.waitExpiresMs
    }
  }

-- The grants in the order of their tokens, whatever the order of the hash map is.
def lockInventoryLiveAt (o : IterOrder) (m : LockManager) (now : Nat) : LockInventory :=
  let held := m.grants.values o |>.filter (·.leaseExpiresMs > now) |>.map fun grant => {
    holder := grant.holder, keys := grant.keys, fencingToken := grant.fencingToken
    leaseExpiresMs := grant.leaseExpiresMs : LockHolding
  }
  let waitQueue := m.queue.iter.filter fun (_, queued) => waiterIsLive queued.waitExpiresMs now
  {
    held := held.insertionSort (·.fencingToken ≤ ·.fencingToken)
    waitQueue := waitQueue.map fun (_, queued) => {
      holder := queued.holder, keys := queued.keys, requestedMs := queued.requestedMs
      waitExpiresMs := queued.waitExpiresMs
    }
  }

end LockManager

namespace Semaphores

-- A permit that has run out is left out, but the requests behind it stay in the queue.
def semaphoreSnapshotLiveAt (sems : Semaphores) (key : String) (now : Nat) : SemaphoreState :=
  match sems[key]? with
  | none => { key, limit := 0, holders := [], available := 0, waitQueue := [] }
  | some sem => {
      key
      limit := sem.limit
      available := sem.limit - (sem.holders.filter (·.leaseExpiresMs > now)).length
      holders := sem.holders.filter (·.leaseExpiresMs > now) |>.map fun slot => {
        holder := slot.holder, fencingToken := slot.fencingToken, leaseExpiresMs := slot.leaseExpiresMs
      }
      waitQueue := sem.queue.iter.filter (fun (_, q) => waiterIsLive q.waitExpiresMs now) |>.map fun (_, q) => {
        holder := q.holder, keys := [key], requestedMs := q.requestedMs, waitExpiresMs := q.waitExpiresMs
      }
    }

end Semaphores

namespace Store

-- The reads of the store, each at the time `now` of the one who reads.
variable (o : IterOrder) (s : Store) (now : Nat)

def lockGet (key : String) : LockState :=
  s.locks.lockSnapshotLiveAt key now

def semaphoreGet (key : String) : SemaphoreState :=
  s.semaphores.semaphoreSnapshotLiveAt key now

def lockInventory : LockInventory :=
  s.locks.lockInventoryLiveAt o now

def barrierGet (name : String) : Option BarrierState :=
  s.barriers[name]?.map (·.view o name now)

def taskGet (name : String) : Option TaskState :=
  s.tasks[name]?.map (·.view name)

def effectGet (name : String) : Option EffectState :=
  s.effects[name]?.map (·.view name)

def handoffGet (name : String) : Option HandoffState :=
  s.handoffs[name]?.map (·.view name now)

def decisionGet (name : String) : Option DecisionState :=
  s.decisions[name]?.map (·.view name now)

def budgetGet (name : String) : Option BudgetState :=
  s.budgets[name]?.map (·.view name)

def claimGet (name : String) : Option ClaimState :=
  s.claims[name]?.map (·.view name)

end Store
