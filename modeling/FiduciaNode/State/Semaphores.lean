import FiduciaNode.State.Locks

structure SemaphoreSlot where
  holder         : String
  fencingToken   : Nat
  leaseExpiresMs : Nat
  requestId      : Option String
  deriving DecidableEq

structure QueuedPermit where
  holder        : String
  ttlMs         : Nat
  requestedMs   : Nat
  waitExpiresMs : Option Nat
  requestId     : Option String
  deriving DecidableEq

structure Semaphore where
  limit   : Nat
  holders : List SemaphoreSlot
  queue   : IndexedQueue String QueuedPermit

abbrev Semaphores := HashMap String Semaphore

structure SemaphoreAcquireInput where
  key             : String
  holder          : String
  limit           : Nat
  ttlMs           : Nat
  wait            : Bool
  waitTimeoutMs   : Option Nat
  requestId       : Option String
  legacySemantics : Bool

namespace Semaphore

def available (s : Semaphore) : Nat :=
  s.limit - s.holders.length

-- There is a free permit and someone waits for it.
def promotable (s : Semaphore) : Bool :=
  s.holders.length < s.limit && !s.queue.isEmpty

def admitted (s : Semaphore) (waiter : QueuedPermit) (token now : Nat) : Semaphore :=
  { s with
    queue := s.queue.popFront
    holders := s.holders ++ [{
      holder := waiter.holder, fencingToken := token
      leaseExpiresMs := U64.saturatingAdd now waiter.ttlMs, requestId := waiter.requestId
    }]
  }

def promotion (waiter : QueuedPermit) (token now : Nat) : Value :=
  json [
    ("holder", waiter.holder), ("fencing_token", token),
    ("lease_expires_ms", U64.saturatingAdd now waiter.ttlMs)
  ]

-- Each iteration takes a waiter from the queue, so its length bounds the number of iterations.
def promoteLoop (s : Semaphore) (fencing : FencingCounter) (now : Nat) :
    (fuel : Nat) → Semaphore × FencingCounter × List Value
  | 0 => (s, fencing, [])
  | fuel + 1 =>
    if !s.promotable then (s, fencing, []) else
      match fencing.nextToken, s.queue.front with
      | some (token, fencing), some (_, waiter) =>
        let (s, fencing, promoted) := (s.admitted waiter token now).promoteLoop fencing now fuel
        (s, fencing, promotion waiter token now :: promoted)
      | _, _ => (s, fencing, [])

def promote (s : Semaphore) (fencing : FencingCounter) (now : Nat) :
    Semaphore × FencingCounter × List Value :=
  s.promoteLoop fencing now s.queue.len

-- What is left of the semaphore once the due waiters and permits are gone.
def sweep (s : Semaphore) (now : Nat) : Semaphore :=
  { s with
    queue := s.queue.retain fun _ w => waiterIsLive w.waitExpiresMs now
    holders := s.holders.filter (·.leaseExpiresMs > now)
  }

end Semaphore

namespace Semaphores

def semaphorePromote (sems : Semaphores) (fencing : FencingCounter) (key : String) (now : Nat) :
    Semaphores × FencingCounter × List Value :=
  match sems[key]? with
  | none => (sems, fencing, [])
  | some sem =>
    let (sem, fencing, promoted) := sem.promote fencing now
    (sems.insert key sem, fencing, promoted)

-- The semaphores are visited in the order of the hash map.
def semaphoresPromote (o : IterOrder) (sems : Semaphores) (fencing : FencingCounter) (now : Nat) :
    Semaphores × FencingCounter :=
  sems.keys o |>.foldl (fun (sems, fencing) key =>
    let (sems, fencing, _) := sems.semaphorePromote fencing key now
    (sems, fencing)) (sems, fencing)

def sweep (sems : Semaphores) (now : Nat) : Semaphores :=
  sems.map fun _ sem => sem.sweep now

def expireDue (o : IterOrder) (sems : Semaphores) (fencing : FencingCounter) (now : Nat) :
    Semaphores × FencingCounter :=
  (sems.sweep now).semaphoresPromote o fencing now

section Acquire

-- Only a legacy acquire sets the limit of a semaphore that exists.
def entry (sems : Semaphores) (input : SemaphoreAcquireInput) : Semaphore :=
  let limit := if input.legacySemantics then max input.limit 1 else input.limit
  match sems[input.key]? with
  | none => { limit, holders := [], queue := .empty }
  | some sem => if input.legacySemantics then { sem with limit } else sem

def acquired
    (sem : Semaphore) (slot : SemaphoreSlot) (renewed : Option Bool) (key : String)
    (revision : Nat) : Value :=
  json <| List.append [("acquired", true), ("queued", false)] <|
    (renewed.toList.map fun r => ("renewed", toValue r)) ++ [
      ("key", toValue key), ("holder", toValue slot.holder),
      ("fencing_token", toValue slot.fencingToken),
      ("lease_expires_ms", toValue slot.leaseExpiresMs), ("available", toValue sem.available),
      ("limit", toValue sem.limit), ("revision", toValue revision)
    ]

def enqueue (sem : Semaphore) (now : Nat) (input : SemaphoreAcquireInput) : Semaphore :=
  if input.wait && !sem.queue.contains input.holder then
    let waiter : QueuedPermit := {
      holder := input.holder, ttlMs := input.ttlMs, requestedMs := now
      waitExpiresMs :=
        if input.legacySemantics then none else
          some (U64.saturatingAdd now (input.waitTimeoutMs.getD defaultWaitTimeoutMs))
      requestId := input.requestId
    }
    { sem with queue := sem.queue.pushBack input.holder waiter }
  else sem

def queued (sem : Semaphore) (revision : Nat) (input : SemaphoreAcquireInput)
    (identityInUse : Bool) : Value :=
  let position := if identityInUse then none else sem.queue.position input.holder |>.map (· + 1)
  let waitExpiresMs :=
    if identityInUse then none else sem.queue.get input.holder |>.bind (·.waitExpiresMs)
  json [
    ("acquired", false),
    ("queued", if input.legacySemantics then input.wait && position.isSome else position.isSome),
    ("position", position), ("wait_expires_ms", waitExpiresMs), ("key", input.key),
    ("holder", input.holder), ("limit", sem.limit), ("available", (0 : Nat)), ("revision", revision)
  ]

-- The acquire of a permit from the semaphore that is stored under the key by now.
def acquireFrom
    (sems : Semaphores) (sem : Semaphore) (fencing : FencingCounter) (revision now : Nat)
    (input : SemaphoreAcquireInput) : Semaphores × FencingCounter × Value :=
  match sem.holders.find? fun slot =>
    slot.holder = input.holder && (input.legacySemantics || slot.requestId = input.requestId) with
  | some slot =>
    (sems.insert input.key sem, fencing, acquired sem slot (some false) input.key revision)
  | none =>
    if sem.holders.length < sem.limit && sem.queue.isEmpty then
      match fencing.nextToken with
      | none => (sems.insert input.key sem, fencing, json [
          ("acquired", false), ("queued", false), ("reason", "fencing_tokens_exhausted"),
          ("key", input.key), ("holder", input.holder), ("revision", revision)
        ])
      | some (token, fencing) =>
        let slot : SemaphoreSlot := {
          holder := input.holder, fencingToken := token
          leaseExpiresMs := U64.saturatingAdd now input.ttlMs, requestId := input.requestId
        }
        let sem := { sem with holders := sem.holders ++ [slot] }
        (sems.insert input.key sem, fencing, acquired sem slot none input.key revision)
    else
      let already := sem.queue.get input.holder |>.any (·.requestId = input.requestId)
      let identityInUse := sem.queue.contains input.holder && !already
      let sem := enqueue sem now input
      (sems.insert input.key sem, fencing, queued sem revision input identityInUse)

variable [External]

def applySemaphoreAcquire
    (sems : Semaphores) (cancellations : CancellationLedger) (fencing : FencingCounter)
    (revision now : Nat) (input : SemaphoreAcquireInput) : Semaphores × FencingCounter × Value :=
  if input.requestId.any fun requestId =>
    cancellations.contains (acquisitionIdentity "semaphore" input.holder [input.key] requestId)
  then
    (sems, fencing, json [
      ("acquired", false), ("queued", false), ("position", .null), ("wait_expires_ms", .null),
      ("key", input.key), ("holder", input.holder), ("limit", input.limit),
      ("available", (0 : Nat)), ("revision", revision)
    ])
  else
    match sems[input.key]?.filter fun sem => !input.legacySemantics && sem.limit ≠ input.limit with
    | some existing => (sems, fencing, json [
        ("acquired", false), ("queued", false), ("reason", "limit_mismatch"), ("key", input.key),
        ("holder", input.holder), ("requested_limit", input.limit), ("limit", existing.limit),
        ("revision", revision)
      ])
    | none => sems.acquireFrom (sems.entry input) fencing revision now input

end Acquire

def applySemaphoreRenew
    (sems : Semaphores) (revision now : Nat) (key holder : String) (fencingToken ttlMs : Nat) :
    Semaphores × Value :=
  let refusal (reason : String) := json [
    ("renewed", false), ("reason", reason), ("revision", revision)
  ]
  match sems[key]? with
  | none => (sems, refusal "not_found")
  | some sem =>
    match sem.holders.span (·.fencingToken ≠ fencingToken) with
    | (_, []) => (sems, refusal "not_found")
    | (before, slot :: after) =>
      if slot.holder ≠ holder then (sems, refusal "not_holder") else
        let slot := { slot with
          leaseExpiresMs := max slot.leaseExpiresMs (U64.saturatingAdd now ttlMs)
        }
        (sems.insert key { sem with holders := before ++ slot :: after }, json [
          ("renewed", true), ("key", key), ("holder", holder), ("fencing_token", fencingToken),
          ("lease_expires_ms", slot.leaseExpiresMs), ("revision", revision)
        ])

def applySemaphoreRelease
    (sems : Semaphores) (fencing : FencingCounter) (revision now : Nat) (key holder : String)
    (fencingToken : Nat) : Semaphores × FencingCounter × Value :=
  let refusal (reason : String) := json [
    ("released", false), ("reason", reason), ("revision", revision)
  ]
  match sems[key]? with
  | none => (sems, fencing, refusal "not_found")
  | some sem =>
    let holders := sem.holders.filter fun slot =>
      !(slot.fencingToken = fencingToken && slot.holder = holder)
    if holders.length = sem.holders.length then (sems, fencing, refusal "not_holder") else
      let sems : Semaphores := sems.insert key { sem with holders }
      let (sems, fencing, promoted) := sems.semaphorePromote fencing key now
      (sems, fencing, json [
        ("released", true), ("key", key), ("promoted", promoted), ("revision", revision)
      ])

section Cancel

def raced (slot : SemaphoreSlot) (key holder : String) (revision : Nat) : Value :=
  json [
    ("cancelled", false), ("acquired", true), ("key", key), ("holder", holder),
    ("fencing_token", slot.fencingToken), ("lease_expires_ms", slot.leaseExpiresMs),
    ("promoted", .array []), ("revision", revision)
  ]

def slotOf? (sems : Semaphores) (key holder : String) (requestId : Option String) :
    Option SemaphoreSlot := do
  let sem ← sems[key]?
  sem.holders.find? fun slot =>
    slot.holder = holder && (requestId.isNone || slot.requestId = requestId)

def cancelQueued
    (sems : Semaphores) (fencing : FencingCounter) (revision now : Nat) (key holder : String)
    (requestId : Option String) : Semaphores × FencingCounter × Value :=
  match sems[key]?.filter fun sem => (sem.queue.get holder).any fun queued =>
    requestId.isNone || queued.requestId = requestId with
  | some sem =>
    let sems : Semaphores := sems.insert key { sem with queue := sem.queue.remove holder }
    let (sems, fencing, promoted) := sems.semaphorePromote fencing key now
    (sems, fencing, json [
      ("cancelled", true), ("acquired", false), ("key", key), ("holder", holder),
      ("promoted", promoted), ("revision", revision)
    ])
  | none =>
    match sems.slotOf? key holder requestId with
    | some slot => (sems, fencing, raced slot key holder revision)
    | none =>
      if requestId.isSome then
        (sems, fencing, json [
          ("cancelled", true), ("acquired", false), ("key", key), ("holder", holder),
          ("promoted", .array []), ("revision", revision)
        ])
      else
        (sems, fencing, json [
          ("cancelled", false), ("acquired", false), ("reason", "not_found"), ("key", key),
          ("holder", holder), ("promoted", .array []), ("revision", revision)
        ])

variable [External]

def applySemaphoreCancel
    (sems : Semaphores) (cancellations : CancellationLedger) (fencing : FencingCounter)
    (revision now : Nat) (key holder : String) (requestId : Option String) :
    Semaphores × CancellationLedger × FencingCounter × Value :=
  match requestId with
  | none =>
    let (sems, fencing, answer) := sems.cancelQueued fencing revision now key holder none
    (sems, cancellations, fencing, answer)
  | some request =>
    match sems.slotOf? key holder requestId with
    | some slot => (sems, cancellations, fencing, raced slot key holder revision)
    | none =>
      let identity := acquisitionIdentity "semaphore" holder [key] request
      match cancellations.remember identity (cancellationTenant holder) now with
      | (cancellations, .capacityExceeded) => (sems, cancellations, fencing, json [
          ("cancelled", false), ("acquired", false), ("reason", "cancellation_capacity"),
          ("key", key), ("holder", holder), ("promoted", .array []), ("revision", revision)
        ])
      | (cancellations, .remembered) =>
        let (sems, fencing, answer) := sems.cancelQueued fencing revision now key holder requestId
        (sems, cancellations, fencing, answer)

end Cancel

end Semaphores
