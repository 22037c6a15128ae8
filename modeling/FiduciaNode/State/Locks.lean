import FiduciaNode.Primitives.IndexedQueue
import FiduciaNode.State.Cancellation
import FiduciaNode.State.Fencing

structure LockGrant where
  holder         : String
  keys           : List String
  fencingToken   : Nat
  leaseExpiresMs : Nat
  requestId      : Option String
  deriving DecidableEq

structure QueuedLock where
  holder        : String
  keys          : List String
  ttlMs         : Nat
  requestedMs   : Nat
  waitExpiresMs : Option Nat
  requestId     : Option String
  deriving DecidableEq

-- A grant at the moment it is given: the time of the command, the queued request if there was one,
-- and the requests that were queued before this one and are still queued.
structure GrantEvent where
  grant  : LockGrant
  now    : Nat
  waiter : Option QueuedLock
  ahead  : List QueuedLock
  deriving DecidableEq

abbrev LockId := String × List String

-- `granted` is a history variable: the grants given so far, the latest first. Nothing reads it.
@[ext]
structure LockManager where
  held    : HashMap String Nat
  grants  : HashMap Nat LockGrant
  queue   : IndexedQueue LockId QueuedLock
  granted : List GrantEvent

structure LockAcquireInput where
  keys            : List String
  holder          : String
  ttlMs           : Nat
  wait            : Bool
  waitTimeoutMs   : Option Nat
  requestId       : Option String
  legacySemantics : Bool

def defaultWaitTimeoutMs : Nat := 30000

-- Two spellings of one key set have the same canonical form.
def canonicalKeys (keys : List String) : List String :=
  keys.filter (· ≠ "") |>.insertionSort (· ≤ ·) |>.destutter (· ≠ ·)

-- Requests without a deadline are those of legacy commands.
def waiterIsLive (waitExpiresMs : Option Nat) (now : Nat) : Bool :=
  waitExpiresMs.all (· > now)

namespace LockManager

def empty : LockManager where
  held    := ∅
  grants  := ∅
  queue   := .empty
  granted := []

def installGrant (m : LockManager) (grant : LockGrant) : LockManager :=
  { m with
    held := grant.keys.foldl (fun held key => held.insert key grant.fencingToken) m.held
    grants := m.grants.insert grant.fencingToken grant
  }

def releaseGrant (m : LockManager) (fencingToken : Nat) : LockManager :=
  match m.grants[fencingToken]? with
  | none => m
  | some grant => { m with
      grants := m.grants.erase fencingToken
      held := grant.keys.foldl
        (fun held key => if held[key]? = some fencingToken then held.erase key else held) m.held
    }

-- The first queued request none of whose keys is held or wanted by a request before it.
def firstGrantable (held : HashMap String Nat) (reserved : List String) :
    List (LockId × QueuedLock) → Option LockId
  | [] => none
  | (id, q) :: rest =>
    if q.keys.any fun k => held.contains k || reserved.contains k
    then firstGrantable held (reserved ++ q.keys) rest
    else some id

def lockFirstGrantable (m : LockManager) : Option LockId :=
  firstGrantable m.held [] m.queue.iter

-- Installs a grant and records how it was given.
def give (m : LockManager) (grant : LockGrant) (now : Nat) (waiter : Option QueuedLock)
    (ahead : List QueuedLock) : LockManager :=
  { m with granted := { grant, now, waiter, ahead } :: m.granted }.installGrant grant

-- Grants a queued request, which then leaves the queue.
def promote (m : LockManager) (id : LockId) (waiter : QueuedLock) (token now : Nat) : LockManager :=
  let grant : LockGrant := {
    holder := waiter.holder, keys := waiter.keys, fencingToken := token
    leaseExpiresMs := U64.saturatingAdd now waiter.ttlMs, requestId := waiter.requestId
  }
  let ahead := m.queue.iter.takeWhile (·.1 ≠ id) |>.map Prod.snd
  { m with queue := m.queue.remove id }.give grant now (some waiter) ahead

def promotion (waiter : QueuedLock) (token now : Nat) : Value :=
  json [
    ("holder", waiter.holder), ("keys", waiter.keys), ("fencing_token", token),
    ("lease_expires_ms", U64.saturatingAdd now waiter.ttlMs)
  ]

-- The loop ends when no request is grantable or the tokens are exhausted. Each iteration removes a
-- request from the queue, so its length bounds the number of iterations.
def promoteLoop (m : LockManager) (fencing : FencingCounter) (now : Nat) :
    (fuel : Nat) → LockManager × FencingCounter × List Value
  | 0 => (m, fencing, [])
  | fuel + 1 =>
    match m.lockFirstGrantable with
    | none => (m, fencing, [])
    | some id =>
      match fencing.nextToken, m.queue.get id with
      | some (token, fencing), some waiter =>
        let (m, fencing, promoted) := (m.promote id waiter token now).promoteLoop fencing now fuel
        (m, fencing, promotion waiter token now :: promoted)
      | _, _ => (m, fencing, [])

def lockPromote (m : LockManager) (fencing : FencingCounter) (now : Nat) :
    LockManager × FencingCounter × List Value :=
  m.promoteLoop fencing now m.queue.len

-- Queue deadlines come first, then leases, then the promotion of what they unblock.
def expireDue (o : IterOrder) (m : LockManager) (fencing : FencingCounter) (now : Nat) :
    LockManager × FencingCounter :=
  let m := { m with queue := m.queue.retain fun _ w => waiterIsLive w.waitExpiresMs now }
  let expired := m.grants.iter o |>.filter (·.2.leaseExpiresMs ≤ now) |>.map Prod.fst
  let m := expired.foldl releaseGrant m
  let (m, fencing, _) := m.lockPromote fencing now
  (m, fencing)

section Acquire

-- The grant that answers a repeated acquire. Only the owner of the first key is looked at, and a
-- legacy acquire does not look at the request.
def reacquired? (m : LockManager) (input : LockAcquireInput) (keys : List String) :
    Option (Nat × LockGrant) := do
  let token ← m.held[← keys.head?]?
  let grant ← m.grants[token]?
  if grant.holder = input.holder && grant.keys = keys &&
    (input.legacySemantics || grant.requestId = input.requestId)
  then some (token, grant) else none

def blocked (m : LockManager) (keys : List String) : Bool :=
  keys.any m.held.contains || keys.any fun k => m.queue.values.any (·.keys.contains k)

-- The grant of a request that is not blocked.
def newGrant (input : LockAcquireInput) (keys : List String) (token now : Nat) : LockGrant where
  holder         := input.holder
  keys           := keys
  fencingToken   := token
  leaseExpiresMs := U64.saturatingAdd now input.ttlMs
  requestId      := input.requestId

def acquired
    (grant : LockGrant) (renewed : Option Bool) (token revision : Nat) : Value :=
  json <| List.append [("acquired", true), ("queued", false)] <|
    (renewed.toList.map fun r => ("renewed", toValue r)) ++ [
      ("keys", toValue grant.keys), ("holder", toValue grant.holder),
      ("fencing_token", toValue token), ("lease_expires_ms", toValue grant.leaseExpiresMs),
      ("revision", toValue revision)
    ]

-- An acquire that finds its own attempt in the queue leaves it there as it is.
def enqueue (m : LockManager) (now : Nat) (input : LockAcquireInput) (keys : List String) :
    LockManager :=
  let id := (input.holder, keys)
  if input.wait && !m.queue.contains id then
    let waiter : QueuedLock := {
      holder := input.holder, keys, ttlMs := input.ttlMs, requestedMs := now
      waitExpiresMs :=
        if input.legacySemantics then none else
          some (U64.saturatingAdd now (input.waitTimeoutMs.getD defaultWaitTimeoutMs))
      requestId := input.requestId
    }
    { m with queue := m.queue.pushBack id waiter }
  else m

def queued (m : LockManager) (revision : Nat) (input : LockAcquireInput) (keys : List String)
    (identityInUse : Bool) : Value :=
  let id := (input.holder, keys)
  let position := if identityInUse then none else m.queue.position id |>.map (· + 1)
  let waitExpiresMs := if identityInUse then none else m.queue.get id |>.bind (·.waitExpiresMs)
  json [
    ("acquired", false),
    ("queued", if input.legacySemantics then input.wait && position.isSome else position.isSome),
    ("position", position), ("wait_expires_ms", waitExpiresMs), ("keys", keys),
    ("holder", input.holder), ("conflicts", keys.filter m.held.contains), ("revision", revision)
  ]

variable [External]

def applyLockAcquire
    (m : LockManager) (cancellations : CancellationLedger) (fencing : FencingCounter)
    (revision now : Nat) (input : LockAcquireInput) : LockManager × FencingCounter × Value :=
  let keys := canonicalKeys input.keys
  if keys = [] then
    (m, fencing, json [("acquired", false), ("reason", "no_keys"), ("revision", revision)])
  else if input.requestId.any fun requestId =>
    cancellations.contains (acquisitionIdentity "lock" input.holder keys requestId)
  then
    (m, fencing, json [
      ("acquired", false), ("queued", false), ("position", .null), ("wait_expires_ms", .null),
      ("keys", keys), ("holder", input.holder), ("conflicts", .array []), ("revision", revision)
    ])
  else
    match m.reacquired? input keys with
    | some (token, grant) =>
      let grant :=
        if input.legacySemantics then
          { grant with
            leaseExpiresMs := max grant.leaseExpiresMs (U64.saturatingAdd now input.ttlMs) }
        else grant
      (
        { m with grants := m.grants.insert token grant }, fencing,
        acquired grant (some input.legacySemantics) token revision
      )
    | none =>
      if m.blocked keys then
        let id := (input.holder, keys)
        let already := m.queue.get id |>.any (·.requestId = input.requestId)
        let identityInUse := m.queue.contains id && !already
        let m := m.enqueue now input keys
        (m, fencing, m.queued revision input keys identityInUse)
      else
        match fencing.nextToken with
        | none => (m, fencing, json [
            ("acquired", false), ("queued", false), ("reason", "fencing_tokens_exhausted"),
            ("keys", keys), ("holder", input.holder), ("revision", revision)
          ])
        | some (token, fencing) =>
          let grant := newGrant input keys token now
          (m.give grant now none m.queue.values, fencing, acquired grant none token revision)

end Acquire

def applyLockRenew
    (m : LockManager) (revision now : Nat) (keys : List String) (holder : String)
    (fencingToken ttlMs : Nat) : LockManager × Value :=
  let keys := canonicalKeys keys
  let refusal (reason : String) := json [
    ("renewed", false), ("reason", reason), ("revision", revision)
  ]
  match m.grants[fencingToken]? with
  | none => (m, refusal "not_found")
  | some grant =>
    if grant.holder ≠ holder then (m, refusal "not_holder")
    else if grant.keys ≠ keys then (m, refusal "key_mismatch")
    else
      let grant := { grant with
        leaseExpiresMs := max grant.leaseExpiresMs (U64.saturatingAdd now ttlMs)
      }
      ({ m with grants := m.grants.insert fencingToken grant }, json [
        ("renewed", true), ("keys", keys), ("holder", holder), ("fencing_token", fencingToken),
        ("lease_expires_ms", grant.leaseExpiresMs), ("revision", revision)
      ])

def applyLockRelease
    (m : LockManager) (fencing : FencingCounter) (revision now : Nat) (holder : String)
    (fencingToken : Nat) : LockManager × FencingCounter × Value :=
  let refusal (reason : String) := json [
    ("released", false), ("reason", reason), ("revision", revision)
  ]
  match m.grants[fencingToken]? with
  | none => (m, fencing, refusal "not_found")
  | some grant =>
    if grant.holder ≠ holder then (m, fencing, refusal "not_holder") else
      let (m, fencing, promoted) := (m.releaseGrant fencingToken).lockPromote fencing now
      (m, fencing, json [
        ("released", true), ("keys", grant.keys), ("promoted", promoted), ("revision", revision)
      ])

section Cancel

-- The answer of a cancellation that found its attempt granted.
def raced (grant : LockGrant) (keys : List String) (holder : String) (revision : Nat) : Value :=
  json [
    ("cancelled", false), ("acquired", true), ("keys", keys), ("holder", holder),
    ("fencing_token", grant.fencingToken), ("lease_expires_ms", grant.leaseExpiresMs),
    ("promoted", .array []), ("revision", revision)
  ]

def grantOf? (o : IterOrder) (m : LockManager) (holder : String) (keys : List String)
    (requestId : Option String) : Option LockGrant :=
  m.grants.values o |>.find? fun grant =>
    grant.holder = holder && grant.keys = keys &&
    (requestId.isNone || grant.requestId = requestId)

-- Removes the queued attempt and promotes what it was blocking.
def cancelQueued
    (o : IterOrder) (m : LockManager) (fencing : FencingCounter) (revision now : Nat)
    (keys : List String) (holder : String) (requestId : Option String) :
    LockManager × FencingCounter × Value :=
  let id := (holder, keys)
  let queuedMatches := m.queue.get id |>.any fun queued =>
    requestId.isNone || queued.requestId = requestId
  if queuedMatches then
    let (m, fencing, promoted) :=
      { m with queue := m.queue.remove id }.lockPromote fencing now
    (m, fencing, json [
      ("cancelled", true), ("acquired", false), ("keys", keys), ("holder", holder),
      ("promoted", promoted), ("revision", revision)
    ])
  else
    match m.grantOf? o holder keys requestId with
    | some grant => (m, fencing, raced grant keys holder revision)
    | none =>
      if requestId.isSome then
        (m, fencing, json [
          ("cancelled", true), ("acquired", false), ("keys", keys), ("holder", holder),
          ("promoted", .array []), ("revision", revision)
        ])
      else
        (m, fencing, json [
          ("cancelled", false), ("acquired", false), ("reason", "not_found"), ("keys", keys),
          ("holder", holder), ("promoted", .array []), ("revision", revision)
        ])

variable [External]

def applyLockCancel
    (o : IterOrder) (m : LockManager) (cancellations : CancellationLedger)
    (fencing : FencingCounter) (revision now : Nat) (keys : List String) (holder : String)
    (requestId : Option String) : LockManager × CancellationLedger × FencingCounter × Value :=
  let keys := canonicalKeys keys
  match requestId with
  | none =>
    let (m, fencing, answer) := m.cancelQueued o fencing revision now keys holder none
    (m, cancellations, fencing, answer)
  | some request =>
    match m.grantOf? o holder keys requestId with
    | some grant => (m, cancellations, fencing, raced grant keys holder revision)
    | none =>
      let identity := acquisitionIdentity "lock" holder keys request
      match cancellations.remember identity (cancellationTenant holder) now with
      | (cancellations, .capacityExceeded) => (m, cancellations, fencing, json [
          ("cancelled", false), ("acquired", false), ("reason", "cancellation_capacity"),
          ("keys", keys), ("holder", holder), ("promoted", .array []), ("revision", revision)
        ])
      | (cancellations, .remembered) =>
        let (m, fencing, answer) := m.cancelQueued o fencing revision now keys holder requestId
        (m, cancellations, fencing, answer)

end Cancel

end LockManager
