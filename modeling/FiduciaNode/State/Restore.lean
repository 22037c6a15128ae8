import FiduciaNode.Primitives.Result
import FiduciaNode.State.Store
import FiduciaNode.Validate

namespace Store

-- Every token that a record of the store carries, in the order in which they are looked at.
def referencedTokens (s : Store) : List Nat :=
  (s.locks.grants.toList.flatMap fun (token, grant) => [token, grant.fencingToken]) ++
  s.locks.held.toList.map Prod.snd ++
  (s.semaphores.toList.flatMap fun (_, sem) => sem.holders.map (·.fencingToken)) ++
  s.idempotency.toList.map (·.2.fencingToken) ++
  s.elections.toList.map (·.2.fencingToken) ++
  s.tasks.toList.map (·.2.fencingToken) ++
  (s.handoffs.toList.flatMap fun (_, h) => h.fromToken :: h.toToken.toList)

def maxReferencedFencingToken (s : Store) : Nat :=
  s.referencedTokens.foldl max 0

def validateFencing (s : Store) : Except String Unit :=
  let floor := s.maxReferencedFencingToken
  let next := s.fencing.nextFencingToken
  if floor > maxFencingToken then
    .error s!"highest referenced fencing token {floor} exceeds the supported maximum {maxFencingToken}"
  else if next > maxFencingToken then
    .error s!"next_fencing_token {next} exceeds the supported maximum {maxFencingToken}"
  else if next < floor then
    .error <| s!"next_fencing_token {next} is below the highest referenced fencing token {floor}; " ++
      "restoring would re-mint issued tokens"
  else .ok ()

end Store

def invalidRequestId (requestId : Option String) : Bool :=
  requestId.any fun r =>
    Validate.isBlankOrControl r || r.utf8ByteSize > Validate.maxRequestIdBytes

def invalidKey (key : String) : Bool :=
  key = "" || key.utf8ByteSize > Validate.maxKeyBytes

def invalidKeySet (keys : List String) : Bool :=
  keys = [] || keys.length > Validate.maxLockKeys || canonicalKeys keys ≠ keys ||
  keys.any invalidKey

-- A waiter cannot ask for a lease that the validation of its request refuses, and it does not
-- stop waiting before it starts.
def invalidWait (ttlMs requestedMs : Nat) (waitExpiresMs : Option Nat) : Bool :=
  ttlMs = 0 || ttlMs > maxTtlMs || waitExpiresMs.any (· < requestedMs)

namespace LockManager

def validateHeld (m : LockManager) (key : String) (token : Nat) : Except String Unit :=
  match m.grants[token]? with
  | none => .error s!"held lock key '{key}' references missing grant token {token}"
  | some grant =>
    if grant.keys.contains key then .ok () else
      .error s!"held lock key '{key}' is absent from grant token {token}'s key set"

def validateGrantKey (m : LockManager) (token : Nat) (key : String) : Except String Unit :=
  if m.held[key]? ≠ some token
  then .error s!"lock grant {token} claims key '{key}' that is not held by it"
  else .ok ()

variable [External]

def validateGrant (m : LockManager) (token : Nat) (grant : LockGrant) : Except String Unit :=
  let carried := grant.fencingToken
  if token = 0 || carried ≠ token then
    .error s!"lock grant indexed at token {token} carries fencing_token {carried}"
  else if !Validate.validStoredHolder grant.holder then
    .error s!"lock grant {token} carries an invalid holder"
  else if invalidKeySet grant.keys then
    .error s!"lock grant {token} carries a non-canonical or invalid key set"
  else if invalidRequestId grant.requestId then
    .error s!"lock grant {token} carries an invalid request id"
  else grant.keys.forM (m.validateGrantKey token)

def validateQueued (o : IterOrder) (m : LockManager) (id : LockId) (queued : QueuedLock) :
    Except String Unit :=
  if id.1 ≠ queued.holder || id.2 ≠ queued.keys then
    .error "lock queue index does not match its queued request"
  else if
    !Validate.validStoredHolder queued.holder || invalidKeySet queued.keys ||
    invalidWait queued.ttlMs queued.requestedMs queued.waitExpiresMs ||
    invalidRequestId queued.requestId
  then .error "lock queue carries an invalid request"
  else if (m.grants.values o).any fun grant =>
    grant.holder = queued.holder && grant.keys = queued.keys && grant.requestId = queued.requestId
  then .error "the same lock acquisition attempt is both granted and queued"
  else .ok ()

def validateRestored (o : IterOrder) (m : LockManager) : Except String Unit := do
  (m.held.iter o).forM fun (key, token) => m.validateHeld key token
  (m.grants.iter o).forM fun (token, grant) => m.validateGrant token grant
  m.queue.iter.forM fun (id, queued) => m.validateQueued o id queued

end LockManager

namespace Semaphore

variable [External]

-- The holders and tokens seen so far are collected on the way.
def validateSlots (key : String) (holders : List String) (tokens : List Nat) :
    List SemaphoreSlot → Except String (List String)
  | [] => .ok holders
  | slot :: slots =>
    if
      !Validate.validStoredHolder slot.holder || slot.fencingToken = 0 ||
      holders.contains slot.holder || tokens.contains slot.fencingToken ||
      invalidRequestId slot.requestId
    then .error s!"semaphore '{key}' carries an invalid holder"
    else validateSlots key (slot.holder :: holders) (slot.fencingToken :: tokens) slots

def validateQueued (key : String) (holders : List String) (indexed : String)
    (queued : QueuedPermit) : Except String Unit :=
  if
    indexed ≠ queued.holder || !Validate.validStoredHolder queued.holder ||
    holders.contains queued.holder ||
    invalidWait queued.ttlMs queued.requestedMs queued.waitExpiresMs ||
    invalidRequestId queued.requestId
  then .error s!"semaphore '{key}' carries an invalid queued waiter"
  else .ok ()

def validateRestored (key : String) (sem : Semaphore) : Except String Unit :=
  if
    invalidKey key || sem.limit = 0 || sem.limit > Validate.maxSemaphoreLimit ||
    sem.holders.length > sem.limit
  then .error s!"semaphore '{key}' carries an invalid limit or key"
  else do
    let holders ← validateSlots key [] [] sem.holders
    sem.queue.iter.forM fun (indexed, queued) => validateQueued key holders indexed queued

end Semaphore

namespace Semaphores

def validateRestored [External] (o : IterOrder) (sems : Semaphores) : Except String Unit :=
  (sems.iter o).forM fun (key, sem) => sem.validateRestored key

end Semaphores

namespace CancellationLedger

-- Counts the entries of each tenant.
def validateEntries (l : CancellationLedger) (label : String) (counts : HashMap String Nat) :
    List (String × CancellationEntry) → Except String (HashMap String Nat)
  | [] => .ok counts
  | (identity, entry) :: entries =>
    if l.expirations[entry.expiresAtMs]?.any (·.contains identity)
    then validateEntries l label
      (counts.insert entry.tenant (counts[entry.tenant]?.getD 0 + 1)) entries
    else .error s!"{label} cancellation '{identity}' is absent from expiry index"

def validateCount (label : String) (counts : HashMap String Nat) (tenant : String) (count : Nat) :
    Except String Unit :=
  if counts[tenant]?.getD 0 ≠ count
  then .error s!"{label} cancellation tenant count is inconsistent"
  else .ok ()

def validate (o : IterOrder) (l : CancellationLedger) (label : String) : Except String Unit := do
  let counts ← l.validateEntries label ∅ (l.entries.iter o)
  (l.tenantCounts.iter o).forM fun (tenant, count) => validateCount label counts tenant count
  if counts.size ≠ l.tenantCounts.size
  then .error s!"{label} cancellation tenant index is incomplete"
  else .ok ()

end CancellationLedger

namespace Store

def validateProtocol (s : Store) : Except String Unit :=
  let protocol := s.commandProtocol
  if Command.legacyCommandProtocol ≤ protocol && protocol ≤ Command.currentCommandProtocol
  then .ok ()
  else .error s!"unsupported state-machine command protocol {protocol}"

def validateRestored [External] (o : IterOrder) (s : Store) : Except String Unit := do
  s.validateProtocol
  s.validateFencing
  s.locks.validateRestored o
  s.semaphores.validateRestored o
  s.lockCancellations.validate o "lock"
  s.semaphoreCancellations.validate o "semaphore"

end Store

section Image

-- A snapshot once it is parsed. Its queues are sequences of pairs, and its semaphores are listed in
-- the order of the document.
structure LockImage where
  held   : HashMap String Nat
  grants : HashMap Nat LockGrant
  queue  : List (LockId × QueuedLock)

structure SemaphoreImage where
  limit   : Nat
  holders : List SemaphoreSlot
  queue   : List (String × QueuedPermit)

structure StoreImage where
  commandProtocol        : Nat
  revision               : Nat
  nextFencingToken       : Nat
  kv                     : Kv
  counters               : Counters
  barriers               : Barriers
  tasks                  : Tasks
  effects                : Effects
  handoffs               : Handoffs
  decisions              : Decisions
  budgets                : Budgets
  claims                 : Claims
  locks                  : LockImage
  semaphores             : List (String × SemaphoreImage)
  lockCancellations      : CancellationLedger
  semaphoreCancellations : CancellationLedger
  rateLimits             : RateLimits
  idempotency            : Idempotency
  elections              : Elections
  schedules              : Schedules
  services               : Services

-- The parser, which fills in the fields that a document lacks.
class SnapshotCodec where
  fromSlice : List UInt8 → Except String StoreImage

end Image

namespace IndexedQueue

variable {κ ν : Type} [DecidableEq κ]

def visitSeq (q : IndexedQueue κ ν) : List (κ × ν) → Except String (IndexedQueue κ ν)
  | [] => .ok q
  | (k, v) :: rest =>
    if q.contains k
    then .error "duplicate key in serialized IndexedQueue"
    else (q.pushBack k v).visitSeq rest

def deserialize (entries : List (κ × ν)) : Except String (IndexedQueue κ ν) :=
  empty.visitSeq entries

end IndexedQueue

namespace LockImage

def deserialize (i : LockImage) : Except String LockManager := do
  let queue ← IndexedQueue.deserialize i.queue
  return { held := i.held, grants := i.grants, queue, granted := [] }

end LockImage

namespace SemaphoreImage

def deserialize (i : SemaphoreImage) : Except String Semaphore := do
  let queue ← IndexedQueue.deserialize i.queue
  return { limit := i.limit, holders := i.holders, queue }

end SemaphoreImage

namespace StoreImage

def semaphoresFrom (sems : Semaphores) : List (String × SemaphoreImage) → Except String Semaphores
  | [] => .ok sems
  | (key, image) :: rest => do
    let sem ← image.deserialize
    semaphoresFrom (sems.insert key sem) rest

-- The history of a restored store starts with it.
def deserialize (i : StoreImage) : Except String Store := do
  let locks ← i.locks.deserialize
  let semaphores ← semaphoresFrom ∅ i.semaphores
  return {
    commandProtocol := i.commandProtocol
    revision := i.revision
    fencing := { nextFencingToken := i.nextFencingToken, minted := [] }
    kv := i.kv
    counters := i.counters
    barriers := i.barriers
    tasks := i.tasks
    effects := i.effects
    handoffs := i.handoffs
    decisions := i.decisions
    budgets := i.budgets
    claims := i.claims
    locks := locks
    semaphores := semaphores
    lockCancellations := i.lockCancellations
    semaphoreCancellations := i.semaphoreCancellations
    rateLimits := i.rateLimits
    idempotency := i.idempotency
    elections := i.elections
    schedules := i.schedules
    services := i.services
  }

end StoreImage

namespace Store

def previousProtocolSnapshotMagic : List UInt8 :=
  bytesOf "FIDUCIA-STATE-MACHINE\x00V2\n"

def currentProtocolSnapshotMagic : List UInt8 :=
  bytesOf "FIDUCIA-STATE-MACHINE\x00V3\n"

-- The protocol with which the snapshot is stamped, and what follows the stamp.
def stripStamp (bytes : List UInt8) : Option Nat × List UInt8 :=
  match bytes.dropPrefix? currentProtocolSnapshotMagic with
  | some payload => (some Command.currentCommandProtocol, payload)
  | none =>
    match bytes.dropPrefix? previousProtocolSnapshotMagic with
    | some payload => (some Command.lockCommandProtocol, payload)
    | none => (none, bytes)

def expectedStamp (commandProtocol : Nat) : Option Nat :=
  if commandProtocol = Command.lockCommandProtocol then some Command.lockCommandProtocol
  else if commandProtocol = Command.currentCommandProtocol then some Command.currentCommandProtocol
  else none

variable [External] [SnapshotCodec]

-- The store of a snapshot that is fit to become live.
def decodeSnapshot (o : IterOrder) (bytes : List UInt8) : Except String Store := do
  let (stamp, payload) := stripStamp bytes
  let image ← SnapshotCodec.fromSlice payload
  let restored ← image.deserialize
  if stamp ≠ expectedStamp restored.commandProtocol then
    .error "state-machine command protocol and snapshot compatibility stamp disagree"
  else do
    restored.validateRestored o
    .ok restored

-- The live store after the attempt to replace it, and what the attempt returns.
def restore (o : IterOrder) (live : Store) (bytes : List UInt8) : Store × Except String Unit :=
  match decodeSnapshot o bytes with
  | .error e => (live, .error e)
  | .ok restored => (restored, .ok ())

end Store
