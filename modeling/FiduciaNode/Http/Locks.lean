import FiduciaNode.OrgScope

-- What the handlers propose for a request, or the rejection with which they answer it.

namespace Http.Locks

structure AcquireBody where
  keys          : Option (List String)
  key           : Option String
  holder        : Option String
  requestId     : Option String
  ttlMs         : Option Nat
  wait          : Option Bool
  waitTimeoutMs : Option Nat

structure RenewBody where
  keys         : Option (List String)
  key          : Option String
  holder       : String
  fencingToken : Nat
  ttlMs        : Option Nat

structure ReleaseBody where
  holder       : String
  fencingToken : Nat

structure CancelBody where
  keys      : Option (List String)
  key       : Option String
  holder    : String
  requestId : Option String

def defaultTtlMs : Nat := 30000

def keysOf (keys : Option (List String)) (key : Option String) : List String :=
  keys <|> key.map ([·]) |>.getD []

variable [External]

-- The validation has seen that there is a holder.
def acquire (org : OrgScope) (keys : List String) (body : AcquireBody) : Command :=
  let scopedKeys := org.scopeAll keys
  let scopedHolder := org.scope (body.holder.getD "")
  match body.requestId with
  | some requestId =>
    .lockAcquireAttempt scopedKeys scopedHolder requestId (body.ttlMs.getD defaultTtlMs)
      (body.wait.getD false) body.waitTimeoutMs
  | none =>
    .lockAcquireV2 scopedKeys scopedHolder (body.ttlMs.getD defaultTtlMs) (body.wait.getD false)
      body.waitTimeoutMs

def acquireUnion (org : OrgScope) (body : AcquireBody) : Except Rejection Command :=
  let keys := keysOf body.keys body.key
  if keys = [] then .error Validate.noKeys else do
    Validate.lockAcquire keys body.holder body.ttlMs body.waitTimeoutMs
    Validate.acquisitionRequestId body.requestId
    .ok (acquire org keys body)

def renewToken (org : OrgScope) (body : RenewBody) : Except Rejection Command := do
  let keys := keysOf body.keys body.key
  Validate.lockRenew keys body.holder body.fencingToken body.ttlMs
  .ok (.lockRenew (org.scopeAll keys) (org.scope body.holder) body.fencingToken
    (body.ttlMs.getD defaultTtlMs))

def releaseToken (org : OrgScope) (body : ReleaseBody) : Except Rejection Command := do
  Validate.lockRelease body.holder
  Validate.validateFencingToken body.fencingToken
  .ok (.lockRelease (org.scope body.holder) body.fencingToken)

def cancelWaiter (org : OrgScope) (body : CancelBody) : Except Rejection Command := do
  let keys := keysOf body.keys body.key
  Validate.lockCancel keys body.holder
  Validate.acquisitionRequestId body.requestId
  match body.requestId with
  | some requestId =>
    .ok (.lockCancelAttempt (org.scopeAll keys) (org.scope body.holder) requestId)
  | none => .ok (.lockCancel (org.scopeAll keys) (org.scope body.holder))

inductive Request
  | acquire (body : AcquireBody)
  | renew (body : RenewBody)
  | release (body : ReleaseBody)
  | cancel (body : CancelBody)

def handle (org : OrgScope) : Request → Except Rejection Command
  | .acquire body => acquireUnion org body
  | .renew body => renewToken org body
  | .release body => releaseToken org body
  | .cancel body => cancelWaiter org body

end Http.Locks

namespace Http.Handoffs

structure OfferBody where
  name      : String
  resource  : String
  fromOwner : String
  toOwner   : String
  fromToken : Nat
  context   : Value
  ttlMs     : Option Nat

variable [External]

def offer (org : OrgScope) (body : OfferBody) : Except Rejection Command := do
  Validate.handoff body.name (some body.fromOwner) (some body.toOwner)
  .ok (.handoffOffer (org.scope body.name) body.resource body.fromOwner body.toOwner body.fromToken
    body.context (body.ttlMs.getD 30000))

end Http.Handoffs
