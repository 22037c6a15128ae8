import FiduciaNode.Http.Locks

-- The fields of a body that may be left out have the value that they are then given.

namespace Http.Barriers

structure CreateBody where
  name       : String
  policy     : BarrierPolicy
  expected   : Nat := 1
  deadlineMs : Option Nat

structure ArriveBody where
  name        : String
  participant : String
  weight      : Nat := 1
  veto        : Bool := false

variable [External]

def create (org : OrgScope) (body : CreateBody) : Except Rejection Command := do
  Validate.barrier body.name
  .ok (.barrierCreate (org.scope body.name) body.policy body.expected body.deadlineMs)

def arrive (org : OrgScope) (body : ArriveBody) : Except Rejection Command := do
  Validate.barrierArrive body.name body.participant body.weight
  .ok (.barrierArrive (org.scope body.name) body.participant body.weight body.veto)

inductive Request
  | create (body : CreateBody)
  | arrive (body : ArriveBody)

def handle (org : OrgScope) : Request → Except Rejection Command
  | .create body => create org body
  | .arrive body => arrive org body

end Http.Barriers

namespace Http.Tasks

structure CreateBody where
  name       : String
  taskType   : String
  payload    : Value := .null
  deadlineMs : Option Nat

structure ClaimBody where
  name   : String
  worker : String
  ttlMs  : Option Nat

structure ProgressBody where
  name         : String
  worker       : String
  fencingToken : Nat
  percent      : Nat := 0
  checkpoint   : Value := .null

structure CompleteBody where
  name         : String
  worker       : String
  fencingToken : Nat
  result       : Value := .null

structure FailBody where
  name         : String
  worker       : String
  fencingToken : Nat
  retryable    : Bool := false

structure CancelBody where
  name : String

variable [External]

def create (org : OrgScope) (body : CreateBody) : Except Rejection Command := do
  Validate.task body.name none
  .ok (.taskCreate (org.scope body.name) body.taskType body.payload body.deadlineMs)

def claim (org : OrgScope) (body : ClaimBody) : Except Rejection Command := do
  Validate.task body.name (some body.worker)
  .ok (.taskClaim (org.scope body.name) body.worker (body.ttlMs.getD 60000))

def progress (org : OrgScope) (body : ProgressBody) : Except Rejection Command := do
  Validate.task body.name (some body.worker)
  .ok (.taskProgress (org.scope body.name) body.worker body.fencingToken body.percent body.checkpoint)

def complete (org : OrgScope) (body : CompleteBody) : Except Rejection Command := do
  Validate.task body.name (some body.worker)
  .ok (.taskComplete (org.scope body.name) body.worker body.fencingToken body.result)

def fail (org : OrgScope) (body : FailBody) : Except Rejection Command := do
  Validate.task body.name (some body.worker)
  .ok (.taskFail (org.scope body.name) body.worker body.fencingToken body.retryable)

def cancel (org : OrgScope) (body : CancelBody) : Except Rejection Command := do
  Validate.task body.name none
  .ok (.taskCancel (org.scope body.name))

inductive Request
  | create (body : CreateBody)
  | claim (body : ClaimBody)
  | progress (body : ProgressBody)
  | complete (body : CompleteBody)
  | fail (body : FailBody)
  | cancel (body : CancelBody)

def handle (org : OrgScope) : Request → Except Rejection Command
  | .create body => create org body
  | .claim body => claim org body
  | .progress body => progress org body
  | .complete body => complete org body
  | .fail body => fail org body
  | .cancel body => cancel org body

end Http.Tasks

namespace Http.Effects

structure PrepareBody where
  name              : String
  effectType        : String
  payload           : Value := .null
  risk              : String := "medium"
  idempotencyKey    : String
  requiredApprovals : Nat := 0

structure ApproveBody where
  name      : String
  principal : String

structure CommitBody where
  name   : String
  result : Value := .null

structure NameBody where
  name : String

variable [External]

def prepare (org : OrgScope) (body : PrepareBody) : Except Rejection Command := do
  Validate.effect body.name none
  .ok (.effectPrepare (org.scope body.name) body.effectType body.payload body.risk
    (org.scope body.idempotencyKey) body.requiredApprovals)

def approve (org : OrgScope) (body : ApproveBody) : Except Rejection Command := do
  Validate.effect body.name (some body.principal)
  .ok (.effectApprove (org.scope body.name) body.principal)

def commit (org : OrgScope) (body : CommitBody) : Except Rejection Command := do
  Validate.effect body.name none
  .ok (.effectCommit (org.scope body.name) body.result)

def abort (org : OrgScope) (body : NameBody) : Except Rejection Command := do
  Validate.effect body.name none
  .ok (.effectAbort (org.scope body.name))

inductive Request
  | prepare (body : PrepareBody)
  | approve (body : ApproveBody)
  | commit (body : CommitBody)
  | abort (body : NameBody)

def handle (org : OrgScope) : Request → Except Rejection Command
  | .prepare body => prepare org body
  | .approve body => approve org body
  | .commit body => commit org body
  | .abort body => abort org body

end Http.Effects

namespace Http.Handoffs

structure DecisionBody where
  name    : String
  toOwner : String

variable [External]

def accept (org : OrgScope) (body : DecisionBody) : Except Rejection Command := do
  Validate.handoff body.name none (some body.toOwner)
  .ok (.handoffAccept (org.scope body.name) body.toOwner)

def reject (org : OrgScope) (body : DecisionBody) : Except Rejection Command := do
  Validate.handoff body.name none (some body.toOwner)
  .ok (.handoffReject (org.scope body.name) body.toOwner)

inductive Request
  | offer (body : OfferBody)
  | accept (body : DecisionBody)
  | reject (body : DecisionBody)

def handle (org : OrgScope) : Request → Except Rejection Command
  | .offer body => offer org body
  | .accept body => accept org body
  | .reject body => reject org body

end Http.Handoffs

namespace Http.Decisions

structure ProposeBody where
  name       : String
  question   : String
  options    : List String
  policy     : DecisionPolicy
  deadlineMs : Option Nat

structure VoteBody where
  name       : String
  voter      : String
  option     : Option String := none
  confidence : Float32 := 0
  weight     : Nat := 1
  veto       : Bool := false
  evidence   : List String := []

variable [External]

def propose (org : OrgScope) (body : ProposeBody) : Except Rejection Command := do
  Validate.decision body.name none
  .ok (.decisionPropose (org.scope body.name) body.question body.options body.policy body.deadlineMs)

def vote (org : OrgScope) (body : VoteBody) : Except Rejection Command := do
  Validate.decisionVote body.name body.voter body.weight
  .ok (.decisionVote (org.scope body.name) body.voter body.option body.confidence body.weight body.veto
    body.evidence)

inductive Request
  | propose (body : ProposeBody)
  | vote (body : VoteBody)

def handle (org : OrgScope) : Request → Except Rejection Command
  | .propose body => propose org body
  | .vote body => vote org body

end Http.Decisions

namespace Http.Budgets

structure SetBody where
  name  : String
  limit : BudgetAmount

structure ReserveBody where
  name          : String
  reservationId : String
  holder        : String
  amount        : BudgetAmount

structure CommitBody where
  name          : String
  reservationId : String
  actual        : BudgetAmount

structure ReleaseBody where
  name          : String
  reservationId : String

variable [External]

def set (org : OrgScope) (body : SetBody) : Except Rejection Command := do
  Validate.budget body.name none none
  Validate.budgetAmount body.limit
  .ok (.budgetSet (org.scope body.name) body.limit)

def reserve (org : OrgScope) (body : ReserveBody) : Except Rejection Command := do
  Validate.budget body.name (some body.reservationId) (some body.holder)
  Validate.budgetAmount body.amount
  .ok (.budgetReserve (org.scope body.name) body.reservationId (org.scope body.holder) body.amount)

def commit (org : OrgScope) (body : CommitBody) : Except Rejection Command := do
  Validate.budget body.name (some body.reservationId) none
  Validate.budgetAmount body.actual
  .ok (.budgetCommit (org.scope body.name) body.reservationId body.actual)

def release (org : OrgScope) (body : ReleaseBody) : Except Rejection Command := do
  Validate.budget body.name (some body.reservationId) none
  .ok (.budgetRelease (org.scope body.name) body.reservationId)

inductive Request
  | set (body : SetBody)
  | reserve (body : ReserveBody)
  | commit (body : CommitBody)
  | release (body : ReleaseBody)

def handle (org : OrgScope) : Request → Except Rejection Command
  | .set body => set org body
  | .reserve body => reserve org body
  | .commit body => commit org body
  | .release body => release org body

end Http.Budgets

namespace Http.Claims

structure AssertBody where
  name         : String
  subject      : String
  predicate    : String
  value        : Value := .null
  confidence   : Float32 := 0
  author       : String
  evidence     : List String := []
  validUntilMs : Option Nat

structure SupportBody where
  name  : String
  agent : String

structure ContestBody where
  name   : String
  agent  : String
  reason : String := ""

structure ResolveBody where
  name     : String
  accepted : Bool

structure SupersedeBody where
  name         : String
  supersededBy : String

variable [External]

def assert (org : OrgScope) (body : AssertBody) : Except Rejection Command := do
  Validate.claim body.name (some body.author)
  .ok (.claimAssert (org.scope body.name) body.subject body.predicate body.value body.confidence body.author
    body.evidence body.validUntilMs)

def support (org : OrgScope) (body : SupportBody) : Except Rejection Command := do
  Validate.claim body.name (some body.agent)
  .ok (.claimSupport (org.scope body.name) body.agent)

def contest (org : OrgScope) (body : ContestBody) : Except Rejection Command := do
  Validate.claim body.name (some body.agent)
  .ok (.claimContest (org.scope body.name) body.agent body.reason)

def resolve (org : OrgScope) (body : ResolveBody) : Except Rejection Command := do
  Validate.claim body.name none
  .ok (.claimResolve (org.scope body.name) body.accepted)

-- The claim that supersedes this one is not validated.
def supersede (org : OrgScope) (body : SupersedeBody) : Except Rejection Command := do
  Validate.claim body.name none
  .ok (.claimSupersede (org.scope body.name) (org.scope body.supersededBy))

inductive Request
  | assert (body : AssertBody)
  | support (body : SupportBody)
  | contest (body : ContestBody)
  | resolve (body : ResolveBody)
  | supersede (body : SupersedeBody)

def handle (org : OrgScope) : Request → Except Rejection Command
  | .assert body => assert org body
  | .support body => support org body
  | .contest body => contest org body
  | .resolve body => resolve org body
  | .supersede body => supersede org body

end Http.Claims

namespace Http

-- A request that changes the store, by the route that it comes in on.
inductive Write
  | locks (request : Locks.Request)
  | barriers (request : Barriers.Request)
  | tasks (request : Tasks.Request)
  | effects (request : Effects.Request)
  | handoffs (request : Handoffs.Request)
  | decisions (request : Decisions.Request)
  | budgets (request : Budgets.Request)
  | claims (request : Claims.Request)

variable [External]

def Write.handle (org : OrgScope) : Write → Except Rejection Command
  | locks request => Locks.handle org request
  | barriers request => Barriers.handle org request
  | tasks request => Tasks.handle org request
  | effects request => Effects.handle org request
  | handoffs request => Handoffs.handle org request
  | decisions request => Decisions.handle org request
  | budgets request => Budgets.handle org request
  | claims request => Claims.handle org request

end Http
