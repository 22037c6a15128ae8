import FiduciaNode.Http.Theorems.Answers
import FiduciaNode.Http.Theorems.LockAnswers
import FiduciaNode.State.Theorems.Frames

theorem Except.toOption_eq_some_iff {ε α : Type} {x : Except ε α} {a : α} : x.toOption = some a ↔ x = .ok a := by
  cases x <;> simp [Except.toOption]

namespace Command

variable [External] {org : OrgScope} {c c' : Command}

-- The organization asks for the command: the keys and names in it are scoped.
def AskedBy (org : OrgScope) : Command → Prop
  | barrierCreate name .. | barrierArrive name .. | taskCreate name .. | taskClaim name ..
  | taskProgress name .. | taskComplete name .. | taskFail name .. | taskCancel name | effectApprove name ..
  | effectCommit name .. | effectAbort name | handoffOffer name .. | handoffAccept name ..
  | handoffReject name .. | decisionPropose name .. | decisionVote name .. | budgetSet name ..
  | budgetCommit name .. | budgetRelease name .. | claimAssert name .. | claimSupport name ..
  | claimContest name .. | claimResolve name .. => ∃ caller, name = org.scope caller
  | effectPrepare name _ _ _ key _ => (∃ caller, name = org.scope caller) ∧ ∃ caller, key = org.scope caller
  | budgetReserve name _ holder _ => (∃ caller, name = org.scope caller) ∧ ∃ caller, holder = org.scope caller
  | claimSupersede name by' => (∃ caller, name = org.scope caller) ∧ ∃ caller, by' = org.scope caller
  | lockAcquire keys holder .. | lockAcquireV2 keys holder .. | lockAcquireAttempt keys holder ..
  | lockRenew keys holder .. | lockCancel keys holder | lockCancelAttempt keys holder _ =>
    LockManager.OwnedBy org holder keys
  | lockRelease holder _ => ∃ caller, holder = org.scope caller
  | _ => False

theorem AskedBy.forActiveProtocol (asked : c.AskedBy org) (active : c.forActiveProtocol active = .ok c') :
    c'.AskedBy org := by
  simp only [Command.forActiveProtocol] at active
  split at active
  case isTrue =>
    cases active
    exact asked
  case isFalse =>
    cases c <;> try contradiction
    all_goals
      simp only at active
      split at active <;> cases active
      exact asked

end Command

namespace Http

variable [External] {org : OrgScope} {command : Command}

theorem scopeAll_owned (org : OrgScope) (keys : List String) (holder : String) :
    LockManager.OwnedBy org (org.scope holder) (org.scopeAll keys) where
  holder := ⟨holder, rfl⟩
  keys key mem := by
    have ⟨name, _, eq⟩ := List.mem_map.mp mem
    exact ⟨name, eq.symm⟩

theorem Locks.handle_asked {request : Locks.Request} (accepted : Locks.handle org request = .ok command) :
    command.AskedBy org := by
  cases request
  case acquire body =>
    simp only [handle, acquireUnion, Except.ite_error_eq_ok_iff, Except.seq_eq_ok_iff] at accepted
    cases accepted.2.2.2
    simp only [acquire]
    split <;> exact scopeAll_owned org _ _
  case renew body =>
    simp only [handle, renewToken, Except.seq_eq_ok_iff] at accepted
    cases accepted.2
    exact scopeAll_owned org _ _
  case release body =>
    simp only [handle, releaseToken, Except.seq_eq_ok_iff] at accepted
    cases accepted.2.2
    exact ⟨_, rfl⟩
  case cancel body =>
    simp only [handle, cancelWaiter, Except.seq_eq_ok_iff] at accepted
    obtain ⟨_, _, hc⟩ := accepted
    split at hc <;> cases hc <;> exact scopeAll_owned org _ _

theorem proposed {check : Except Rejection Unit} {c : Command} (accepted : (do check; .ok c) = .ok command)
    (asked : c.AskedBy org) : command.AskedBy org := by
  obtain ⟨_, accepted⟩ := Except.seq_eq_ok_iff.mp accepted
  cases accepted
  exact asked

-- Every other handler proposes, once it has validated the request, a command with scoped names.
theorem Write.handle_asked {write : Write} (accepted : write.handle org = .ok command) : command.AskedBy org := by
  cases write
  case locks request => exact Locks.handle_asked accepted
  case barriers request => cases request <;> exact proposed accepted ⟨_, rfl⟩
  case tasks request => cases request <;> exact proposed accepted ⟨_, rfl⟩
  case handoffs request => cases request <;> exact proposed accepted ⟨_, rfl⟩
  case decisions request => cases request <;> exact proposed accepted ⟨_, rfl⟩
  case effects request =>
    cases request
    case prepare => exact proposed accepted ⟨⟨_, rfl⟩, _, rfl⟩
    all_goals exact proposed accepted ⟨_, rfl⟩
  case budgets request =>
    cases request
    case set => exact proposed (Except.seq_eq_ok_iff.mp accepted).2 ⟨_, rfl⟩
    case reserve => exact proposed (Except.seq_eq_ok_iff.mp accepted).2 ⟨⟨_, rfl⟩, _, rfl⟩
    case commit => exact proposed (Except.seq_eq_ok_iff.mp accepted).2 ⟨_, rfl⟩
    case release => exact proposed accepted ⟨_, rfl⟩
  case claims request =>
    cases request
    case supersede => exact proposed accepted ⟨⟨_, rfl⟩, _, rfl⟩
    all_goals exact proposed accepted ⟨_, rfl⟩

end Http

namespace Store

open OrgScope

variable [External] {s : Store} {o : IterOrder} {c : Command} {revision now : Nat} {org : OrgScope}

-- The strings that stand for keys and names inside of the records are those of the owners.
structure Owned (s : Store) : Prop where
  effects : Each EffectRecord.OwnedBy s.effects
  budgets : Each BudgetRecord.OwnedBy s.budgets
  claims  : Each ClaimRecord.OwnedBy s.claims
  locks   : s.locks.Owned

theorem Owned.empty : Owned .empty where
  effects := .empty
  budgets := .empty
  claims  := .empty
  locks   := .empty

theorem scoped_onHandoffs {r : Handoffs × Value} (h : org.Scoped false r.2) : org.Scoped false (s.onHandoffs r).2 :=
  h

section Tables

variable (o revision now) (soh : External.orgScopeDelim = '\u0001')

include soh

theorem served_effects (h : Each EffectRecord.OwnedBy s.effects) (part : .effects = c.part) (asked : c.AskedBy org) :
    Served EffectRecord.OwnedBy org
      ((s.applyCommand o revision now c).1.effects, (s.applyCommand o revision now c).2) := by
  revert asked
  cases c <;> cases part <;> intro asked
  case effectPrepare =>
    obtain ⟨⟨_, rfl⟩, _, rfl⟩ := asked
    exact Effects.served_prepare soh h
  all_goals obtain ⟨_, rfl⟩ := asked
  case effectApprove => exact Effects.served_approve soh h
  case effectCommit => exact Effects.served_commit soh h
  case effectAbort => exact Effects.served_abort soh h

theorem served_budgets (h : Each BudgetRecord.OwnedBy s.budgets) (part : .budgets = c.part) (asked : c.AskedBy org) :
    Served BudgetRecord.OwnedBy org
      ((s.applyCommand o revision now c).1.budgets, (s.applyCommand o revision now c).2) := by
  revert asked
  cases c <;> cases part <;> intro asked
  case budgetReserve =>
    obtain ⟨⟨_, rfl⟩, _, rfl⟩ := asked
    exact Budgets.served_reserve soh h
  all_goals obtain ⟨_, rfl⟩ := asked
  case budgetSet => exact Budgets.served_set soh h
  case budgetCommit => exact Budgets.served_commit soh h
  case budgetRelease => exact Budgets.served_release soh h

theorem served_claims (h : Each ClaimRecord.OwnedBy s.claims) (part : .claims = c.part) (asked : c.AskedBy org) :
    Served ClaimRecord.OwnedBy org
      ((s.applyCommand o revision now c).1.claims, (s.applyCommand o revision now c).2) := by
  revert asked
  cases c <;> cases part <;> intro asked
  case claimSupersede =>
    obtain ⟨⟨_, rfl⟩, _, rfl⟩ := asked
    exact Claims.served_supersede soh h
  all_goals obtain ⟨_, rfl⟩ := asked
  case claimAssert => exact Claims.served_assert soh h
  case claimSupport => exact Claims.served_support soh h
  case claimContest => exact Claims.served_contest soh h
  case claimResolve => exact Claims.served_resolve soh h

-- The answer to a command that the organization asks for.
theorem Owned.answer (h : s.Owned) (w : LockManager.WellFormed (s.locks, s.fencing)) (settled : s.LocksSettled)
    (asked : c.AskedBy org) : org.Scoped false (s.applyCommand o revision now c).2 := by
  revert asked
  cases c <;> intro asked <;> try contradiction
  case effectPrepare | effectApprove | effectCommit | effectAbort =>
    exact (served_effects o revision now soh h.effects rfl asked).answer
  case budgetReserve | budgetSet | budgetCommit | budgetRelease =>
    exact (served_budgets o revision now soh h.budgets rfl asked).answer
  case claimSupersede | claimAssert | claimSupport | claimContest | claimResolve =>
    exact (served_claims o revision now soh h.claims rfl asked).answer
  case lockAcquire | lockAcquireV2 | lockAcquireAttempt =>
    simp only [applyCommand, applyLockAcquire]
    exact LockManager.scoped_acquire asked
  case lockRenew => exact LockManager.scoped_renew asked
  case lockCancel => exact LockManager.scoped_cancel soh h.locks w settled asked s.lockCancellations none
  case lockCancelAttempt => exact LockManager.scoped_cancel soh h.locks w settled asked s.lockCancellations (some _)
  all_goals obtain ⟨_, rfl⟩ := asked
  case lockRelease => exact LockManager.scoped_release soh h.locks settled
  case barrierCreate => exact Barriers.scoped_create
  case barrierArrive => exact Barriers.scoped_arrive
  case taskCreate => exact Tasks.scoped_create
  case taskProgress => exact Tasks.scoped_progress
  case taskComplete => exact Tasks.scoped_complete
  case taskFail => exact Tasks.scoped_fail
  case taskCancel => exact Tasks.scoped_cancel
  case handoffOffer => exact scoped_onHandoffs Handoffs.scoped_offer
  case handoffAccept => exact Handoffs.scoped_accept
  case handoffReject => exact Handoffs.scoped_reject
  case decisionPropose => exact Decisions.scoped_propose
  case decisionVote => exact Decisions.scoped_vote
  case taskClaim =>
    simp only [applyCommand, applyTaskClaim]
    split <;> exact Tasks.scoped_claim

end Tables

section Run

-- A command on one of the tables comes from a handler.
def Coordinated (c : Command) : Prop :=
  c.part ∈ [.locks, .barriers, .tasks, .effects, .handoffs, .decisions, .budgets, .claims] →
    ∃ org write command active, Http.Write.handle org write = .ok command ∧
      command.forActiveProtocol active = .ok c

theorem Coordinated.asked (h : Coordinated c)
    (part : c.part ∈ [.locks, .barriers, .tasks, .effects, .handoffs, .decisions, .budgets, .claims]) :
    ∃ org, c.AskedBy org := by
  have ⟨org, _, _, _, accepted, active⟩ := h part
  exact ⟨org, (Http.Write.handle_asked accepted).forActiveProtocol active⟩

theorem Coordinated.requestOwned (h : Coordinated c) : LockManager.RequestOwned c := by
  intro input request
  have part : c.part = .locks := by cases c <;> cases request <;> rfl
  have ⟨org, asked⟩ := h.asked (by simp [part])
  cases c <;> cases request <;> exact ⟨org, asked⟩

-- A table is left as it is by the commands that are not for it.
theorem Coordinated.each {α : Type} {P : OrgScope → α → Prop} {m m' : HashMap String α} {answer : Value}
    {part : Part} (coordinated : Coordinated c)
    (known : part ∈ [.locks, .barriers, .tasks, .effects, .handoffs, .decisions, .budgets, .claims])
    (frame : part ≠ c.part → m' = m)
    (served : ∀ org, part = c.part → c.AskedBy org → Served P org (m', answer)) (h : Each P m) : Each P m' := by
  by_cases own : part = c.part
  case pos =>
    have ⟨org, asked⟩ := coordinated.asked (own ▸ known)
    exact (served org own asked).each
  case neg => exact frame own ▸ h

theorem Owned.prepare (h : s.Owned) (coordinated : Coordinated c) : (s.prepare o c now).Owned := by
  have effects : (s.prepare o c now).effects = s.effects := prepare_frame .effects rfl
  have budgets : (s.prepare o c now).budgets = s.budgets := prepare_frame .budgets rfl
  have claims : (s.prepare o c now).claims = s.claims := prepare_frame .claims rfl
  exact {
    effects := effects ▸ h.effects
    budgets := budgets ▸ h.budgets
    claims  := claims ▸ h.claims
    locks   := prepare_steps.locks.owned coordinated.requestOwned h.locks
  }

theorem Owned.applyAt (soh : External.orgScopeDelim = '\u0001') (h : s.Owned) (coordinated : Coordinated c) :
    (s.applyAt o c now).1.Owned where
  effects := coordinated.each (by simp) (applyCommand_touches.frame .effects)
    (fun _ => served_effects _ _ _ soh (h.prepare coordinated).effects) (h.prepare coordinated).effects
  budgets := coordinated.each (by simp) (applyCommand_touches.frame .budgets)
    (fun _ => served_budgets _ _ _ soh (h.prepare coordinated).budgets) (h.prepare coordinated).budgets
  claims  := coordinated.each (by simp) (applyCommand_touches.frame .claims)
    (fun _ => served_claims _ _ _ soh (h.prepare coordinated).claims) (h.prepare coordinated).claims
  locks   := applyAt_steps.locks.owned coordinated.requestOwned h.locks

theorem Runs.owned (soh : External.orgScopeDelim = '\u0001')
    (r : Runs (fun _ _ c _ => Coordinated c) .empty s) : s.Owned := by
  induction r
  case refl => exact .empty
  case apply coordinated _ ih => exact ih.applyAt soh coordinated

theorem Runs.reachable {p : Store → IterOrder → Command → Nat → Prop} (r : Runs p .empty s) : Reachable s := by
  induction r
  case refl => exact .empty
  case apply ih => exact .apply _ _ _ ih

end Run

end Store

namespace Http

open OrgScope

variable [External] {o : IterOrder} {s : Store} {now active shard logIndex : Nat} {org : OrgScope}

-- The field of the answer that repeats the query.
def Read.echo : Read → String × String
  | lock key => ("key", key)
  | barrier name | task name | effect name | handoff name | decision name | budget name | claim name =>
    ("name", name)

-- The fields of the answer that come from the store.
def Read.stored (o : IterOrder) (s : Store) (now : Nat) (org : OrgScope) : Read → List (String × Value)
  | lock key => [("lock", s.lockGet now (org.scope key))]
  | barrier name => found "barrier" (s.barrierGet o now (org.scope name))
  | task name => found "task" (s.taskGet (org.scope name))
  | effect name => found "effect" (s.effectGet (org.scope name))
  | handoff name => found "handoff" (s.handoffGet now (org.scope name))
  | decision name => found "decision" (s.decisionGet now (org.scope name))
  | budget name => found "budget" (s.budgetGet (org.scope name))
  | claim name => found "claim" (s.claimGet (org.scope name))
where
  found {α : Type} [Serialize α] (kind : String) (record : Option α) : List (String × Value) :=
    [("found", record.isSome), (kind, record)]

namespace Request

-- The caller gets its own strings: the query is repeated as it came in, what is stored for the caller is the
-- rest of the answer with the keys and names scoped, and the same holds of the output of a command.
def Faithful (o : IterOrder) (s : Store) (now active shard logIndex : Nat) (org : OrgScope) :
    Request → Response → Prop
  | read query, response =>
    ∃ own, org.scopeFields own = query.stored o s now org ∧
      response = .ok (json ((query.echo.1, toValue query.echo.2) :: own))
  | write proposal, response =>
    ∃ outcome own, proposal.outcome o s now org active shard logIndex = some outcome ∧
      org.scopeValue false own = outcome.output ∧ response = .committed { outcome with output := own }

-- The text in a query does not look like a scoped one.
def Plain : Request → Prop
  | read query => query.echo.2.toList.head? ≠ some External.orgScopeDelim
  | write _ => True

end Request

theorem Read.respond_eq (query : Read) :
    query.respond o s now org =
      org.response (json ((query.echo.1, toValue query.echo.2) :: query.stored o s now org)) := by
  cases query <;> rfl

theorem Read.stored_scoped (soh : External.orgScopeDelim = '\u0001') (owned : s.Owned)
    (w : LockManager.WellFormed (s.locks, s.fencing)) (query : Read) :
    query.stored o s now org ∈ Set.range org.scopeFields := by
  rw [mem_range_scopeFields]
  cases query
  case lock =>
    simp [stored, Store.lockGet, LockManager.scoped_snapshot soh owned.locks w]
  case barrier => simp [stored, stored.found, Store.barrierGet]
  case task => simp [stored, stored.found, Store.taskGet]
  case handoff => simp [stored, stored.found, Store.handoffGet]
  case decision => simp [stored, stored.found, Store.decisionGet]
  case effect name =>
    have view record (mem : s.effects[org.scope name]? = some record) :
        org.Scoped false (toValue (record.view (org.scope name))) := (owned.effects _ _ _ mem).scoped_view
    simpa [stored, stored.found, Store.effectGet] using view
  case budget name =>
    have view record (mem : s.budgets[org.scope name]? = some record) :
        org.Scoped false (toValue (record.view (org.scope name))) := (owned.budgets _ _ _ mem).scoped_view
    simpa [stored, stored.found, Store.budgetGet] using view
  case claim name =>
    have view record (mem : s.claims[org.scope name]? = some record) :
        org.Scoped false (toValue (record.view (org.scope name))) := (owned.claims _ _ _ mem).scoped_view
    simpa [stored, stored.found, Store.claimGet] using view

-- The text in the query is un-scoped as well, although nothing has scoped it.
theorem response_echo (query : Read) (own : List (String × Value)) :
    org.response (json ((query.echo.1, toValue query.echo.2) :: org.scopeFields own)) =
      match org.unscopeText query.echo.2 with
      | some text => .ok (json ((query.echo.1, toValue text) :: own))
      | none => .scopeViolation := by
  have fields : opaqueFields.contains query.echo.1 = false ∧ identityFields.contains query.echo.1 = true := by
    cases query <;> simp [Read.echo]
  have walk : org.unscopeValue false (json ((query.echo.1, toValue query.echo.2) :: org.scopeFields own)) =
      (org.unscopeText query.echo.2).map fun text => json ((query.echo.1, toValue text) :: own) := by
    simp only [json, unscopeValue, unscopeFields, fields, unscopeFields_scopeFields, toValue]
    cases org.unscopeText query.echo.2 <;> rfl
  rw [response, walk]
  cases org.unscopeText query.echo.2 <;> rfl

theorem proposeResponse_scoped {outcome : ProposeOutcome} {own : Value} (eq : org.scopeValue false own = outcome.output) :
    org.proposeResponse outcome = .committed { outcome with output := own } := by
  rw [proposeResponse, ← eq, unscopeValue_scopeValue]

theorem Write.outcome_scoped (soh : External.orgScopeDelim = '\u0001')
    (r : Store.Runs (fun _ _ c _ => Store.Coordinated c) .empty s) {proposal : Write} {outcome : ProposeOutcome}
    (served : proposal.outcome o s now org active shard logIndex = some outcome) :
    org.Scoped false outcome.output := by
  simp only [Write.outcome, Option.bind_eq_bind, Option.bind_eq_some_iff, Except.toOption_eq_some_iff] at served
  obtain ⟨command, accepted, c, lowered, eq⟩ := served
  cases eq
  have coordinated : Store.Coordinated c := fun _ => ⟨org, proposal, command, active, accepted, lowered⟩
  have asked := (handle_asked accepted).forActiveProtocol lowered
  have owned : (s.prepare o c now).Owned := (r.owned soh).prepare coordinated
  exact owned.answer _ _ _ soh (Store.prepare_steps.locks.wellFormed r.reachable.wellFormed)
    r.reachable.locksSettled.prepare asked

end Http
