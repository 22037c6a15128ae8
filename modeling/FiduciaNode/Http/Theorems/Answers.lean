import FiduciaNode.Http.Theorems.Unscope

namespace OrgScope

variable [External] {org : OrgScope} {name : String} {identity : Bool} {α : Type}

-- Each record that an organization has under one of its names satisfies `P` for the organization.
def Each (P : OrgScope → α → Prop) (m : HashMap String α) : Prop :=
  ∀ (org : OrgScope) (name : String) (record : α), m[org.scope name]? = some record → P org record

-- What an operation leaves in its table and answers, if the organization `org` has asked for it.
structure Served (P : OrgScope → α → Prop) (org : OrgScope) (r : HashMap String α × Value) : Prop where
  each   : Each P r.1
  answer : org.Scoped false r.2

variable {P : OrgScope → α → Prop} {m : HashMap String α} {record : α} {answer : Value}

theorem Each.empty : Each P (∅ : HashMap String α) :=
  fun _ _ _ mem => by simp at mem

-- The name tells whose record it is.
theorem Served.insert (soh : External.orgScopeDelim = '\u0001') (each : Each P m) (h : P org record)
    (own : org.Scoped false answer) : Served P org (m.insert (org.scope name) record, answer) := by
  refine ⟨fun org' name' record' mem => ?_, own⟩
  simp only [HashMap.get_insert] at mem
  split at mem
  case isTrue same =>
    obtain ⟨rfl, _⟩ := (scope_inj soh).mp same
    exact Option.some.inj mem ▸ h
  case isFalse => exact each org' name' record' mem

@[simp]
theorem scoped_notFound : org.Scoped identity notFound :=
  scoped_json.mpr (by simp)

@[simp]
theorem scoped_fencingTokensExhausted : org.Scoped identity fencingTokensExhausted :=
  scoped_json.mpr (by simp)

end OrgScope

open OrgScope

variable [External] {org : OrgScope} {name : String} {identity : Bool} {o : IterOrder} {now : Nat}

section Barriers

@[simp]
theorem scoped_barrierPolicy {policy : BarrierPolicy} : org.Scoped identity (toValue policy) := by
  cases policy <;> exact scoped_json.mpr (by simp)

@[simp]
theorem scoped_barrierStatus {status : BarrierStatus} : org.Scoped false (toValue status) := by
  cases status <;> exact scoped_string

@[simp]
theorem scoped_barrierArrival {arrival : BarrierArrival} : org.Scoped identity (toValue arrival) :=
  scoped_json.mpr (by simp)

@[simp]
theorem BarrierRecord.scoped_view {record : BarrierRecord} :
    org.Scoped identity (toValue (record.view o (org.scope name) now)) := by
  refine scoped_json.mpr ?_
  simp [view]

theorem Barriers.scoped_create {barriers : Barriers} :
    org.Scoped false (barriers.applyBarrierCreate o now (org.scope name) policy expected deadlineMs).2 := by
  simp only [applyBarrierCreate]
  split <;> simp

theorem Barriers.scoped_arrive {barriers : Barriers} :
    org.Scoped false (barriers.applyBarrierArrive o now (org.scope name) participant weight veto).2 := by
  simp [applyBarrierArrive]

end Barriers

section Tasks

@[simp]
theorem scoped_taskStatus {status : TaskStatus} : org.Scoped false (toValue status) := by
  cases status <;> exact scoped_string

@[simp]
theorem TaskRecord.scoped_view {record : TaskRecord} :
    org.Scoped identity (toValue (record.view (org.scope name))) := by
  refine scoped_json.mpr ?_
  simp [view]

namespace Tasks

variable {tasks : Tasks}

theorem scoped_create :
    org.Scoped false (tasks.applyTaskCreate (org.scope name) taskType payload deadlineMs).2 := by
  simp only [applyTaskCreate]
  split <;> simp

theorem scoped_claim :
    org.Scoped false (tasks.applyTaskClaim token? now (org.scope name) worker ttlMs).2 := by
  simp only [applyTaskClaim]
  split
  case h_1 | h_2 => simp
  case h_3 =>
    split
    case isTrue => simp
    case isFalse => split <;> simp

theorem scoped_owned {answer : List (String × Value)} {update : TaskRecord → TaskRecord}
    (own : org.Scoped false (json answer)) :
    org.Scoped false (tasks.applyOwned now (org.scope name) worker token answer update).2 := by
  simp only [applyOwned]
  split
  case h_1 => simp
  case h_2 =>
    split
    case isTrue => simp
    case isFalse =>
      rw [scoped_json] at own ⊢
      simpa [or_imp, forall_and] using own

theorem scoped_progress :
    org.Scoped false (tasks.applyTaskProgress now (org.scope name) worker token percent checkpoint).2 :=
  scoped_owned (by simp)

theorem scoped_complete :
    org.Scoped false (tasks.applyTaskComplete now (org.scope name) worker token result).2 :=
  scoped_owned (by simp)

theorem scoped_fail :
    org.Scoped false (tasks.applyTaskFail now (org.scope name) worker token retryable).2 :=
  scoped_owned (by simp)

theorem scoped_cancel : org.Scoped false (tasks.applyTaskCancel (org.scope name)).2 := by
  simp only [applyTaskCancel]
  split
  case h_1 => simp
  case h_2 => split <;> simp

end Tasks

end Tasks

section Handoffs

@[simp]
theorem scoped_handoffStatus {status : HandoffStatus} : org.Scoped false (toValue status) := by
  cases status <;> exact scoped_string

@[simp]
theorem HandoffRecord.scoped_view {record : HandoffRecord} :
    org.Scoped identity (toValue (record.view (org.scope name) now)) := by
  refine scoped_json.mpr ?_
  simp [view]

namespace Handoffs

variable {handoffs : Handoffs} {fencing : FencingCounter}

@[simp]
theorem scoped_refusal {record : HandoffRecord} :
    org.Scoped identity (refusal reason record (org.scope name) now) :=
  scoped_json.mpr (by simp)

theorem scoped_offer :
    org.Scoped false (handoffs.applyHandoffOffer fencing now (org.scope name) resource fromOwner toOwner
      fromToken context ttlMs).2 := by
  simp only [applyHandoffOffer]
  split
  case isTrue => simp
  case isFalse => split <;> simp

theorem scoped_accept :
    org.Scoped false (handoffs.applyHandoffAccept fencing now (org.scope name) toOwner).2.2 := by
  simp only [applyHandoffAccept]
  split
  case h_1 => simp
  case h_2 =>
    split
    case isTrue => simp
    case isFalse =>
      split
      case isTrue => simp
      case isFalse => split <;> simp

theorem scoped_reject :
    org.Scoped false (handoffs.applyHandoffReject now (org.scope name) toOwner).2 := by
  simp only [applyHandoffReject]
  split
  case h_1 => simp
  case h_2 =>
    split
    case isTrue => simp
    case isFalse => split <;> simp

end Handoffs

end Handoffs

section Decisions

@[simp]
theorem scoped_decisionPolicy {policy : DecisionPolicy} : org.Scoped identity (toValue policy) := by
  cases policy <;> exact scoped_json.mpr (by simp)

@[simp]
theorem scoped_decisionStatus {status : DecisionStatus} : org.Scoped false (toValue status) := by
  cases status <;> exact scoped_string

@[simp]
theorem scoped_decisionTally {tally : DecisionTally} : org.Scoped identity (toValue tally) :=
  scoped_json.mpr (by simp)

@[simp]
theorem scoped_decisionVoteView {vote : DecisionVoteView} : org.Scoped identity (toValue vote) :=
  scoped_json.mpr (by simp)

@[simp]
theorem DecisionRecord.scoped_view {record : DecisionRecord} :
    org.Scoped identity (toValue (record.view (org.scope name) now)) := by
  refine scoped_json.mpr ?_
  simp [view]

namespace Decisions

variable {decisions : Decisions}

theorem scoped_propose :
    org.Scoped false (decisions.applyDecisionPropose now (org.scope name) question options policy deadlineMs).2 := by
  simp only [applyDecisionPropose]
  split <;> simp

theorem scoped_vote :
    org.Scoped false (decisions.applyDecisionVote now (org.scope name) voter option confidence weight veto
      evidence).2 := by
  simp only [applyDecisionVote]
  split
  case h_1 => simp
  case h_2 => split <;> simp

end Decisions

end Decisions

section Effects

-- The idempotency key is one of the organization that prepared the effect.
def EffectRecord.OwnedBy (org : OrgScope) (record : EffectRecord) : Prop :=
  ∃ key, record.idempotencyKey = org.scope key

@[simp]
theorem scoped_effectStatus {status : EffectStatus} : org.Scoped false (toValue status) := by
  cases status <;> exact scoped_string

theorem EffectRecord.OwnedBy.scoped_view {record : EffectRecord} (h : record.OwnedBy org) :
    org.Scoped identity (toValue (record.view (org.scope name))) := by
  have ⟨key, eq⟩ := h
  refine scoped_json.mpr ?_
  simp [view, eq]

namespace Effects

variable {effects : Effects} (soh : External.orgScopeDelim = '\u0001') (each : Each EffectRecord.OwnedBy effects)

include soh each

theorem served_prepare {key : String} :
    Served EffectRecord.OwnedBy org (effects.applyEffectPrepare (org.scope name) effectType payload risk
      (org.scope key) requiredApprovals) := by
  simp only [applyEffectPrepare]
  split
  case h_1 record mem => exact ⟨each, by simp [(each _ _ _ mem).scoped_view]⟩
  case h_2 =>
    have owned {record : EffectRecord} (eq : record.idempotencyKey = org.scope key) : record.OwnedBy org :=
      ⟨key, eq⟩
    exact .insert soh each (owned rfl) (by simp [(owned _).scoped_view])

theorem served_open {update : EffectRecord → EffectRecord}
    (same : ∀ record, (update record).idempotencyKey = record.idempotencyKey) :
    Served EffectRecord.OwnedBy org (effects.applyOpen (org.scope name) update) := by
  simp only [applyOpen]
  split
  case h_1 => exact ⟨each, by simp⟩
  case h_2 record mem =>
    have owned := each _ _ _ mem
    split
    case isTrue => exact ⟨each, by simp [owned.scoped_view]⟩
    case isFalse =>
      have owned' : EffectRecord.OwnedBy org { update record with generation := record.generation + 1 } := by
        simpa [EffectRecord.OwnedBy, same] using owned
      exact .insert soh each owned' (by simp [owned'.scoped_view])

theorem served_approve : Served EffectRecord.OwnedBy org (effects.applyEffectApprove (org.scope name) principal) :=
  served_open soh each fun _ => rfl

theorem served_abort : Served EffectRecord.OwnedBy org (effects.applyEffectAbort (org.scope name)) :=
  served_open soh each fun _ => rfl

theorem served_commit :
    Served EffectRecord.OwnedBy org (effects.applyEffectCommit (org.scope name) result) := by
  simp only [applyEffectCommit]
  split
  case h_1 => exact ⟨each, by simp⟩
  case h_2 record mem =>
    have owned := each _ _ _ mem
    split
    case h_1 | h_2 | h_3 => exact ⟨each, by simp [owned.scoped_view]⟩
    case h_4 =>
      have owned' : EffectRecord.OwnedBy org { record with
          status := .committed, result := some result, generation := record.generation + 1 } := owned
      exact .insert soh each owned' (by simp [owned'.scoped_view])

end Effects

end Effects

section Budgets

-- The holders of the reservations are those of the organization that reserved them.
def BudgetRecord.OwnedBy (org : OrgScope) (record : BudgetRecord) : Prop :=
  HashMap.Each (fun r => ∃ holder, r.holder = org.scope holder) record.reservations

@[simp]
theorem scoped_reservationStatus {status : ReservationStatus} : org.Scoped false (toValue status) := by
  cases status <;> exact scoped_string

@[simp]
theorem scoped_budgetAmount {amount : BudgetAmount} : org.Scoped identity (toValue amount) :=
  scoped_json.mpr (by simp)

theorem scoped_reservationView {r : ReservationView} (h : ∃ holder, r.holder = org.scope holder) :
    org.Scoped identity (toValue r) := by
  have ⟨holder, eq⟩ := h
  exact scoped_json.mpr (by simp [eq])

theorem BudgetRecord.OwnedBy.scoped_view {record : BudgetRecord} (h : record.OwnedBy org) :
    org.Scoped identity (toValue (record.view (org.scope name))) := by
  have reservations : ∀ r ∈ (record.view (org.scope name)).reservations, org.Scoped false (toValue r) := by
    simp only [view, List.forall_mem_map]
    exact fun e mem => scoped_reservationView (h e.1 e.2 (HashMap.mem_toList.mp mem))
  have list : org.Scoped false (toValue (record.view (org.scope name)).reservations) :=
    scoped_list.mpr reservations
  have named : org.Scoped true (toValue (record.view (org.scope name)).name) := scoped_scope
  refine scoped_json.mpr ?_
  simp [-scoped_list, list, named]

-- A reservation that is settled keeps its holder.
theorem BudgetRecord.OwnedBy.settle {record : BudgetRecord} {id : String} {reservation : ReservationRecord}
    (h : record.OwnedBy org) (found : record.reservations[id]? = some reservation)
    (spent : BudgetAmount) (status : ReservationStatus) :
    BudgetRecord.OwnedBy org { record with
      reservations := record.reservations.insert id { reservation with spent, status }
      generation := record.generation + 1
    } := by
  have ⟨holder, eq⟩ := h _ _ found
  exact HashMap.Each.insert h ⟨holder, eq⟩

namespace Budgets

variable {budgets : Budgets} {id : String} (soh : External.orgScopeDelim = '\u0001') (each : Each BudgetRecord.OwnedBy budgets)

include soh each

theorem served_set {limit : BudgetAmount} :
    Served BudgetRecord.OwnedBy org (budgets.applyBudgetSet (org.scope name) limit) := by
  have owned : BudgetRecord.OwnedBy org
      (budgets[org.scope name]?.getD { limit, reservations := ∅, generation := 0 }) := by
    cases mem : budgets[org.scope name]?
    case none => exact .empty
    case some record => exact each _ _ _ mem
  generalize record : budgets[org.scope name]?.getD { limit, reservations := ∅, generation := 0 } = r at owned
  simp only [applyBudgetSet, record]
  have owned' : BudgetRecord.OwnedBy org { r with limit, generation := r.generation + 1 } := owned
  exact .insert soh each owned' (by simp [owned'.scoped_view])

theorem served_reserve {holder : String} {amount : BudgetAmount} :
    Served BudgetRecord.OwnedBy org
      (budgets.applyBudgetReserve (org.scope name) id (org.scope holder) amount) := by
  simp only [applyBudgetReserve]
  split
  case h_1 => exact ⟨each, by simp⟩
  case h_2 record mem =>
    have owned := each _ _ _ mem
    split
    case isTrue => exact ⟨each, by simp [owned.scoped_view]⟩
    case isFalse =>
      split
      case isTrue => exact ⟨each, by simp [owned.scoped_view]⟩
      case isFalse =>
        have owned' : BudgetRecord.OwnedBy org { record with
            reservations := record.reservations.insert id {
              holder := org.scope holder, reserved := amount, spent := .zero, status := .held
            }
            generation := record.generation + 1
          } := owned.insert ⟨holder, rfl⟩
        exact .insert soh each owned' (by simp [owned'.scoped_view])

theorem served_commit {actual : BudgetAmount} :
    Served BudgetRecord.OwnedBy org (budgets.applyBudgetCommit (org.scope name) id actual) := by
  simp only [applyBudgetCommit]
  split
  case h_1 => exact ⟨each, by simp⟩
  case h_2 record mem =>
    have owned := each _ _ _ mem
    split
    case h_1 => exact ⟨each, by simp⟩
    case h_2 reservation found =>
      split
      case h_1 => exact ⟨each, by simp [owned.scoped_view]⟩
      case h_2 => exact ⟨each, by simp⟩
      case h_3 =>
        have settled := owned.settle found
          (.ofAxes fun axis => cap (axis actual) (axis reservation.reserved)) .committed
        exact .insert soh each settled (by simp [settled.scoped_view])

theorem served_release :
    Served BudgetRecord.OwnedBy org (budgets.applyBudgetRelease (org.scope name) id) := by
  simp only [applyBudgetRelease]
  split
  case h_1 => exact ⟨each, by simp⟩
  case h_2 record mem =>
    have owned := each _ _ _ mem
    split
    case h_1 => exact ⟨each, by simp⟩
    case h_2 reservation found =>
      split
      case isTrue => exact ⟨each, by simp [owned.scoped_view]⟩
      case isFalse =>
        have settled := owned.settle found reservation.spent .released
        exact .insert soh each settled (by simp [settled.scoped_view])

end Budgets

end Budgets

section Claims

-- A claim is superseded by one of the same organization.
def ClaimRecord.OwnedBy (org : OrgScope) (record : ClaimRecord) : Prop :=
  ∀ claim ∈ record.supersededBy, ∃ name, claim = org.scope name

@[simp]
theorem scoped_claimStatus {status : ClaimStatus} : org.Scoped false (toValue status) := by
  cases status <;> exact scoped_string

@[simp]
theorem scoped_claimContest {contest : ClaimContest} : org.Scoped identity (toValue contest) :=
  scoped_json.mpr (by simp)

theorem ClaimRecord.OwnedBy.scoped_view {record : ClaimRecord} (h : record.OwnedBy org) :
    org.Scoped identity (toValue (record.view (org.scope name))) := by
  have supersededBy : ∀ claim ∈ record.supersededBy, org.Scoped true (toValue claim) := by
    intro claim mem
    obtain ⟨name, rfl⟩ := h claim mem
    exact scoped_scope
  refine scoped_json.mpr ?_
  simpa [view] using supersededBy

namespace Claims

variable {claims : Claims} (soh : External.orgScopeDelim = '\u0001') (each : Each ClaimRecord.OwnedBy claims)

include soh each

theorem served_assert :
    Served ClaimRecord.OwnedBy org (claims.applyClaimAssert (org.scope name) subject predicate value confidence
      author evidence validUntilMs) := by
  simp only [applyClaimAssert]
  split
  case h_1 record mem =>
    have owned := each _ _ _ mem
    split
    case isTrue => exact ⟨each, by simp [owned.scoped_view]⟩
    case isFalse =>
      have owned' {record' : ClaimRecord} (same : record'.supersededBy = record.supersededBy) :
          record'.OwnedBy org := by rwa [ClaimRecord.OwnedBy, same]
      exact .insert soh each (owned' rfl) (by simp [(owned' _).scoped_view])
  case h_2 =>
    have owned {record : ClaimRecord} (fresh : record.supersededBy = none) : record.OwnedBy org := by
      simp [ClaimRecord.OwnedBy, fresh]
    exact .insert soh each (owned rfl) (by simp [(owned _).scoped_view])

theorem served_open {update : ClaimRecord → ClaimRecord}
    (same : ∀ record, (update record).supersededBy = record.supersededBy) :
    Served ClaimRecord.OwnedBy org (claims.applyOpen (org.scope name) update) := by
  simp only [applyOpen]
  split
  case h_1 => exact ⟨each, by simp⟩
  case h_2 record mem =>
    have owned := each _ _ _ mem
    split
    case isTrue => exact ⟨each, by simp [owned.scoped_view]⟩
    case isFalse =>
      have owned' : ClaimRecord.OwnedBy org { update record with generation := record.generation + 1 } := by
        simpa only [ClaimRecord.OwnedBy, same] using owned
      exact .insert soh each owned' (by simp [owned'.scoped_view])

theorem served_support : Served ClaimRecord.OwnedBy org (claims.applyClaimSupport (org.scope name) agent) :=
  served_open soh each fun _ => rfl

theorem served_contest : Served ClaimRecord.OwnedBy org (claims.applyClaimContest (org.scope name) agent reason) :=
  served_open soh each fun _ => rfl

theorem served_resolve : Served ClaimRecord.OwnedBy org (claims.applyClaimResolve (org.scope name) accepted) :=
  served_open soh each fun _ => rfl

theorem served_supersede {by' : String} :
    Served ClaimRecord.OwnedBy org (claims.applyClaimSupersede (org.scope name) (org.scope by')) := by
  simp only [applyClaimSupersede]
  split
  case h_1 => exact ⟨each, by simp⟩
  case h_2 record mem =>
    have owned := each _ _ _ mem
    split
    case isTrue => exact ⟨each, by simp [owned.scoped_view]⟩
    case isFalse =>
      have owned' : ClaimRecord.OwnedBy org { record with
          status := .superseded, supersededBy := some (org.scope by'), generation := record.generation + 1
        } := by simp [ClaimRecord.OwnedBy]
      exact .insert soh each owned' (by simp [owned'.scoped_view])

end Claims

end Claims
