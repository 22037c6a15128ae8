import FiduciaNode.Http.Locks
import FiduciaNode.State.Restore
import FiduciaNode.State.Theorems.MutualExclusion
import FiduciaNode.State.Theorems.Semaphores

theorem foldl_max_le_iff {l : List Nat} {m n : Nat} : l.foldl max m ≤ n ↔ m ≤ n ∧ ∀ k ∈ l, k ≤ n := by
  induction l generalizing m
  case nil => simp
  case cons k l ih => simp [ih, and_assoc]

namespace Tasks

variable {tasks : Tasks} {n : Nat}

-- No task carries a token above `n`.
abbrev Below (n : Nat) : Tasks → Prop :=
  HashMap.Each (·.fencingToken ≤ n)

theorem Below.applyTaskCreate (b : tasks.Below n) :
    (tasks.applyTaskCreate name taskType payload deadlineMs).1.Below n := by
  simp only [Tasks.applyTaskCreate]
  split
  case h_1 => exact b
  case h_2 => exact b.insert (Nat.zero_le _)

theorem Below.applyTaskClaim (b : tasks.Below n) (h : ∀ token, token? = some token → token ≤ n) :
    (tasks.applyTaskClaim token? now name worker ttlMs).1.Below n := by
  simp only [Tasks.applyTaskClaim]
  split
  case h_1 | h_2 => exact b
  case h_3 token record mem =>
    split
    case isTrue => exact b
    case isFalse =>
      split
      case isTrue => exact b
      case isFalse => exact b.insert (h token rfl)

theorem Below.applyOwned (b : tasks.Below n) {update : TaskRecord → TaskRecord}
    (h : ∀ record, (update record).fencingToken = record.fencingToken) :
    (tasks.applyOwned now name worker token answer update).1.Below n := by
  simp only [Tasks.applyOwned]
  split
  case h_1 => exact b
  case h_2 record mem =>
    split
    case isTrue => exact b
    case isFalse => exact b.insert ((h record).trans_le (b name record mem))

theorem Below.applyTaskFail (b : tasks.Below n) :
    (tasks.applyTaskFail now name worker token retryable).1.Below n := by
  refine b.applyOwned fun record => ?_
  split <;> rfl

theorem Below.applyTaskCancel (b : tasks.Below n) : (tasks.applyTaskCancel name).1.Below n := by
  simp only [Tasks.applyTaskCancel]
  split
  case h_1 => exact b
  case h_2 record mem =>
    split
    case isTrue => exact b
    case isFalse => exact b.insert (b name record mem)

end Tasks

namespace Idempotency

variable {idempotency : Idempotency} {n : Nat}

abbrev Below (n : Nat) : Idempotency → Prop :=
  HashMap.Each (·.fencingToken ≤ n)

theorem Below.applyIdempotencyClaim {f : FencingCounter} (b : idempotency.Below f.nextFencingToken) :
    (idempotency.applyIdempotencyClaim f revision now key owner ttlMs retentionMs metadata).1.Below
      (idempotency.applyIdempotencyClaim f revision now key owner ttlMs retentionMs
        metadata).2.1.nextFencingToken := by
  simp only [Idempotency.applyIdempotencyClaim]
  split
  case isTrue => exact b
  case isFalse =>
    split
    case h_1 => exact b
    case h_2 =>
      split
      case h_1 => exact b
      case h_2 token f₂ next =>
        obtain ⟨ht, _, hf⟩ := FencingCounter.nextToken_eq_some_iff.mp next
        subst hf
        refine HashMap.Each.insert (b.imp fun record h => ?_) (Nat.le_refl _)
        simp only [FencingCounter.mint]
        omega

theorem Below.forHolder (b : idempotency.Below n) {g : IdempotencyRecord → Idempotency × Value}
    (h : ∀ record, idempotency[key]? = some record → (g record).1.Below n) :
    (idempotency.forHolder flag revision key owner token g).1.Below n := by
  simp only [Idempotency.forHolder]
  split
  case h_1 => exact b
  case h_2 record mem =>
    split
    case isTrue => exact b
    case isFalse => exact h record mem

theorem Below.applyIdempotencyComplete (b : idempotency.Below n) :
    (idempotency.applyIdempotencyComplete revision now key owner token result).1.Below n := by
  refine b.forHolder fun record mem => ?_
  split
  case isTrue => exact b
  case isFalse => exact b.insert (b key record mem)

theorem Below.applyIdempotencyRenew (b : idempotency.Below n) :
    (idempotency.applyIdempotencyRenew revision now key owner token ttlMs).1.Below n := by
  refine b.forHolder fun record mem => ?_
  split
  case isTrue => exact b
  case isFalse => exact b.insert (b key record mem)

theorem Below.applyIdempotencyAbandon (b : idempotency.Below n) :
    (idempotency.applyIdempotencyAbandon revision key owner token).1.Below n := by
  refine b.forHolder fun record mem => ?_
  split
  case isTrue => exact b
  case isFalse => exact b.erase

end Idempotency

namespace Elections

variable {elections : Elections} {n : Nat}

abbrev Below (n : Nat) : Elections → Prop :=
  HashMap.Each (·.fencingToken ≤ n)

theorem Below.applyElectionCampaign {f : FencingCounter} (b : elections.Below f.nextFencingToken) :
    (elections.applyElectionCampaign f revision now name candidate ttlMs metadata).1.Below
      (elections.applyElectionCampaign f revision now name candidate ttlMs
        metadata).2.1.nextFencingToken := by
  simp only [Elections.applyElectionCampaign]
  split
  case h_1 => split <;> exact b
  case h_2 =>
    split
    case h_1 => exact b
    case h_2 token f₂ next =>
      obtain ⟨ht, _, hf⟩ := FencingCounter.nextToken_eq_some_iff.mp next
      subst hf
      refine HashMap.Each.insert (b.imp fun record h => ?_) (Nat.le_refl _)
      simp only [FencingCounter.mint]
      omega

theorem Below.applyElectionRenew (b : elections.Below n) :
    (elections.applyElectionRenew now name candidate token ttlMs).1.Below n := by
  simp only [Elections.applyElectionRenew]
  split
  case h_1 => exact b
  case h_2 leadership mem =>
    split
    case isTrue => exact b
    case isFalse => exact b.insert (b name leadership mem)

theorem Below.applyElectionResign (b : elections.Below n) :
    (elections.applyElectionResign name candidate token).1.Below n := by
  simp only [Elections.applyElectionResign]
  split
  case isTrue => exact b.erase
  case isFalse => exact b

end Elections

namespace Handoffs

variable {handoffs : Handoffs} {n : Nat}

abbrev Below (n : Nat) : Handoffs → Prop :=
  HashMap.Each fun h => h.fromToken ≤ n ∧ ∀ token, h.toToken = some token → token ≤ n

-- The token of an offer is the one token that was not minted here.
theorem Below.applyHandoffOffer (b : handoffs.Below n) (h : token ≤ n) :
    (handoffs.applyHandoffOffer f now name resource fromOwner toOwner token context
      ttlMs).1.Below n := by
  simp only [Handoffs.applyHandoffOffer]
  split
  case isTrue => exact b
  case isFalse =>
    split
    case h_1 => exact b
    case h_2 => exact b.insert ⟨h, by simp⟩

theorem Below.applyHandoffAccept {f : FencingCounter} (b : handoffs.Below f.nextFencingToken) :
    (handoffs.applyHandoffAccept f now name toOwner).1.Below
      (handoffs.applyHandoffAccept f now name toOwner).2.1.nextFencingToken := by
  simp only [Handoffs.applyHandoffAccept]
  split
  case h_1 => exact b
  case h_2 record mem =>
    split
    case isTrue => exact b
    case isFalse =>
      split
      case isTrue => exact b
      case isFalse =>
        split
        case h_1 => exact b
        case h_2 token f₂ minted =>
          obtain ⟨gt, above, _, hf⟩ := FencingCounter.mintTokenAbove_eq_some minted
          subst hf
          refine HashMap.Each.insert (b.imp fun record h => ?_) ?_
          case refine_1 => exact ⟨h.1.trans gt.le, fun t ht => (h.2 t ht).trans gt.le⟩
          case refine_2 => exact ⟨above.le, fun t ht => by cases ht; exact Nat.le_refl _⟩

theorem Below.applyHandoffReject (b : handoffs.Below n) :
    (handoffs.applyHandoffReject now name toOwner).1.Below n := by
  simp only [Handoffs.applyHandoffReject]
  split
  case h_1 => exact b
  case h_2 record mem =>
    split
    case isTrue => exact b
    case isFalse =>
      split
      case isTrue => exact b
      case isFalse => exact b.insert (b name record mem)

end Handoffs

namespace Semaphores

variable {sems : Semaphores} {n : Nat} {t₁ t₂ : Table} {c : Command} {now : Nat}

abbrev Below (n : Nat) : Semaphores → Prop :=
  HashMap.Each fun sem => ∀ slot ∈ sem.holders, slot.fencingToken ≤ n

theorem Below.mono {m : Nat} (b : sems.Below n) (h : n ≤ m) : sems.Below m :=
  b.imp fun _ b slot hs => (b slot hs).trans h

theorem Step.below (e : Step c now t₁ t₂) (b : t₁.1.Below t₁.2.nextFencingToken) :
    t₂.1.Below t₂.2.nextFencingToken := by
  have b := b.mono (FencingCounter.Steps.le e.fencing)
  cases e with
  | mint => exact b
  | sweep => exact each_sweep b fun sem h slot hs => h slot (List.mem_filter.mp hs).1
  | renew mem holders =>
    refine b.insert fun slot hs => ?_
    have ⟨old, ho, _, ht, _⟩ := mem_renewed holders hs
    exact ht ▸ b _ _ mem old ho
  | release mem => exact b.insert fun slot hs => b _ _ mem slot (List.mem_filter.mp hs).1
  | cancel mem => exact b.insert fun slot hs => b _ _ mem slot hs
  | @enter input sems =>
    refine b.insert fun slot hs => ?_
    rcases entry_cases sems input with ⟨hh, _⟩ | ⟨sem, mem, hh, _⟩
    case inl => simp [hh] at hs
    case inr => exact b _ sem mem slot (hh ▸ hs)
  | enqueue _ mem => exact b.insert fun slot hs => b _ _ mem slot (by simpa using hs)
  | grant _ mem _ _ _ _ next =>
    have ⟨_, _, hf⟩ := FencingCounter.nextToken_eq_some_iff.mp next
    refine b.insert fun slot hs => ?_
    rcases List.mem_append.mp hs with hs | hs
    case inl => exact b _ _ mem slot hs
    case inr => simp [List.mem_singleton.mp hs, hf, FencingCounter.mint]
  | promote mem _ _ _ next =>
    have ⟨_, _, hf⟩ := FencingCounter.nextToken_eq_some_iff.mp next
    refine b.insert fun slot hs => ?_
    rcases List.mem_append.mp hs with hs | hs
    case inl => exact b _ _ mem slot hs
    case inr => simp [List.mem_singleton.mp hs, hf, FencingCounter.mint]

theorem Steps.below (e : Steps c now t₁ t₂) (b : t₁.1.Below t₁.2.nextFencingToken) :
    t₂.1.Below t₂.2.nextFencingToken := by
  induction e
  case refl => exact b
  case tail e ih => exact e.below ih

end Semaphores

namespace Store

variable {s : Store} {o : IterOrder} {c : Command} {now revision : Nat}

-- No record carries a token above the counter.
structure Below (s : Store) : Prop where
  locks       : LockManager.WellFormed (s.locks, s.fencing)
  semaphores  : s.semaphores.Below s.fencing.nextFencingToken
  idempotency : s.idempotency.Below s.fencing.nextFencingToken
  elections   : s.elections.Below s.fencing.nextFencingToken
  tasks       : s.tasks.Below s.fencing.nextFencingToken
  handoffs    : s.handoffs.Below s.fencing.nextFencingToken

theorem Below.empty : Below .empty where
  locks       := .empty
  semaphores  := .empty
  idempotency := .empty
  elections   := .empty
  tasks       := .empty
  handoffs    := .empty

theorem Below.max_le (b : s.Below) : s.maxReferencedFencingToken ≤ s.fencing.nextFencingToken := by
  refine foldl_max_le_iff.mpr ⟨Nat.zero_le _, fun token h => ?_⟩
  simp only [referencedTokens, List.mem_append, List.mem_flatMap, List.mem_map, Prod.exists,
    HashMap.mem_toList] at h
  rcases h with (((((h | h) | h) | h) | h) | h) | h
  case inl.inl.inl.inl.inl.inl =>
    have ⟨t, grant, mem, h⟩ := h
    have := b.locks.token_eq mem
    have := b.locks.token_le mem
    simp only [List.mem_cons, List.not_mem_nil, or_false] at h
    grind
  case inl.inl.inl.inl.inl.inr =>
    have ⟨key, t, held, h⟩ := h
    have ⟨grant, mem, _⟩ := (b.locks.held_iff key t).mp held
    exact h ▸ b.locks.token_le mem
  case inl.inl.inl.inl.inr =>
    have ⟨key, sem, mem, slot, hs, h⟩ := h
    exact h ▸ b.semaphores key sem mem slot hs
  case inl.inl.inl.inr =>
    have ⟨key, record, mem, h⟩ := h
    exact h ▸ b.idempotency key record mem
  case inl.inl.inr =>
    have ⟨name, leadership, mem, h⟩ := h
    exact h ▸ b.elections name leadership mem
  case inl.inr =>
    have ⟨name, task, mem, h⟩ := h
    exact h ▸ b.tasks name task mem
  case inr =>
    have ⟨name, handoff, mem, h⟩ := h
    have ⟨from_le, to_le⟩ := b.handoffs name handoff mem
    simp only [List.mem_cons, Option.mem_toList] at h
    rcases h with rfl | h
    case inl => exact from_le
    case inr => exact to_le token h

theorem Below.prepare (b : s.Below) : (s.prepare o c now).Below := by
  have e : Steps c now s (s.prepare o c now) := prepare_steps
  have le := FencingCounter.Steps.le e.fencing
  have locks := e.locks.wellFormed b.locks
  have semaphores := e.semaphores.below b.semaphores
  simp only [Store.prepare] at le locks semaphores ⊢
  split
  case isTrue => exact b
  case isFalse h =>
    simp only [h] at le locks semaphores
    exact {
      locks
      semaphores
      idempotency := (b.idempotency.imp fun _ h => h.trans le).filter
      elections   := (b.elections.imp fun _ h => h.trans le).filter
      tasks       := b.tasks.imp fun _ h => h.trans le
      handoffs    := b.handoffs.imp fun _ h => ⟨h.1.trans le, fun t ht => (h.2 t ht).trans le⟩
    }

theorem validateFencing_eq_ok_iff :
    (s.validateFencing = .ok ()) ↔
    (s.maxReferencedFencingToken ≤ s.fencing.nextFencingToken ∧
      s.fencing.nextFencingToken ≤ maxFencingToken) := by
  simp only [validateFencing, Except.ite_error_eq_ok_iff, gt_iff_lt, not_lt, and_true]
  constructor
  case mp => exact fun h => ⟨h.2.2, h.2.1⟩
  case mpr => exact fun h => ⟨h.1.trans h.2, h.2, h.1⟩

-- The token of an offer is at most the counter, or the offer is refused.
def Backs (s : Store) (now : Nat) : Command → Prop
  | .handoffOffer name _ _ _ fromToken _ _ =>
    fromToken ≤ s.fencing.nextFencingToken ∨
    U64.saturatingAdd s.fencing.nextFencingToken Handoffs.maxHandoffTokenAdvance < fromToken ∨
    ∃ existing, s.handoffs[name]? = some existing ∧ existing.effectiveStatus now = .offered
  | _ => True

theorem Below.step {s' : Store} (b : s.Below) (e : Steps c now s s')
    (idempotency : s'.idempotency = s.idempotency) (elections : s'.elections = s.elections)
    (tasks : s'.tasks = s.tasks) (handoffs : s'.handoffs = s.handoffs) : s'.Below := by
  have le := FencingCounter.Steps.le e.fencing
  exact {
    locks       := e.locks.wellFormed b.locks
    semaphores  := e.semaphores.below b.semaphores
    idempotency := idempotency ▸ b.idempotency.imp fun _ h => h.trans le
    elections   := elections ▸ b.elections.imp fun _ h => h.trans le
    tasks       := tasks ▸ b.tasks.imp fun _ h => h.trans le
    handoffs    := handoffs ▸ b.handoffs.imp fun _ h =>
      ⟨h.1.trans le, fun t ht => (h.2 t ht).trans le⟩
  }

theorem Below.onTasks (b : s.Below) {r : Tasks × Value} (h : r.1.Below s.fencing.nextFencingToken) :
    (s.onTasks r).1.Below :=
  { b with tasks := h }

theorem Below.onHandoffs (b : s.Below) {r : Handoffs × Value}
    (h : r.1.Below s.fencing.nextFencingToken) : (s.onHandoffs r).1.Below :=
  { b with handoffs := h }

theorem Below.onIdempotency (b : s.Below) {r : Idempotency × Value}
    (h : r.1.Below s.fencing.nextFencingToken) : (s.onIdempotency r).1.Below :=
  { b with idempotency := h }

theorem Below.onElections (b : s.Below) {r : Elections × Value}
    (h : r.1.Below s.fencing.nextFencingToken) : (s.onElections r).1.Below :=
  { b with elections := h }

theorem Below.applyTaskClaim (b : s.Below) : (s.applyTaskClaim now name worker ttlMs).1.Below := by
  simp only [Store.applyTaskClaim]
  split
  case h_1 => exact b.onTasks (b.tasks.applyTaskClaim (by simp))
  case h_2 token f next =>
    have e : Steps (.taskCancel "") 0 s { s with fencing := f } :=
      .ofFencing (.single (FencingCounter.nextToken_step next)) rfl rfl
    obtain ⟨_, _, hf⟩ := FencingCounter.nextToken_eq_some_iff.mp next
    have b := b.step e rfl rfl rfl rfl
    exact b.onTasks (b.tasks.applyTaskClaim fun t ht => by simp_all [FencingCounter.mint])

theorem Below.applyHandoffOffer (b : s.Below)
    (backs : s.Backs now (.handoffOffer name resource fromOwner toOwner fromToken context ttlMs)) :
    (s.onHandoffs (s.handoffs.applyHandoffOffer s.fencing now name resource fromOwner toOwner
      fromToken context ttlMs)).1.Below := by
  refine b.onHandoffs ?_
  rcases backs with le | implausible | ⟨existing, mem, offered⟩
  case inl => exact b.handoffs.applyHandoffOffer le
  case inr.inl =>
    simp only [Handoffs.applyHandoffOffer, implausible, ↓reduceIte]
    exact b.handoffs
  case inr.inr =>
    simp only [Handoffs.applyHandoffOffer, mem, Option.filter, offered]
    split <;> exact b.handoffs

variable [External]

theorem Below.applyCommand (b : s.Below) (backs : s.Backs now c)
    (e : Steps c now s (s.applyCommand o revision now c).1) :
    (s.applyCommand o revision now c).1.Below := by
  have locks := e.locks.wellFormed b.locks
  have semaphores := e.semaphores.below b.semaphores
  have le := FencingCounter.Steps.le e.fencing
  cases c
  case taskCreate => exact b.onTasks b.tasks.applyTaskCreate
  case taskClaim => exact b.applyTaskClaim
  case taskProgress | taskComplete => exact b.onTasks (b.tasks.applyOwned fun _ => rfl)
  case taskFail => exact b.onTasks b.tasks.applyTaskFail
  case taskCancel => exact b.onTasks b.tasks.applyTaskCancel
  case handoffOffer => exact b.applyHandoffOffer backs
  case handoffReject => exact b.onHandoffs b.handoffs.applyHandoffReject
  case handoffAccept =>
    exact {
      locks, semaphores, handoffs := b.handoffs.applyHandoffAccept
      idempotency := b.idempotency.imp fun _ h => h.trans le
      elections   := b.elections.imp fun _ h => h.trans le
      tasks       := b.tasks.imp fun _ h => h.trans le
    }
  case idempotencyClaim =>
    exact {
      locks, semaphores, idempotency := b.idempotency.applyIdempotencyClaim
      elections := b.elections.imp fun _ h => h.trans le
      tasks     := b.tasks.imp fun _ h => h.trans le
      handoffs  := b.handoffs.imp fun _ h => ⟨h.1.trans le, fun t ht => (h.2 t ht).trans le⟩
    }
  case idempotencyComplete => exact b.onIdempotency b.idempotency.applyIdempotencyComplete
  case idempotencyRenew => exact b.onIdempotency b.idempotency.applyIdempotencyRenew
  case idempotencyAbandon => exact b.onIdempotency b.idempotency.applyIdempotencyAbandon
  case electionCampaign =>
    exact {
      locks, semaphores, elections := b.elections.applyElectionCampaign
      idempotency := b.idempotency.imp fun _ h => h.trans le
      tasks       := b.tasks.imp fun _ h => h.trans le
      handoffs    := b.handoffs.imp fun _ h => ⟨h.1.trans le, fun t ht => (h.2 t ht).trans le⟩
    }
  case electionRenew => exact b.onElections b.elections.applyElectionRenew
  case electionResign => exact b.onElections b.elections.applyElectionResign
  case activateCommandProtocol =>
    simp only [Store.applyCommand, applyActivateCommandProtocol]
    split
    case isTrue => exact { b with }
    case isFalse => split <;> exact b
  all_goals exact b.step e rfl rfl rfl rfl

theorem Below.applyAt (b : s.Below) (backs : (s.prepare o c now).Backs now c) :
    (s.applyAt o c now).1.Below :=
  b.prepare.applyCommand backs (applyCommand_steps prepare_queueLive prepare_queuesLive)

omit [External] in
theorem fromToken_le_max {name : String} {h : HandoffRecord} (mem : s.handoffs[name]? = some h) :
    h.fromToken ≤ s.maxReferencedFencingToken := by
  refine (foldl_max_le_iff.mp (Nat.le_refl _)).2 h.fromToken ?_
  simp only [referencedTokens, List.mem_append, List.mem_flatMap, Prod.exists, HashMap.mem_toList]
  exact .inr ⟨name, h, mem, List.mem_cons_self⟩

omit [External] in
-- An offer that is stored makes its token one that the store references.
theorem Backs.of_onHandoffs {name resource fromOwner toOwner : String} {fromToken ttlMs : Nat}
    {context : Value}
    (le : (s.onHandoffs (s.handoffs.applyHandoffOffer s.fencing now name resource fromOwner toOwner
      fromToken context ttlMs)).1.maxReferencedFencingToken ≤ s.fencing.nextFencingToken) :
    s.Backs now (.handoffOffer name resource fromOwner toOwner fromToken context ttlMs) := by
  by_contra h
  simp only [Backs, not_or, not_le, not_lt, not_exists, not_and] at h
  have ⟨above, within, free⟩ := h
  have none : s.handoffs[name]?.filter (fun e => e.effectiveStatus now = .offered) = none := by
    rw [Option.filter_eq_none_iff]
    exact fun e mem => by simpa using free e mem
  have stored : ∃ record, (s.onHandoffs (s.handoffs.applyHandoffOffer s.fencing now name resource
      fromOwner toOwner fromToken context ttlMs)).1.handoffs[name]? = some record ∧
      record.fromToken = fromToken := by
    simp only [Handoffs.applyHandoffOffer, within.not_gt, ↓reduceIte, none]
    simp [onHandoffs]
  have ⟨record, mem, token⟩ := stored
  have := (fromToken_le_max mem).trans le
  omega

omit [External] in
theorem onHandoffs_fencing {r : Handoffs × Value} : (s.onHandoffs r).1.fencing = s.fencing :=
  rfl

theorem Backs.of_applyCommand
    (le : (s.applyCommand o revision now c).1.maxReferencedFencingToken ≤
      (s.applyCommand o revision now c).1.fencing.nextFencingToken) : s.Backs now c := by
  cases c
  case handoffOffer =>
    rw [Store.applyCommand, onHandoffs_fencing] at le
    exact .of_onHandoffs le
  all_goals trivial

-- In every run whose offers are backed, the counter is a floor under which no record carries a
-- token, so the store accepts its own snapshot in this respect. The next command keeps it that way
-- iff it does not make an offer that is not backed.
theorem fencing_floor (r : Runs (fun s o c now => (s.prepare o c now).Backs now c) .empty s) :
    (s.maxReferencedFencingToken ≤ s.fencing.nextFencingToken) ∧
    (s.fencing.nextFencingToken ≤ maxFencingToken) ∧
    (s.validateFencing = .ok ()) ∧
    (∀ o c now,
      (s.applyAt o c now).1.validateFencing = .ok () ↔ (s.prepare o c now).Backs now c) := by
  have ⟨b, v⟩ : s.Below ∧ s.fencing.Valid := by
    induction r
    case refl => exact ⟨.empty, .zero⟩
    case apply backs _ ih => exact ⟨ih.1.applyAt backs, applyAt_steps.fencing.valid ih.2⟩
  refine ⟨b.max_le, v.le_max, validateFencing_eq_ok_iff.mpr ⟨b.max_le, v.le_max⟩, fun o c now => ?_⟩
  constructor
  case mp => exact fun h => .of_applyCommand (validateFencing_eq_ok_iff.mp h).1
  case mpr =>
    intro backs
    have v : (s.applyAt o c now).1.fencing.Valid := applyAt_steps.fencing.valid v
    exact validateFencing_eq_ok_iff.mpr ⟨(b.applyAt backs).max_le, v.le_max⟩

omit [External] in
-- The lock is granted with the token of which the offer makes use.
theorem fencing_floor_backed :
    letI := External.fixed
    let s₁ := (Store.empty.applyAt .sorted (.lockAcquireV2 ["a"] "h" 10 true none) 0).1
    let s₂ := (s₁.applyAt .sorted (.handoffOffer "n" "a" "h" "w" 1 .null 10) 1).1
    s₂.maxReferencedFencingToken ≤ s₂.fencing.nextFencingToken ∧ s₂.validateFencing = .ok () := by
  let := External.fixed
  intro s₁ s₂
  have next : (s₁.prepare .sorted (.handoffOffer "n" "a" "h" "w" 1 .null 10) 1).fencing.nextFencingToken
      = 1 := by decide +kernel
  have r : Runs (fun s o c now => (s.prepare o c now).Backs now c) .empty s₂ :=
    .apply (.inl next.ge) (.apply trivial .refl)
  exact ⟨(fencing_floor r).1, (fencing_floor r).2.2.1⟩

omit [External] in
-- An offer is accepted with a token that no one was ever given, and the store then refuses its own
-- snapshot.
theorem fencing_floor_unbacked :
    letI := External.fixed
    let body : Http.Handoffs.OfferBody := {
      name := "n", resource := "a", fromOwner := "h", toOwner := "w", fromToken := 1
      context := .null, ttlMs := none
    }
    ∃ command, Http.Handoffs.offer ⟨"org", by decide⟩ body = .ok command ∧
      let s := (Store.empty.applyAt .sorted command 0).1
      s.fencing.nextFencingToken < s.maxReferencedFencingToken ∧
      s.validateFencing = .error ("next_fencing_token 0 is below the highest referenced fencing " ++
        "token 1; restoring would re-mint issued tokens") := by
  let := External.fixed
  exact ⟨_, rfl, by decide +kernel, by decide +kernel⟩

end Store
