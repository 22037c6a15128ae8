import FiduciaNode.State.Theorems.Order

namespace Store

variable [External] {s : Store} {o : IterOrder} {c : Command} {now revision : Nat}

section Keyed

omit [External] in
theorem onHandoffs_keyed {r : Handoffs × Value} (k : s.barriers.Keyed) :
    (s.onHandoffs r).1.barriers.Keyed :=
  k

theorem applyCommand_keyed (k : s.barriers.Keyed) :
    (s.applyCommand o revision now c).1.barriers.Keyed := by
  cases c
  case barrierCreate => exact k.applyBarrierCreate o
  case barrierArrive => exact k.applyBarrierArrive o
  case handoffOffer => exact onHandoffs_keyed k
  case taskClaim =>
    simp only [applyCommand, applyTaskClaim]
    split <;> exact k
  case activateCommandProtocol =>
    simp only [applyCommand, applyActivateCommandProtocol]
    split
    case isTrue => exact k
    case isFalse => split <;> exact k
  all_goals exact k

omit [External] in
theorem prepare_keyed (k : s.barriers.Keyed) : (s.prepare o c now).barriers.Keyed := by
  simp only [prepare]
  split <;> exact k

theorem Reachable.keyed (r : Reachable s) : s.barriers.Keyed := by
  induction r
  case empty => simp [Store.empty, Barriers.Keyed]
  case apply ih => exact applyCommand_keyed (prepare_keyed ih)

end Keyed

-- At the start of the command a token is left and more than one semaphore to mint it for.
def Contended (s : Store) (c : Command) (now : Nat) : Prop :=
  c.isProtocolActivation = false ∧
  s.semaphores.Contended (s.locks.expireDue .sorted s.fencing now).2 now

instance : Decidable (s.Contended c now) :=
  inferInstanceAs (Decidable (_ ∧ _))

omit [External] in
theorem prepare_order (h : ¬s.Contended c now) (o₁ o₂ : IterOrder) :
    s.prepare o₁ c now = s.prepare o₂ c now := by
  simp only [prepare]
  split
  case isTrue => rfl
  case isFalse hc =>
    have free (o : IterOrder) :
        ¬s.semaphores.Contended (s.locks.expireDue o s.fencing now).2 now := by
      rw [LockManager.expireDue_order o .sorted]
      exact fun h' => h ⟨by simpa using hc, h'⟩
    simp only [expireDue, LockManager.expireDue_order o₁ o₂]
    rw [Semaphores.expireDue_order (free o₂) o₁ o₂]

theorem applyCommand_order (w : LockManager.WellFormed (s.locks, s.fencing)) (k : s.barriers.Keyed)
    (o₁ o₂ : IterOrder) : s.applyCommand o₁ revision now c = s.applyCommand o₂ revision now c := by
  cases c
  case barrierCreate =>
    simp only [applyCommand, Barriers.applyBarrierCreate_order k o₁ o₂]
  case barrierArrive =>
    simp only [applyCommand, Barriers.applyBarrierArrive_order k o₁ o₂]
  case lockCancel | lockCancelAttempt =>
    simp only [applyCommand, applyLockCancel, w.applyLockCancel_order o₁ o₂]
  all_goals rfl

theorem Reachable.applyAt_order (r : Reachable s) (h : ¬s.Contended c now) (o₁ o₂ : IterOrder) :
    s.applyAt o₁ c now = s.applyAt o₂ c now := by
  have w : LockManager.WellFormed ((s.prepare o₂ c now).locks, (s.prepare o₂ c now).fencing) :=
    prepare_steps.locks.wellFormed r.wellFormed
  simp only [applyAt, prepare_order h o₁ o₂, applyCommand_order w (prepare_keyed r.keyed) o₁ o₂]

-- The stores and results of a replica that applies a log, where `orders` are the orders in which
-- the replica visits its hash maps.
def replay (orders : Nat → IterOrder) (s : Store) :
    List (Command × Nat) → List (Store × ApplyResult)
  | [] => []
  | (c, now) :: log =>
    let applied := s.applyAt (orders 0) c now
    applied :: replay (fun i => orders (i + 1)) applied.1 log

def Uncontended (orders : Nat → IterOrder) (s : Store) : List (Command × Nat) → Prop
  | [] => True
  | (c, now) :: log =>
    ¬s.Contended c now ∧
    Uncontended (fun i => orders (i + 1)) (s.applyAt (orders 0) c now).1 log

instance decidableUncontended (orders : Nat → IterOrder) (s : Store) (log : List (Command × Nat)) :
    Decidable (Uncontended orders s log) :=
  match log with
  | [] => isTrue trivial
  | (c, now) :: log =>
    have := decidableUncontended (fun i => orders (i + 1)) (s.applyAt (orders 0) c now).1 log
    inferInstanceAs (Decidable (_ ∧ _))

theorem Reachable.replay_order (r : Reachable s) {orders₁ orders₂ : Nat → IterOrder}
    {log : List (Command × Nat)} (u : Uncontended orders₁ s log) :
    s.replay orders₁ log = s.replay orders₂ log := by
  induction log generalizing s orders₁ orders₂
  case nil => rfl
  case cons entry log ih =>
    have ⟨h, u⟩ := u
    have step := r.applyAt_order h (orders₁ 0) (orders₂ 0)
    simp only [replay, ← step]
    rw [ih (.apply (orders₁ 0) entry.1 entry.2 r) u]

-- Replicas that apply a log to the empty store agree on every store and on every result, whatever
-- the order in which each of them visits its hash maps, as long as no command finds a token to be
-- minted for more than one semaphore.
theorem replicas_agree (orders₁ orders₂ : Nat → IterOrder) (log : List (Command × Nat))
    (u : Uncontended orders₁ .empty log) :
    Store.empty.replay orders₁ log = Store.empty.replay orders₂ log :=
  Reachable.empty.replay_order u

omit [External] in
-- The permit of the first holder runs out, and the waiter gets the next token in every order.
theorem replicas_agree_on_expiry :
    letI := External.fixed
    Store.empty.replay (fun _ => .sorted) [
      (.semaphoreAcquireV2 "a" "h" 1 10 true none, 0), (.semaphoreAcquireV2 "a" "w" 1 10 true none, 0),
      (.kvDelete "k", 20)
    ] =
    Store.empty.replay (fun _ => .reversed) [
      (.semaphoreAcquireV2 "a" "h" 1 10 true none, 0), (.semaphoreAcquireV2 "a" "w" 1 10 true none, 0),
      (.kvDelete "k", 20)
    ] :=
  letI := External.fixed
  replicas_agree _ _ _ (by decide +kernel)

omit [External] in
-- Two permits run out at once, and each of the two waiters gets the token that the other one gets on
-- the other replica.
theorem replicas_disagree_on_expiry :
    letI := External.fixed
    Store.empty.replay (fun _ => .sorted) [
      (.semaphoreAcquireV2 "a" "h" 1 10 true none, 0), (.semaphoreAcquireV2 "b" "h" 1 10 true none, 0),
      (.semaphoreAcquireV2 "a" "w" 1 10 true none, 0), (.semaphoreAcquireV2 "b" "w" 1 10 true none, 0),
      (.kvDelete "k", 20)
    ] ≠
    Store.empty.replay (fun _ => .reversed) [
      (.semaphoreAcquireV2 "a" "h" 1 10 true none, 0), (.semaphoreAcquireV2 "b" "h" 1 10 true none, 0),
      (.semaphoreAcquireV2 "a" "w" 1 10 true none, 0), (.semaphoreAcquireV2 "b" "w" 1 10 true none, 0),
      (.kvDelete "k", 20)
    ] := by
  intro h
  have tokens := congrArg (fun run => run.getLast?.map fun (applied : Store × ApplyResult) =>
    applied.1.semaphores["a"]?.map fun (sem : Semaphore) => sem.holders.map (·.fencingToken)) h
  exact absurd tokens (by decide +kernel)

end Store
