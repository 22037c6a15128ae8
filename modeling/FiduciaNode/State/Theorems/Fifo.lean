import FiduciaNode.State.Theorems.MutualExclusion

namespace GrantEvent

-- The request did not overtake one that it conflicts with, and it was still wanted.
structure Fair (e : GrantEvent) : Prop where
  ahead    : ∀ q ∈ e.ahead, e.grant.keys.Disjoint q.keys
  deadline : ∀ {waiter deadline}, e.waiter = some waiter → waiter.waitExpiresMs = some deadline →
               e.now < deadline

end GrantEvent

namespace LockManager

variable {m : LockManager} {t₁ t₂ : Table} {c : Command} {now : Nat}

theorem takeWhile_subset {p : α → Bool} {x : α} (h : ¬p x) (l₁ l₂ : List α) :
    (l₁ ++ x :: l₂).takeWhile p ⊆ l₁ := by
  induction l₁
  case nil => simp [h]
  case cons y l₁ ih =>
    rw [List.cons_append, List.takeWhile_cons]
    split
    case isTrue => exact List.cons_subset_cons _ ih
    case isFalse => simp

@[simp]
theorem releaseGrant_granted : (m.releaseGrant token).granted = m.granted := by
  simp only [releaseGrant]
  split <;> rfl

@[simp]
theorem enqueue_granted : (m.enqueue now input keys).granted = m.granted := by
  simp only [enqueue]
  split <;> rfl

-- Every grant is recorded, and every record is fair.
structure Fifo (m : LockManager) : Prop where
  fair     : ∀ e ∈ m.granted, e.Fair
  recorded : ∀ {token : Nat} {grant}, m.grants[token]? = some grant →
               ∃ e ∈ m.granted, e.grant.fencingToken = token ∧ e.grant.holder = grant.holder ∧
                 e.grant.keys = grant.keys ∧ e.grant.requestId = grant.requestId

namespace Fifo

theorem empty : Fifo .empty where
  fair     := by simp [LockManager.empty]
  recorded := by simp [LockManager.empty]

theorem give (i : Fifo m) {grant : LockGrant} (fair : GrantEvent.Fair ⟨grant, now, waiter, ahead⟩) :
    Fifo (m.give grant now waiter ahead) where
  fair e h := by
    cases List.mem_cons.mp h
    case inl h => exact h ▸ fair
    case inr h => exact i.fair e h
  recorded h := by
    simp only [LockManager.give, installGrant, HashMap.get_insert] at h
    split at h
    case isTrue e =>
      cases h
      exact ⟨⟨grant, now, waiter, ahead⟩, List.mem_cons_self, e, rfl, rfl, rfl⟩
    case isFalse =>
      obtain ⟨e, he, h⟩ := i.recorded h
      exact ⟨e, List.mem_cons_of_mem _ he, h⟩

theorem dequeue (i : Fifo m) {queue : IndexedQueue LockId QueuedLock} : Fifo { m with queue } :=
  { i with }

theorem release (i : Fifo m) {token : Nat} : Fifo (m.releaseGrant token) where
  fair := by simpa using i.fair
  recorded h := by
    rw [grants_releaseGrant] at h
    split at h
    case isTrue => contradiction
    case isFalse => simpa using i.recorded h

theorem enqueue (i : Fifo m) : Fifo (m.enqueue now input keys) where
  fair := by simpa using i.fair
  recorded h := by simpa using i.recorded (enqueue_grants ▸ h)

theorem promote (i : Fifo m) {id : LockId} {waiter : QueuedLock}
    (first : m.lockFirstGrantable = some id) (mem : m.queue.get id = some waiter)
    (live : waiterIsLive waiter.waitExpiresMs now) : Fifo (m.promote id waiter token now) := by
  have ⟨before, after, hl, _, disjoint⟩ := lockFirstGrantable_eq_some first mem
  refine give i.dequeue { ahead := ?_, deadline := ?_ }
  case refine_1 =>
    intro q hq
    have ⟨e, he, h⟩ := List.mem_map.mp hq
    simp only [IndexedQueue.iter, hl] at he
    exact h ▸ disjoint e (takeWhile_subset (by simp) before after he)
  case refine_2 =>
    intro _ _ hw hd
    cases hw
    simpa [waiterIsLive, hd] using live

theorem step (i : Fifo t₁.1) (e : Step c now t₁ t₂) : Fifo t₂.1 := by
  cases e with
  | mint => exact i
  | expire => exact i.dequeue
  | cancel => exact i.dequeue
  | release => exact i.release
  | enqueue => exact i.enqueue
  | promote first mem live => exact i.promote first mem live
  | renew mem =>
    refine { i with recorded := fun h => ?_ }
    rw [HashMap.get_insert] at h
    split at h
    case isTrue e =>
      have := i.recorded mem
      cases h
      exact e ▸ this
    case isFalse => exact i.recorded h
  | grant request keys free =>
    refine i.give { ahead := ?_, deadline := fun h => nomatch h }
    intro q hq
    have ⟨e, he, h⟩ := List.mem_map.mp hq
    exact h ▸ (blocked_eq_false_iff.mp free).2 e he

theorem steps (i : Fifo t₁.1) (e : Steps c now t₁ t₂) : Fifo t₂.1 := by
  induction e
  case refl => exact i
  case tail e ih => exact ih.step e

end Fifo

theorem applyLockAcquire_queue [External] {input : LockAcquireInput}
    (queued : m.queue.contains (input.holder, canonicalKeys input.keys)) :
    (m.applyLockAcquire ledger f revision now input).1.queue = m.queue := by
  simp only [applyLockAcquire]
  split
  case isTrue => rfl
  case isFalse =>
    split
    case isTrue => rfl
    case isFalse =>
      split
      case h_1 => rfl
      case h_2 =>
        split
        case isTrue => simp [enqueue, queued]
        case isFalse => split <;> rfl

end LockManager

namespace Store

variable [External] {s : Store}

theorem Reachable.fifo (r : Reachable s) : s.locks.Fifo := by
  induction r
  case empty => exact .empty
  case apply ih => exact ih.steps applyAt_steps.locks

theorem applyAt_queue {o : IterOrder} {c : Command} {now : Nat} {input : LockAcquireInput}
    (request : c.lockRequest = some input)
    (queued : (s.prepare o c now).locks.queue.contains (input.holder, canonicalKeys input.keys)) :
    (s.applyAt o c now).1.locks.queue = (s.prepare o c now).locks.queue := by
  cases c <;> cases request
  all_goals exact LockManager.applyLockAcquire_queue queued

-- In every run each grant was given before all others that conflict with it and still wait in
-- front of it, no request was promoted at or after its deadline, and a repeated attempt that the
-- sweep of its command finds in the queue leaves the queue as it is.
theorem Reachable.no_barging (r : Reachable s) :
    (∀ (token : Nat) (grant : LockGrant), s.locks.grants[token]? = some grant →
      ∃ e ∈ s.locks.granted, e.grant.fencingToken = token ∧ e.grant.holder = grant.holder ∧
        e.grant.keys = grant.keys ∧ e.grant.requestId = grant.requestId) ∧
    (∀ e ∈ s.locks.granted, ∀ q ∈ e.ahead, e.grant.keys.Disjoint q.keys) ∧
    (∀ e ∈ s.locks.granted, ∀ (waiter : QueuedLock) (deadline : Nat),
      e.waiter = some waiter → waiter.waitExpiresMs = some deadline → e.now < deadline) ∧
    (∀ (o : IterOrder) (c : Command) (now : Nat) (input : LockAcquireInput) (waiter : QueuedLock),
      c.lockRequest = some input →
      (s.prepare o c now).locks.queue.get (input.holder, canonicalKeys input.keys) = some waiter →
      waiter.requestId = input.requestId →
      (s.applyAt o c now).1.locks.queue = (s.prepare o c now).locks.queue) := by
  have i := r.fifo
  refine ⟨fun _ _ => i.recorded, ?_, ?_, ?_⟩
  case refine_1 => exact fun e he => (i.fair e he).ahead
  case refine_2 => exact fun e he _ _ => (i.fair e he).deadline
  case refine_3 =>
    intro o c now input waiter request queued _
    exact applyAt_queue request
      (IndexedQueue.contains_of_mem (IndexedQueue.get_eq_some_iff.mp queued))

omit [External] in
-- The second holder waits for a key of the first one.
theorem no_barging_acquired :
    letI := External.fixed
    let s₁ := (Store.empty.applyAt .sorted (.lockAcquireV2 ["b", "a"] "h" 10 true none) 0).1
    let s₂ := (s₁.applyAt .sorted (.lockAcquireV2 ["b"] "w" 10 true none) 1).1
    s₂.locks.queue.len = 1 ∧
    ∀ e ∈ s₂.locks.granted, ∀ q ∈ e.ahead, e.grant.keys.Disjoint q.keys :=
  letI := External.fixed
  ⟨by decide +kernel, (Reachable.apply _ _ _ (.apply _ _ _ .empty)).no_barging.2.1⟩

end Store
