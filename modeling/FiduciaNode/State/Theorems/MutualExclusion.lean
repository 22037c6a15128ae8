import FiduciaNode.State.Theorems.Locks

namespace LockManager

variable {m : LockManager} {f f₁ f₂ : FencingCounter} {t t₁ t₂ : Table} {c : Command} {now : Nat}

theorem enqueue_entries {input : LockAcquireInput} {keys : List String} {e : LockId × QueuedLock}
    (h : e ∈ (m.enqueue now input keys).queue.entries) :
    (e ∈ m.queue.entries) ∨
    (e.1 = (input.holder, keys) ∧ e.2.holder = input.holder ∧ e.2.keys = keys ∧
      e.2.requestId = input.requestId) := by
  simp only [enqueue] at h
  split at h
  case isFalse => exact .inl h
  case isTrue =>
    cases IndexedQueue.mem_pushBack h
    case inl h => exact .inl h
    case inr h => exact .inr (h ▸ ⟨rfl, rfl, rfl, rfl⟩)

@[simp]
theorem enqueue_grants : (m.enqueue now input keys).grants = m.grants := by
  simp only [enqueue]
  split <;> rfl

@[simp]
theorem enqueue_held : (m.enqueue now input keys).held = m.held := by
  simp only [enqueue]
  split <;> rfl

-- An acquire that is not answered by a grant does not repeat the request of any grant: that grant
-- would own the first key.
theorem WellFormed.not_granted_of_fresh (w : WellFormed (m, f)) {input : LockAcquireInput}
    (fresh : m.reacquired? input keys = none) {token : Nat} {grant : LockGrant}
    (mem : m.grants[token]? = some grant) :
    ¬(grant.holder = input.holder ∧ grant.keys = keys ∧ grant.requestId = input.requestId) := by
  intro ⟨hh, hk, hr⟩
  have ⟨key, rest, hkeys⟩ := List.exists_cons_of_ne_nil (w.grant_keys mem).1
  have held := (w.held_iff key token).mpr ⟨grant, mem, by simp [hkeys]⟩
  have found : m.reacquired? input keys = some (token, grant) :=
    reacquired?_eq_some_iff.mpr ⟨key, by simp [← hk, hkeys], held, mem, hh, hk, .inr hr⟩
  simp [fresh] at found

theorem WellFormed.enqueue (w : WellFormed (m, f)) {input : LockAcquireInput}
    (keys : canonicalKeys input.keys ≠ [])
    (fresh : m.reacquired? input (canonicalKeys input.keys) = none) :
    WellFormed (m.enqueue now input (canonicalKeys input.keys), f) := by
  constructor
  case held_iff => simpa using w.held_iff
  case token_eq => exact fun h => w.token_eq (enqueue_grants ▸ h)
  case token_le => exact fun h => w.token_le (enqueue_grants ▸ h)
  case grant_keys => exact fun h => w.grant_keys (enqueue_grants ▸ h)
  case queue_id =>
    intro e he
    cases enqueue_entries he
    case inl h => exact w.queue_id e h
    case inr h => simp [h]
  case queue_keys =>
    intro e he
    cases enqueue_entries he
    case inl h => exact w.queue_keys e h
    case inr h => exact h.2.2.1 ▸ canonicalKeys_canonical keys
  case not_granted =>
    intro e he token grant mem
    rw [enqueue_grants] at mem
    cases enqueue_entries he
    case inl h => exact w.not_granted e h mem
    case inr h =>
      have ⟨_, hh, hk, hr⟩ := h
      exact hh ▸ hk ▸ hr ▸ w.not_granted_of_fresh fresh mem

theorem WellFormed.promote (w : WellFormed (m, f₁)) {i : LockId}
    (first : m.lockFirstGrantable = some i) (mem : m.queue.get i = some waiter)
    (next : f₁.nextToken = some (token, f₂)) : WellFormed (m.promote i waiter token now, f₂) := by
  have ⟨_, _, _, free, _⟩ := lockFirstGrantable_eq_some first mem
  have hm := IndexedQueue.get_eq_some_iff.mp mem
  have w' : WellFormed ({ m with queue := m.queue.remove i }, f₁) :=
    w.dequeue fun _ h => (IndexedQueue.mem_remove.mp h).left
  refine w'.give next (w.queue_keys _ hm) free fun e he ⟨hh, hk, _⟩ => ?_
  -- No other entry of the queue has the same holder and the same keys.
  have ⟨he, ne⟩ := IndexedQueue.mem_remove.mp he
  exact ne ((w.queue_id e he).trans ((w.queue_id _ hm).trans (Prod.ext hh hk)).symm)

theorem Step.wellFormed (e : Step c now t₁ t₂) (w : WellFormed t₁) : WellFormed t₂ := by
  cases e with
  | mint e => exact w.mint (FencingCounter.Steps.le (.single e))
  | renew mem => exact w.renew mem
  | release token => exact w.release token
  | expire => exact w.dequeue fun _ h => (IndexedQueue.mem_retain.mp h).left
  | cancel => exact w.dequeue fun _ h => (IndexedQueue.mem_remove.mp h).left
  | enqueue request keys fresh => exact w.enqueue keys fresh
  | grant request keys free next =>
    have ⟨free, queue⟩ := blocked_eq_false_iff.mp free
    refine w.give next (canonicalKeys_canonical keys) free fun e he ⟨_, hk, _⟩ => ?_
    -- The queue would hold the very keys of the request, of which there is at least one.
    have ⟨key, h⟩ := List.exists_mem_of_ne_nil _ keys
    exact queue e he h (hk ▸ h)
  | promote first mem live next => exact w.promote first mem next

theorem Steps.wellFormed (e : Steps c now t₁ t₂) (w : WellFormed t₁) : WellFormed t₂ := by
  induction e
  case refl => exact w
  case tail e ih => exact e.wellFormed ih

-- The request of the command, or a request that is queued.
def Requested (m : LockManager) (c : Command) (holder : String) (keys : List String)
    (requestId : Option String) : Prop :=
  (∃ input, c.lockRequest = some input ∧
    holder = input.holder ∧ keys = canonicalKeys input.keys ∧ requestId = input.requestId) ∨
  (∃ e ∈ m.queue.entries, holder = e.2.holder ∧ keys = e.2.keys ∧ requestId = e.2.requestId)

-- A command keeps and grants nothing but whole requests.
structure Grants (c : Command) (m₁ m₂ : LockManager) : Prop where
  queue  : ∀ e ∈ m₂.queue.entries, Requested m₁ c e.2.holder e.2.keys e.2.requestId
  grants : ∀ {token : Nat} {grant}, m₂.grants[token]? = some grant →
             (m₁.grants[token]? ≠ none) ∨
             Requested m₁ c grant.holder grant.keys grant.requestId

theorem Grants.refl (m : LockManager) : Grants c m m where
  queue  := fun e h => .inr ⟨e, h, rfl, rfl, rfl⟩
  grants := fun h => .inl (by simp [h])

theorem Grants.step (g : Grants c m t₁.1) (e : Step c now t₁ t₂) : Grants c m t₂.1 := by
  cases e with
  | mint => exact g
  | renew mem =>
    refine { g with grants := fun h => ?_ }
    rw [HashMap.get_insert] at h
    split at h
    case isTrue e =>
      have := g.grants mem
      cases h
      exact e ▸ this
    case isFalse => exact g.grants h
  | release =>
    refine { queue := by simpa using g.queue, grants := fun h => ?_ }
    rw [grants_releaseGrant] at h
    split at h
    case isTrue => contradiction
    case isFalse => exact g.grants h
  | expire => exact { g with queue := fun e h => g.queue e (IndexedQueue.mem_retain.mp h).left }
  | cancel => exact { g with queue := fun e h => g.queue e (IndexedQueue.mem_remove.mp h).left }
  | enqueue request =>
    refine { queue := fun e h => ?_, grants := fun h => g.grants (enqueue_grants ▸ h) }
    cases enqueue_entries h
    case inl h => exact g.queue e h
    case inr h => exact .inl ⟨_, request, h.2⟩
  | grant request =>
    refine { g with grants := fun h => ?_ }
    simp only [give, installGrant, HashMap.get_insert] at h
    split at h
    case isTrue =>
      cases h
      exact .inr (.inl ⟨_, request, rfl, rfl, rfl⟩)
    case isFalse => exact g.grants h
  | promote first mem =>
    refine { queue := fun e h => g.queue e (IndexedQueue.mem_remove.mp h).left, grants := ?_ }
    intro _ _ h
    simp only [promote, give, installGrant, HashMap.get_insert] at h
    split at h
    case isTrue =>
      cases h
      exact .inr (g.queue _ (IndexedQueue.get_eq_some_iff.mp mem))
    case isFalse => exact g.grants h

theorem Steps.grants (e : Steps c now t₁ t₂) : Grants c t₁.1 t₂.1 := by
  induction e
  case refl => exact .refl _
  case tail e ih => exact ih.step e

end LockManager

namespace Store

variable [External] {s : Store}

theorem Reachable.wellFormed (r : Reachable s) : LockManager.WellFormed (s.locks, s.fencing) := by
  induction r
  case empty => exact .empty
  case apply ih => exact applyAt_steps.locks.wellFormed ih

-- The union locks of a reachable store: both tables agree on who holds what, a grant owns a
-- non-empty set of keys that it shares with no other grant, a command that gives a key to a new
-- grant gives it all keys of some request, and no request is both granted and queued.
theorem Reachable.union_locks_exclusive (r : Reachable s) :
    (∀ (key : String) (token : Nat),
      s.locks.held[key]? = some token ↔
      ∃ grant, s.locks.grants[token]? = some grant ∧ key ∈ grant.keys) ∧
    (∀ (token : Nat) (grant : LockGrant), s.locks.grants[token]? = some grant →
      grant.fencingToken = token ∧ grant.keys ≠ [] ∧ grant.keys.Pairwise (· < ·)) ∧
    (∀ (token₁ token₂ : Nat) (grant₁ grant₂ : LockGrant),
      s.locks.grants[token₁]? = some grant₁ → s.locks.grants[token₂]? = some grant₂ →
      token₁ ≠ token₂ → grant₁.keys.Disjoint grant₂.keys) ∧
    (∀ (o : IterOrder) (c : Command) (now : Nat) (key : String) (token : Nat),
      (s.applyAt o c now).1.locks.held[key]? = some token → s.locks.grants[token]? = none →
      ∃ holder keys requestId, s.locks.Requested c holder keys requestId ∧ key ∈ keys ∧
        ∀ k ∈ keys, (s.applyAt o c now).1.locks.held[k]? = some token) ∧
    (∀ (id : LockId) (waiter : QueuedLock) (token : Nat) (grant : LockGrant),
      (id, waiter) ∈ s.locks.queue.entries → s.locks.grants[token]? = some grant →
      ¬(grant.holder = waiter.holder ∧ grant.keys = waiter.keys ∧
        grant.requestId = waiter.requestId)) := by
  have w := r.wellFormed
  refine ⟨w.held_iff, ?_, ?_, ?_, ?_⟩
  case refine_1 => exact fun _ _ h => ⟨w.token_eq h, w.grant_keys h⟩
  case refine_2 => exact fun _ _ _ _ h₁ h₂ => w.disjoint h₁ h₂
  case refine_3 =>
    intro o c now key token held fresh
    have w' := (Reachable.apply o c now r).wellFormed
    have ⟨grant, mem, hk⟩ := (w'.held_iff key token).mp held
    have requested := (applyAt_steps.locks.grants.grants mem).resolve_left (by simp [fresh])
    exact ⟨_, _, _, requested, hk, fun k h => (w'.held_iff k token).mpr ⟨grant, mem, h⟩⟩
  case refine_4 => exact fun _ _ _ _ h₁ h₂ => w.not_granted _ h₁ h₂

omit [External] in
theorem union_locks_exclusive_acquired :
    letI := External.fixed
    let s := (Store.empty.applyAt .sorted (.lockAcquireV2 ["b", "a"] "h" 10 true none) 0).1
    s.locks.held["a"]? = some 1 ∧
    ∃ grant, s.locks.grants[1]? = some grant ∧ "a" ∈ grant.keys :=
  letI := External.fixed
  have held : (Store.empty.applyAt .sorted
      (.lockAcquireV2 ["b", "a"] "h" 10 true none) 0).1.locks.held["a"]? = some 1 := by
    decide +kernel
  ⟨held, ((Reachable.apply _ _ _ .empty).union_locks_exclusive.left _ _).mp held⟩

end Store
