import FiduciaNode.State.Theorems.MutualExclusion
import FiduciaNode.State.Theorems.Semaphores

namespace LockManager

variable {m : LockManager} {f : FencingCounter} {now : Nat}

-- A request is passed over iff it wants a key that is held or wanted by a request before it.
theorem firstGrantable_eq_none_iff {held : HashMap String Nat} {reserved : List String}
    {l : List (LockId × QueuedLock)} :
    (firstGrantable held reserved l = none) ↔
    (∀ before id waiter after, l = before ++ (id, waiter) :: after →
      ∃ key ∈ waiter.keys, held.contains key ∨ key ∈ reserved ∨ ∃ e ∈ before, key ∈ e.2.keys) := by
  induction l generalizing reserved
  case nil => simp [firstGrantable]
  case cons e l ih =>
    obtain ⟨i, q⟩ := e
    simp only [firstGrantable]
    split
    case isTrue h =>
      simp only [List.any_eq_true, Bool.or_eq_true, List.contains_eq_mem, decide_eq_true_eq] at h
      rw [ih]
      constructor
      case mp =>
        intro hl before id waiter after e
        cases before
        case nil =>
          cases e
          obtain ⟨key, hk, h⟩ := h
          exact ⟨key, hk, by tauto⟩
        case cons =>
          cases e
          obtain ⟨key, hk, h⟩ := hl _ _ _ _ rfl
          exact ⟨key, hk, by simpa [or_assoc] using h⟩
      case mpr =>
        intro hl before id waiter after e
        obtain ⟨key, hk, h⟩ := hl ((i, q) :: before) id waiter after (by simp [e])
        exact ⟨key, hk, by simpa [or_assoc] using h⟩
    case isFalse h =>
      simp only [reduceCtorEq, false_iff]
      intro hl
      obtain ⟨key, hk, hb⟩ := hl [] i q l rfl
      exact h (List.any_eq_true.mpr ⟨key, hk, by simpa using hb⟩)

-- No request that waits could be granted, unless there is no token left for it.
def Settled (t : Table) : Prop :=
  t.2.Exhausted ∨ t.1.lockFirstGrantable = none

namespace Settled

theorem empty : Settled (.empty, .zero) :=
  .inr rfl

theorem mint {f₁ f₂ : FencingCounter} (s : Settled (m, f₁)) (e : FencingCounter.Steps f₁ f₂) :
    Settled (m, f₂) := by
  cases s
  case inl h => exact .inl (e.eq_of_exhausted h ▸ h)
  case inr h => exact .inr h

-- Every iteration takes a request from the queue, so the loop ends because nothing is left to do.
theorem promoteLoop {fuel : Nat} (h : m.queue.len ≤ fuel) :
    Settled ((m.promoteLoop f now fuel).1, (m.promoteLoop f now fuel).2.1) := by
  induction fuel generalizing m f
  case zero =>
    have : m.queue.entries = [] := List.length_eq_zero_iff.mp (Nat.le_zero.mp h)
    exact .inr (by simp [LockManager.promoteLoop, lockFirstGrantable, IndexedQueue.iter, this,
      firstGrantable])
  case succ fuel ih =>
    simp only [LockManager.promoteLoop]
    split
    case h_1 none => exact .inr none
    case h_2 i first =>
      obtain ⟨_, waiter, _, hl, _⟩ := firstGrantable_eq_some first
      have hm : (i, waiter) ∈ m.queue.entries := by
        rw [show m.queue.entries = m.queue.iter from rfl, hl]
        simp
      split
      case h_1 token f₂ waiter next mem =>
        refine ih ?_
        have : (m.queue.remove i).len < m.queue.len :=
          List.length_filter_lt_length_iff_exists.mpr ⟨_, hm, by simp⟩
        simp only [promote_queue]
        omega
      case h_2 h =>
        cases next : f.nextToken
        case none => exact .inl (FencingCounter.nextToken_eq_none_iff.mp next)
        case some r => exact (h r.1 r.2 waiter next (IndexedQueue.get_eq_some_iff.mpr hm)).elim

theorem lockPromote : Settled ((m.lockPromote f now).1, (m.lockPromote f now).2.1) :=
  promoteLoop (Nat.le_refl _)

theorem applyLockRelease (s : Settled (m, f)) :
    Settled ((m.applyLockRelease f revision now holder token).1,
      (m.applyLockRelease f revision now holder token).2.1) := by
  simp only [LockManager.applyLockRelease]
  split
  case h_1 => exact s
  case h_2 =>
    split
    case isTrue => exact s
    case isFalse => exact lockPromote

theorem applyLockRenew (s : Settled (m, f)) :
    Settled ((m.applyLockRenew revision now keys holder token ttlMs).1, f) := by
  simp only [LockManager.applyLockRenew]
  split
  case h_1 => exact s
  case h_2 =>
    split
    case isTrue => exact s
    case isFalse => split <;> exact s

-- The request at the end of the queue waits because its keys are held or wanted.
theorem enqueue {input : LockAcquireInput} {keys : List String} (s : Settled (m, f))
    (blocked : m.blocked keys) : Settled (m.enqueue now input keys, f) := by
  cases s
  case inl h => exact .inl h
  case inr h =>
    refine .inr ?_
    simp only [LockManager.enqueue]
    split
    case isFalse => exact h
    case isTrue hw =>
      simp only [Bool.and_eq_true, Bool.not_eq_true'] at hw
      simp only [lockFirstGrantable, IndexedQueue.iter] at h ⊢
      rw [IndexedQueue.entries_pushBack hw.2, firstGrantable_eq_none_iff]
      rw [firstGrantable_eq_none_iff] at h
      intro before id waiter after e
      cases after using List.reverseRecOn
      case nil =>
        obtain ⟨hb, hw⟩ := List.append_inj' e rfl
        cases hw
        simp only [LockManager.blocked, Bool.or_eq_true, List.any_eq_true, IndexedQueue.values,
          List.mem_map, List.contains_eq_mem, decide_eq_true_eq] at blocked
        cases blocked
        case inl h =>
          obtain ⟨key, hk, held⟩ := h
          exact ⟨key, hk, .inl held⟩
        case inr h =>
          obtain ⟨key, hk, q, ⟨e, he, hq⟩, wanted⟩ := h
          exact ⟨key, hk, .inr (.inr ⟨e, hb ▸ he, hq ▸ wanted⟩)⟩
      case append_singleton after last _ =>
        rw [← List.cons_append, ← List.append_assoc] at e
        exact h before id waiter after (List.append_inj' e rfl).1

-- A grant only takes keys.
theorem give (s : Settled (m, f₁)) {grant : LockGrant} (e : FencingCounter.Steps f₁ f₂) :
    Settled (m.give grant now waiter ahead, f₂) := by
  cases s.mint e
  case inl h => exact .inl h
  case inr h =>
    refine .inr ?_
    simp only [lockFirstGrantable, firstGrantable_eq_none_iff] at h ⊢
    intro before id waiter after e
    have ⟨key, hk, h⟩ := h before id waiter after e
    refine ⟨key, hk, h.imp_left fun held => ?_⟩
    simp only [Std.ExtTreeMap.contains_eq_isSome_getElem?, LockManager.give, held_installGrant] at *
    split
    case isTrue => rfl
    case isFalse => exact held

variable [External]

theorem applyLockAcquire {input : LockAcquireInput} (s : Settled (m, f)) :
    Settled ((m.applyLockAcquire ledger f revision now input).1,
      (m.applyLockAcquire ledger f revision now input).2.1) := by
  simp only [LockManager.applyLockAcquire]
  split
  case isTrue => exact s
  case isFalse =>
    split
    case isTrue => exact s
    case isFalse =>
      split
      case h_1 => exact s
      case h_2 =>
        split
        case isTrue blocked => exact s.enqueue blocked
        case isFalse =>
          split
          case h_1 => exact s
          case h_2 next => exact s.give (.single (FencingCounter.nextToken_step next))

omit [External] in
theorem cancelQueued {o : IterOrder} (s : Settled (m, f)) :
    Settled ((m.cancelQueued o f revision now keys holder requestId).1,
      (m.cancelQueued o f revision now keys holder requestId).2.1) := by
  simp only [LockManager.cancelQueued]
  split
  case isTrue => exact lockPromote
  case isFalse =>
    split
    case h_1 => exact s
    case h_2 => split <;> exact s

theorem applyLockCancel {o : IterOrder} (s : Settled (m, f)) :
    Settled ((m.applyLockCancel o ledger f revision now keys holder requestId).1,
      (m.applyLockCancel o ledger f revision now keys holder requestId).2.2.1) := by
  simp only [LockManager.applyLockCancel]
  split
  case h_1 => exact s.cancelQueued
  case h_2 =>
    split
    case h_1 => exact s
    case h_2 =>
      split
      case h_1 => exact s
      case h_2 => exact s.cancelQueued

end Settled

end LockManager

namespace Semaphores

variable {sems : Semaphores} {f f₁ f₂ : FencingCounter} {c : Command}
variable {sem : Semaphore} {key : String} {now : Nat}

-- No permit is free while someone waits for it, unless there is no token left.
def SettledAt (key : String) (t : Table) : Prop :=
  ∀ sem, t.1[key]? = some sem → t.2.Exhausted ∨ sem.promotable = false

def Settled (t : Table) : Prop :=
  ∀ key, SettledAt key t

section Promotion

theorem promoteLoop_settled {fuel : Nat} (h : sem.queue.len ≤ fuel) :
    (sem.promoteLoop f now fuel).2.1.Exhausted ∨
    (sem.promoteLoop f now fuel).1.promotable = false := by
  induction fuel generalizing sem f
  case zero =>
    have : sem.queue.entries = [] := List.length_eq_zero_iff.mp (Nat.le_zero.mp h)
    exact .inr (by simp [Semaphore.promoteLoop, Semaphore.promotable, IndexedQueue.isEmpty, this])
  case succ fuel ih =>
    simp only [Semaphore.promoteLoop]
    split
    case isTrue full => exact .inr (by simpa using full)
    case isFalse free =>
      simp only [Semaphore.promotable, IndexedQueue.isEmpty, Bool.not_eq_true', Bool.not_eq_false,
        Bool.and_eq_true, decide_eq_true_eq] at free
      obtain ⟨e, rest, hq⟩ : ∃ e rest, sem.queue.entries = e :: rest :=
        List.exists_cons_of_ne_nil (by simpa using free.2)
      split
      case h_1 =>
        refine ih ?_
        simp only [Semaphore.admitted, IndexedQueue.popFront, IndexedQueue.len, hq] at h ⊢
        simpa using h
      case h_2 h =>
        cases next : f.nextToken
        case none => exact .inl (FencingCounter.nextToken_eq_none_iff.mp next)
        case some r => exact (h r.1 r.2 e.1 e.2 next (by simp [IndexedQueue.front, hq])).elim

theorem SettledAt.semaphorePromote :
    SettledAt key ((sems.semaphorePromote f key now).1, (sems.semaphorePromote f key now).2.1) := by
  simp only [Semaphores.semaphorePromote]
  split
  case h_1 none => exact fun _ mem => by simp [none] at mem
  case h_2 sem mem =>
    intro sem' mem'
    simp only [HashMap.get_insert, ↓reduceIte, Option.some.injEq] at mem'
    exact mem' ▸ promoteLoop_settled (Nat.le_refl _)

theorem promoteLoop_fencing : FencingCounter.Steps f (sem.promoteLoop f now fuel).2.1 := by
  induction fuel generalizing sem f
  case zero => exact .refl
  case succ ih =>
    simp only [Semaphore.promoteLoop]
    split
    case isTrue => exact .refl
    case isFalse =>
      split
      case h_1 next _ => exact .head (FencingCounter.nextToken_step next) ih
      case h_2 => exact .refl

theorem semaphorePromote_fencing :
    FencingCounter.Steps f (sems.semaphorePromote f key now).2.1 := by
  simp only [semaphorePromote]
  split
  case h_1 => exact .refl
  case h_2 => exact promoteLoop_fencing

theorem SettledAt.semaphorePromote_of_ne {key' : String} (s : SettledAt key' (sems, f))
    (h : key ≠ key') :
    SettledAt key' ((sems.semaphorePromote f key now).1, (sems.semaphorePromote f key now).2.1) := by
  intro sem mem
  have e : FencingCounter.Steps f (sems.semaphorePromote f key now).2.1 := semaphorePromote_fencing
  have : sems[key']? = some sem := by
    simp only [Semaphores.semaphorePromote] at mem
    split at mem
    case h_1 => exact mem
    case h_2 => simpa [h] using mem
  refine (s sem this).imp_left fun x => ?_
  rw [← e.eq_of_exhausted x] at x
  exact x

theorem promote_all_settled {keys : List String} (s : ∀ key, key ∉ keys → SettledAt key (sems, f)) :
    Settled (keys.foldl (fun (sems, f) key =>
      ((semaphorePromote sems f key now).1, (semaphorePromote sems f key now).2.1)) (sems, f)) := by
  induction keys generalizing sems f
  case nil => exact fun key => s key List.not_mem_nil
  case cons key keys ih =>
    refine ih fun key' h => ?_
    by_cases hk : key = key'
    case pos => exact hk ▸ .semaphorePromote
    case neg =>
      have s := s key' (List.not_mem_cons_of_ne_of_not_mem (Ne.symm hk) h)
      exact s.semaphorePromote_of_ne hk

end Promotion

namespace Settled

theorem empty : Settled (∅, .zero) :=
  fun _ _ mem => by simp at mem

theorem mint (s : Settled (sems, f₁)) (e : FencingCounter.Steps f₁ f₂) : Settled (sems, f₂) :=
  fun key sem mem => (s key sem mem).imp_left fun x => by rwa [← e.eq_of_exhausted x] at x

theorem insert (s : Settled (sems, f)) (h : f.Exhausted ∨ sem.promotable = false) :
    Settled (sems.insert key sem, f) := by
  intro key' sem' mem
  simp only [HashMap.get_insert] at mem
  split at mem
  case isTrue => exact Option.some.inj mem ▸ h
  case isFalse => exact s key' sem' mem

-- Every semaphore is visited.
theorem expireDue (o : IterOrder) : Settled (sems.expireDue o f now) := by
  refine promote_all_settled fun key h sem mem => ?_
  exact (h (HashMap.mem_keys.mpr ⟨sem, mem⟩)).elim

theorem semaphorePromote (s : ∀ key', key' ≠ key → SettledAt key' (sems, f)) :
    Settled ((sems.semaphorePromote f key now).1, (sems.semaphorePromote f key now).2.1) := by
  intro key'
  by_cases h : key = key'
  case pos => exact h ▸ .semaphorePromote
  case neg => exact (s key' (Ne.symm h)).semaphorePromote_of_ne h

-- The other semaphores are as they were when only one is replaced.
theorem insert_of_ne (s : Settled (sems, f)) {key' : String} (h : key' ≠ key) :
    SettledAt key' (sems.insert key sem, f) :=
  fun sem' mem => s key' sem' (by simpa [Ne.symm h] using mem)

theorem applySemaphoreRenew (s : Settled (sems, f)) :
    Settled ((sems.applySemaphoreRenew revision now key holder token ttlMs).1, f) := by
  simp only [Semaphores.applySemaphoreRenew]
  split
  case h_1 => exact s
  case h_2 sem mem =>
    split
    case h_1 => exact s
    case h_2 before slot after h =>
      split
      case isTrue => exact s
      case isFalse =>
        rw [List.span_eq_takeWhile_dropWhile] at h
        obtain ⟨hb, ha⟩ := Prod.mk.inj h
        have holders : before ++ slot :: after = sem.holders := by
          rw [← hb, ← ha, List.takeWhile_append_dropWhile]
        refine s.insert ((s key sem mem).imp_right fun full => ?_)
        simpa [Semaphore.promotable, ← holders] using full

theorem applySemaphoreRelease (s : Settled (sems, f)) :
    Settled ((sems.applySemaphoreRelease f revision now key holder token).1,
      (sems.applySemaphoreRelease f revision now key holder token).2.1) := by
  simp only [Semaphores.applySemaphoreRelease]
  split
  case h_1 => exact s
  case h_2 =>
    split
    case isTrue => exact s
    case isFalse => exact semaphorePromote fun _ h => s.insert_of_ne h

theorem entry (s : Settled (sems, f)) {input : SemaphoreAcquireInput}
    (h : input.legacySemantics = false) : f.Exhausted ∨ (sems.entry input).promotable = false := by
  rw [entry_eq h]
  cases mem : sems[input.key]?
  case none => exact .inr (by simp [Semaphore.promotable, IndexedQueue.isEmpty, IndexedQueue.empty])
  case some sem => exact s _ sem mem

-- Whoever joins the queue finds all permits taken, or a queue and therefore all permits taken.
theorem acquireFrom (s : Settled (sems, f)) {input : SemaphoreAcquireInput}
    (h : input.legacySemantics = false) :
    Settled ((sems.acquireFrom (sems.entry input) f revision now input).1,
      (sems.acquireFrom (sems.entry input) f revision now input).2.1) := by
  simp only [Semaphores.acquireFrom]
  split
  case h_1 => exact s.insert (s.entry h)
  case h_2 =>
    split
    case isTrue free =>
      simp only [Bool.and_eq_true] at free
      split
      case h_1 => exact s.insert (s.entry h)
      case h_2 next =>
        refine (s.mint (.single (FencingCounter.nextToken_step next))).insert (.inr ?_)
        simp [Semaphore.promotable, free.2]
    case isFalse full =>
      refine s.insert ((s.entry h).imp_right fun settled => ?_)
      simp only [Semaphore.promotable, Bool.and_eq_true, decide_eq_true_eq, not_and_or, not_lt,
        Bool.and_eq_false_iff, decide_eq_false_iff_not, Bool.not_eq_false', enqueue_holders,
        enqueue_limit] at full settled ⊢
      tauto

theorem cancelQueued (s : Settled (sems, f)) :
    Settled ((sems.cancelQueued f revision now key holder requestId).1,
      (sems.cancelQueued f revision now key holder requestId).2.1) := by
  simp only [Semaphores.cancelQueued]
  split
  case h_1 => exact semaphorePromote fun _ h => s.insert_of_ne h
  case h_2 =>
    split
    case h_1 => exact s
    case h_2 => split <;> exact s

variable [External]

theorem applySemaphoreAcquire (s : Settled (sems, f)) {input : SemaphoreAcquireInput}
    (h : input.legacySemantics = false) :
    Settled ((sems.applySemaphoreAcquire ledger f revision now input).1,
      (sems.applySemaphoreAcquire ledger f revision now input).2.1) := by
  simp only [Semaphores.applySemaphoreAcquire]
  split
  case isTrue => exact s
  case isFalse =>
    split
    case h_1 => exact s
    case h_2 => exact s.acquireFrom h

theorem applySemaphoreCancel (s : Settled (sems, f)) :
    Settled ((sems.applySemaphoreCancel ledger f revision now key holder requestId).1,
      (sems.applySemaphoreCancel ledger f revision now key holder requestId).2.2.1) := by
  simp only [Semaphores.applySemaphoreCancel]
  split
  case h_1 => exact s.cancelQueued
  case h_2 =>
    split
    case h_1 => exact s
    case h_2 =>
      split
      case h_1 => exact s
      case h_2 => exact s.cancelQueued

end Settled

end Semaphores

namespace Store

variable {s : Store} {o : IterOrder} {c : Command} {now revision : Nat}

def LocksSettled (s : Store) : Prop :=
  LockManager.Settled (s.locks, s.fencing)

def SemaphoresSettled (s : Store) : Prop :=
  Semaphores.Settled (s.semaphores, s.fencing)

theorem LocksSettled.prepare (h : s.LocksSettled) : (s.prepare o c now).LocksSettled := by
  simp only [Store.prepare]
  split
  case isTrue => exact h
  case isFalse =>
    have e : FencingCounter.Steps _ (s.expireDue o now).fencing :=
      (Semaphores.expireDue_steps (c := c) o).fencing
    exact LockManager.Settled.mint .lockPromote e

theorem SemaphoresSettled.prepare (h : s.SemaphoresSettled) :
    (s.prepare o c now).SemaphoresSettled := by
  simp only [Store.prepare]
  split
  case isTrue => exact h
  case isFalse => exact Semaphores.Settled.expireDue o

variable [External]

theorem LocksSettled.applyLockCancel (h : s.LocksSettled) :
    (s.applyLockCancel o revision now keys holder requestId).1.LocksSettled :=
  LockManager.Settled.applyLockCancel h

theorem SemaphoresSettled.applySemaphoreAcquire (h : s.SemaphoresSettled)
    {input : SemaphoreAcquireInput} (legacy : input.legacySemantics = false) :
    (s.applySemaphoreAcquire revision now input).1.SemaphoresSettled :=
  Semaphores.Settled.applySemaphoreAcquire h legacy

theorem SemaphoresSettled.applySemaphoreCancel (h : s.SemaphoresSettled) :
    (s.applySemaphoreCancel revision now key holder requestId).1.SemaphoresSettled :=
  Semaphores.Settled.applySemaphoreCancel h

theorem LocksSettled.applyCommand (h : s.LocksSettled)
    (e : FencingCounter.Steps s.fencing (s.applyCommand o revision now c).1.fencing) :
    (s.applyCommand o revision now c).1.LocksSettled := by
  by_cases hc : c.isLock
  case neg =>
    rw [LocksSettled, applyCommand_locks (Bool.eq_false_iff.mpr hc)]
    exact h.mint e
  case pos =>
    cases c <;> try contradiction
    case lockAcquire | lockAcquireV2 | lockAcquireAttempt =>
      exact LockManager.Settled.applyLockAcquire h
    case lockRenew => exact LockManager.Settled.applyLockRenew h
    case lockRelease => exact LockManager.Settled.applyLockRelease h
    case lockCancel | lockCancelAttempt => exact h.applyLockCancel

theorem SemaphoresSettled.applyCommand (h : s.SemaphoresSettled)
    (legacy : c.isLegacySemaphoreAcquire = false)
    (e : FencingCounter.Steps s.fencing (s.applyCommand o revision now c).1.fencing) :
    (s.applyCommand o revision now c).1.SemaphoresSettled := by
  by_cases hc : c.isSemaphore
  case neg =>
    rw [SemaphoresSettled, applyCommand_semaphores (Bool.eq_false_iff.mpr hc)]
    exact h.mint e
  case pos =>
    cases c <;> try contradiction
    case semaphoreAcquireV2 | semaphoreAcquireAttempt =>
      refine h.applySemaphoreAcquire ?_
      rfl
    case semaphoreRenew => exact Semaphores.Settled.applySemaphoreRenew h
    case semaphoreRelease => exact Semaphores.Settled.applySemaphoreRelease h
    case semaphoreCancel | semaphoreCancelAttempt => exact h.applySemaphoreCancel

theorem applyAt_fencing :
    FencingCounter.Steps (s.prepare o c now).fencing (s.applyAt o c now).1.fencing :=
  (applyCommand_steps prepare_queueLive prepare_queuesLive).fencing

theorem LocksSettled.applyAt (h : s.LocksSettled) : (s.applyAt o c now).1.LocksSettled :=
  h.prepare.applyCommand applyAt_fencing

theorem SemaphoresSettled.applyAt (h : s.SemaphoresSettled)
    (legacy : c.isLegacySemaphoreAcquire = false) : (s.applyAt o c now).1.SemaphoresSettled :=
  h.prepare.applyCommand legacy applyAt_fencing

theorem Reachable.locksSettled (r : Reachable s) : s.LocksSettled := by
  induction r
  case empty => exact LockManager.Settled.empty
  case apply ih => exact ih.applyAt

-- The runs in which no semaphore is acquired the legacy way.
abbrev ReachableWithoutLegacy (s : Store) : Prop :=
  Runs (fun _ _ c _ => c.isLegacySemaphoreAcquire = false) .empty s

theorem ReachableWithoutLegacy.settled (r : ReachableWithoutLegacy s) :
    s.SemaphoresSettled ∧ s.semaphores.Bounded := by
  induction r
  case refl => exact ⟨Semaphores.Settled.empty, .empty⟩
  case apply legacy _ ih =>
    exact ⟨ih.1.applyAt legacy, applyAt_steps.semaphores.bounded legacy ih.2⟩

-- After every command, as long as the tokens last, each request that waits for a lock wants a key
-- that is held or wanted by a request before it, and without legacy acquires all permits of a
-- semaphore are taken while someone waits for one.
theorem Reachable.no_lost_wake_up (r : Reachable s) (tokens : s.fencing.nextToken ≠ none) :
    (∀ before id waiter after, s.locks.queue.entries = before ++ (id, waiter) :: after →
      ∃ key ∈ waiter.keys, s.locks.held[key]? ≠ none ∨ ∃ e ∈ before, key ∈ e.2.keys) ∧
    (ReachableWithoutLegacy s → ∀ (key : String) (sem : Semaphore),
      s.semaphores[key]? = some sem → sem.queue.entries ≠ [] →
      sem.holders.length = sem.limit) := by
  rw [ne_eq, FencingCounter.nextToken_eq_none_iff] at tokens
  constructor
  case left =>
    intro before id waiter after e
    have none := r.locksSettled.resolve_left tokens
    have ⟨key, hk, h⟩ := LockManager.firstGrantable_eq_none_iff.mp none before id waiter after e
    refine ⟨key, hk, h.imp (fun held => ?_) fun h => h.resolve_left List.not_mem_nil⟩
    rwa [Std.ExtTreeMap.contains_eq_isSome_getElem?, Option.isSome_iff_ne_none] at held
  case right =>
    intro r' key sem mem queued
    have ⟨settled, bounded⟩ := r'.settled
    have full := (settled key sem mem).resolve_left tokens
    have le := bounded key sem mem
    simp only [Semaphore.promotable, Bool.and_eq_false_iff, decide_eq_false_iff_not, not_lt,
      IndexedQueue.isEmpty, Bool.not_eq_false', List.isEmpty_iff] at full
    exact Nat.le_antisymm le (full.resolve_right queued)

omit [External] in
-- The lock and the only permit are taken when the second holder asks for them.
theorem no_lost_wake_up_waiting :
    letI := External.fixed
    let s₁ := (Store.empty.applyAt .sorted (.lockAcquireV2 ["a"] "h" 10 true none) 0).1
    let s₂ := (s₁.applyAt .sorted (.lockAcquireV2 ["a"] "w" 10 true none) 1).1
    let s₃ := (s₂.applyAt .sorted (.semaphoreAcquireV2 "k" "h" 1 10 true none) 2).1
    let s₄ := (s₃.applyAt .sorted (.semaphoreAcquireV2 "k" "w" 1 10 true none) 3).1
    s₄.locks.queue.len = 1 ∧ s₄.fencing.nextToken ≠ none ∧
    (∀ before id waiter after, s₄.locks.queue.entries = before ++ (id, waiter) :: after →
      ∃ key ∈ waiter.keys, s₄.locks.held[key]? ≠ none ∨ ∃ e ∈ before, key ∈ e.2.keys) ∧
    ∀ sem, s₄.semaphores["k"]? = some sem → sem.queue.entries ≠ [] →
      sem.holders.length = sem.limit := by
  let := External.fixed
  intro _ _ _ s
  have r : Reachable s := .apply _ _ _ (.apply _ _ _ (.apply _ _ _ (.apply _ _ _ .empty)))
  have tokens : s.fencing.nextToken ≠ none := by decide +kernel
  have ⟨locks, semaphores⟩ := r.no_lost_wake_up tokens
  refine ⟨by decide +kernel, tokens, locks, semaphores ?_ "k"⟩
  exact .apply rfl (.apply rfl (.apply rfl (.apply rfl .refl)))

end Store
