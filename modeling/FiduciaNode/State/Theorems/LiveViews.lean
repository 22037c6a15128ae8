import FiduciaNode.State.Views
import FiduciaNode.State.Theorems.Permits
import FiduciaNode.State.Theorems.Sweep

-- The form in which the views list the requests and those who hold something.
def QueuedLock.listed (q : QueuedLock) : LockWaiter where
  holder        := q.holder
  keys          := q.keys
  requestedMs   := q.requestedMs
  waitExpiresMs := q.waitExpiresMs

def QueuedPermit.listed (key : String) (q : QueuedPermit) : LockWaiter where
  holder        := q.holder
  keys          := [key]
  requestedMs   := q.requestedMs
  waitExpiresMs := q.waitExpiresMs

def LockGrant.listed (grant : LockGrant) : LockHolding where
  holder         := grant.holder
  keys           := grant.keys
  fencingToken   := grant.fencingToken
  leaseExpiresMs := grant.leaseExpiresMs

def SemaphoreSlot.listed (slot : SemaphoreSlot) : SemaphoreHolder where
  holder         := slot.holder
  fencingToken   := slot.fencingToken
  leaseExpiresMs := slot.leaseExpiresMs

namespace Store

variable {s swept : Store} {now : Nat} {key : String} {grant : LockGrant}

-- The grant is in the table before and after the sweep.
def Kept (s swept : Store) (grant : LockGrant) : Prop :=
  (∃ token : Nat, s.locks.grants[token]? = some grant) ∧ ∃ token : Nat, swept.locks.grants[token]? = some grant

-- What the views of `s` have to say about locks and permits if `swept` is the store after the sweep.
structure LockStateAgrees (s swept : Store) (now : Nat) (key : String) (view : LockState) : Prop where
  owner     : ∃ owner : Option LockGrant, (∀ grant, owner = some grant ↔ s.Kept swept grant ∧ key ∈ grant.keys) ∧
                view.holder = owner.map (·.holder) ∧ view.fencingToken = owner.map (·.fencingToken) ∧
                view.leaseExpiresMs = owner.map (·.leaseExpiresMs) ∧ view.heldKeys = (owner.map (·.keys)).getD []
  waitQueue : view.waitQueue = ((s.locks.queue.values.filter fun q =>
                decide (∀ deadline ∈ q.waitExpiresMs, now < deadline) && decide (key ∈ q.keys)).map (·.listed))

structure InventoryAgrees (s swept : Store) (now : Nat) (view : LockInventory) : Prop where
  held      : ∀ holding, holding ∈ view.held ↔ ∃ grant, s.Kept swept grant ∧ grant.listed = holding
  tokens    : view.held.Pairwise (·.fencingToken < ·.fencingToken)
  disjoint  : view.held.Pairwise (·.keys.Disjoint ·.keys)
  waitQueue : view.waitQueue = ((s.locks.queue.values.filter fun q =>
                decide (∀ deadline ∈ q.waitExpiresMs, now < deadline)).map (·.listed))

structure SemaphoreStateAgrees (s swept : Store) (now : Nat) (key : String) (view : SemaphoreState) : Prop where
  limit     : view.limit = (s.semaphores[key]?.map (·.limit)).getD 0
  holders   : view.holders = ((s.semaphores.holdersOf key).filter fun slot =>
                decide (slot ∈ swept.semaphores.holdersOf key)).map (·.listed)
  available : view.available = view.limit - view.holders.length
  waitQueue : view.waitQueue = (((s.semaphores.queueOf key).map Prod.snd).filter fun q =>
                decide (∀ deadline ∈ q.waitExpiresMs, now < deadline)).map (·.listed key)

theorem waiterIsLive_eq {deadline? : Option Nat} :
    waiterIsLive deadline? now = decide (∀ deadline ∈ deadline?, now < deadline) := by
  cases deadline? <;> simp [waiterIsLive]

section Agreement

variable [External] {o o' : IterOrder} (r : Reachable s)

include r

-- Promotion mints tokens that no grant had before.
theorem Reachable.kept_iff :
    s.Kept (s.expireDue o now) grant ↔ s.locks.grants[grant.fencingToken]? = some grant ∧ now < grant.leaseExpiresMs := by
  have w := r.wellFormed
  have swept {token : Nat} (mem : s.locks.grants[token]? = some grant) :
      (s.expireDue o now).locks.grants[token]? = (some grant).filter fun grant => now < grant.leaseExpiresMs :=
    mem ▸ LockManager.grants_expireDue (w.token_le mem)
  constructor
  case mp =>
    intro ⟨⟨token, mem⟩, token', mem'⟩
    have w' : LockManager.WellFormed (s.locks.expireDue o s.fencing now) :=
      (LockManager.expireDue_steps o (c := .activateCommandProtocol 0)).wellFormed w
    cases w.token_eq mem
    cases w'.token_eq mem'
    have ⟨_, live⟩ := Option.filter_eq_some_iff.mp ((swept mem).symm.trans mem')
    exact ⟨mem, of_decide_eq_true live⟩
  case mpr =>
    intro ⟨mem, live⟩
    refine ⟨⟨_, mem⟩, _, (swept mem).trans ?_⟩
    rw [Option.filter_some, if_pos (decide_eq_true live)]

theorem Reachable.lockGet_agrees : s.LockStateAgrees (s.expireDue o now) now key (s.lockGet now key) where
  owner := by
    have w := r.wellFormed
    refine ⟨_, fun grant => ?_, rfl, rfl, rfl, rfl⟩
    rw [r.kept_iff, Option.filter_eq_some_iff, Option.bind_eq_some_iff, decide_eq_true_eq]
    constructor
    case mp =>
      intro ⟨⟨token, held, mem⟩, live⟩
      have ⟨grant', mem', listed⟩ := (w.held_iff key token).mp held
      cases mem.symm.trans mem'
      cases w.token_eq mem
      exact ⟨⟨mem, live⟩, listed⟩
    case mpr =>
      intro ⟨⟨mem, live⟩, listed⟩
      exact ⟨⟨_, (w.held_iff key _).mpr ⟨grant, mem, listed⟩, mem⟩, live⟩
  waitQueue := by
    simp only [lockGet, LockManager.lockSnapshotLiveAt, IndexedQueue.values, IndexedQueue.iter, List.filter_map,
      List.map_map, waiterIsLive_eq, List.contains_eq_mem]
    rfl

-- A token has one grant, so that no token is listed twice.
theorem Reachable.inventory_tokens :
    (s.lockInventory o' now).held.Pairwise (·.fencingToken < ·.fencingToken) := by
  have w := r.wellFormed
  have tokens : (s.locks.grants.values o').map (·.fencingToken) = s.locks.grants.keys o' := by
    rw [HashMap.values, HashMap.keys, List.map_map]
    exact List.map_congr_left fun _ mem => w.token_eq (HashMap.mem_iter.mp mem)
  have distinct : ((s.locks.grants.values o').filter (·.leaseExpiresMs > now) |>.map (·.fencingToken)).Nodup :=
    (tokens ▸ HashMap.keys_nodup _ o').sublist (List.filter_sublist.map _)
  let le (a b : LockHolding) : Prop := a.fencingToken ≤ b.fencingToken
  have : Std.Total le := ⟨fun a b => Nat.le_total a.fencingToken b.fencingToken⟩
  have : IsTrans LockHolding le := ⟨fun _ _ _ h₁ h₂ => Nat.le_trans h₁ h₂⟩
  have sorted : (s.lockInventory o' now).held.Pairwise le := List.pairwise_insertionSort le _
  have nodup : (s.lockInventory o' now).held.Pairwise (·.fencingToken ≠ ·.fencingToken) := by
    refine List.pairwise_map.mp (((List.perm_insertionSort _ _).map LockHolding.fencingToken).nodup_iff.mpr ?_)
    rwa [List.map_map]
  exact sorted.imp₂ (fun _ _ => Nat.lt_of_le_of_ne) nodup

theorem Reachable.lockInventory_agrees : s.InventoryAgrees (s.expireDue o now) now (s.lockInventory o' now) where
  held := by
    have w := r.wellFormed
    intro holding
    simp only [lockInventory, LockManager.lockInventoryLiveAt, List.mem_insertionSort, List.mem_map, List.mem_filter,
      HashMap.mem_values, decide_eq_true_eq, r.kept_iff]
    constructor
    case mp =>
      intro ⟨grant, ⟨⟨token, mem⟩, live⟩, listed⟩
      cases w.token_eq mem
      exact ⟨grant, ⟨mem, live⟩, listed⟩
    case mpr => exact fun ⟨grant, ⟨mem, live⟩, listed⟩ => ⟨grant, ⟨⟨_, mem⟩, live⟩, listed⟩
  tokens   := r.inventory_tokens
  disjoint := by
    have w := r.wellFormed
    refine r.inventory_tokens.imp_of_mem fun mem₁ mem₂ lt => ?_
    simp only [lockInventory, LockManager.lockInventoryLiveAt, List.mem_insertionSort, List.mem_map, List.mem_filter,
      HashMap.mem_values] at mem₁ mem₂
    have ⟨grant₁, ⟨⟨token₁, stored₁⟩, _⟩, same₁⟩ := mem₁
    have ⟨grant₂, ⟨⟨token₂, stored₂⟩, _⟩, same₂⟩ := mem₂
    subst same₁ same₂
    have ne : token₁ ≠ token₂ := w.token_eq stored₁ ▸ w.token_eq stored₂ ▸ Nat.ne_of_lt lt
    exact w.disjoint stored₁ stored₂ ne
  waitQueue := by
    simp only [lockInventory, LockManager.lockInventoryLiveAt, IndexedQueue.values, IndexedQueue.iter, List.filter_map,
      List.map_map, waiterIsLive_eq]
    rfl

-- A permit that is there stays iff its lease goes on, and what is promoted has a new token.
theorem Reachable.kept_permits {slot : SemaphoreSlot} (mem : slot ∈ s.semaphores.holdersOf key) :
    slot ∈ (s.expireDue o now).semaphores.holdersOf key ↔ now < slot.leaseExpiresMs := by
  have admits : Option.Rel (Semaphores.Refills now (s.locks.expireDue o s.fencing now).2.nextFencingToken)
      (s.semaphores.sweep now)[key]? (s.expireDue o now).semaphores[key]? :=
    Semaphores.RefillsEach.expireDue key
  rw [Semaphores.get_sweep] at admits
  cases before : s.semaphores[key]?
  case none => simp [Semaphores.holdersOf, before] at mem
  case some sem =>
    rw [Semaphores.holdersOf_eq before] at mem
    rw [before, Option.map_some] at admits
    cases after : (s.expireDue o now).semaphores[key]?
    case none =>
      rw [after] at admits
      cases admits
    case some sem' =>
      rw [after] at admits
      rw [Semaphores.holdersOf_eq after]
      cases admits
      case some admits =>
        obtain ⟨given, same, new⟩ := admits.holders
        have le : s.fencing.nextFencingToken ≤ (s.locks.expireDue o s.fencing now).2.nextFencingToken :=
          FencingCounter.Steps.le (LockManager.expireDue_steps o (c := .activateCommandProtocol 0)).fencing
        have fresh : slot ∉ given := fun h => by
          have := (new slot h).1
          have := r.semaphores_sound.below key sem before slot mem
          dsimp only at this
          omega
        rw [same, List.mem_append, or_iff_left fresh, Semaphore.sweep, List.mem_filter, decide_eq_true_eq]
        exact and_iff_right mem

theorem Reachable.semaphoreGet_agrees :
    s.SemaphoreStateAgrees (s.expireDue o now) now key (s.semaphoreGet now key) := by
  have kept : ((s.semaphores.holdersOf key).filter fun slot =>
      decide (slot ∈ (s.expireDue o now).semaphores.holdersOf key)) =
      (s.semaphores.holdersOf key).filter fun slot => slot.leaseExpiresMs > now :=
    List.filter_congr fun slot mem => decide_eq_decide.mpr (r.kept_permits mem)
  cases stored : s.semaphores[key]?
  case none =>
    have view : s.semaphoreGet now key = ⟨key, 0, [], 0, []⟩ := by
      rw [semaphoreGet, Semaphores.semaphoreSnapshotLiveAt, stored]
    constructor <;> simp [view, stored, Semaphores.holdersOf, Semaphores.queueOf]
  case some sem =>
    have holders := Semaphores.holdersOf_eq stored
    have queue := Semaphores.queueOf_eq stored
    constructor
    case limit =>
      rw [semaphoreGet, Semaphores.semaphoreSnapshotLiveAt, stored]
      rfl
    case holders =>
      rw [kept, holders, semaphoreGet, Semaphores.semaphoreSnapshotLiveAt, stored]
      rfl
    case available =>
      rw [semaphoreGet, Semaphores.semaphoreSnapshotLiveAt, stored]
      dsimp only
      rw [List.length_map]
    case waitQueue =>
      rw [queue, semaphoreGet, Semaphores.semaphoreSnapshotLiveAt, stored]
      simp only [IndexedQueue.iter, List.filter_map, List.map_map, waiterIsLive_eq]
      rfl

theorem Reachable.views_agree (o o' : IterOrder) (key : String) (now : Nat) :
    s.LockStateAgrees (s.expireDue o now) now key (s.lockGet now key) ∧
    s.SemaphoreStateAgrees (s.expireDue o now) now key (s.semaphoreGet now key) ∧
    s.InventoryAgrees (s.expireDue o now) now (s.lockInventory o' now) :=
  ⟨r.lockGet_agrees, r.semaphoreGet_agrees, r.lockInventory_agrees⟩

end Agreement

-- The lock and one of the permits have run out: the views show neither the old owner nor the next one.
theorem views_agree_handover :
    letI := External.fixed
    let s₁ := (Store.empty.applyAt .sorted (.lockAcquireV2 ["l"] "a" 10 true none) 0).1
    let s₂ := (s₁.applyAt .sorted (.lockAcquireV2 ["l"] "b" 10 true none) 1).1
    let s₃ := (s₂.applyAt .sorted (.semaphoreAcquireV2 "k" "a" 2 10 true none) 2).1
    let s₄ := (s₃.applyAt .sorted (.semaphoreAcquireV2 "k" "c" 2 10 true none) 5).1
    (s₄.lockGet 12 "l").holder = none ∧ (s₄.lockGet 12 "l").waitQueue.map (·.holder) = ["b"] ∧
    (s₄.semaphoreGet 12 "k").holders.map (·.holder) = ["c"] ∧ (s₄.semaphoreGet 12 "k").available = 1 ∧
    s₄.LockStateAgrees (s₄.expireDue .sorted 12) 12 "l" (s₄.lockGet 12 "l") ∧
    s₄.SemaphoreStateAgrees (s₄.expireDue .sorted 12) 12 "k" (s₄.semaphoreGet 12 "k") := by
  let := External.fixed
  intro s₁ s₂ s₃ s₄
  have r : Reachable s₄ := .apply _ _ _ (.apply _ _ _ (.apply _ _ _ (.apply _ _ _ .empty)))
  have ⟨lock, _⟩ := r.views_agree .sorted .sorted "l" 12
  have ⟨_, semaphore, _⟩ := r.views_agree .sorted .sorted "k" 12
  exact ⟨by decide +kernel, by decide +kernel, by decide +kernel, by decide +kernel, lock, semaphore⟩

end Store
