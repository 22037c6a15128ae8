import FiduciaNode.State.Theorems.Cancellation
import FiduciaNode.State.Theorems.Ledger
import FiduciaNode.State.Theorems.Order
import FiduciaNode.State.Theorems.WakeUps

namespace LockManager

variable {m m' m₁ m₂ : LockManager} {f : FencingCounter} {o : IterOrder} {now token : Nat} {grant : LockGrant}

-- The grant is the one of a request in the queue, with a lease that starts now.
def Leased (m : LockManager) (now : Nat) (grant : LockGrant) : Prop :=
  ∃ e ∈ m.queue.entries, grant.leaseExpiresMs = U64.saturatingAdd now e.2.ttlMs

-- The grants up to the current token are untouched, and all others are those of queued requests.
structure Promotes (now : Nat) (f : FencingCounter) (m m' : LockManager) : Prop where
  old   : ∀ token ≤ f.nextFencingToken, m'.grants[token]? = m.grants[token]?
  given : ∀ (token : Nat) grant, m'.grants[token]? = some grant →
            m.grants[token]? = some grant ∨ m.Leased now grant

theorem Promotes.refl : Promotes now f m m where
  old _ _     := rfl
  given _ _ h := .inl h

theorem promotes_promote {f₂ : FencingCounter} {i : LockId} {waiter : QueuedLock}
    (next : f.nextToken = some (token, f₂)) (mem : m.queue.get i = some waiter)
    (p : Promotes now f₂ (m.promote i waiter token now) m') : Promotes now f m m' := by
  have ⟨ht, _, hf⟩ := FencingCounter.nextToken_eq_some_iff.mp next
  have counter : f₂.nextFencingToken = token := hf ▸ rfl
  have grants (token' : Nat) : (m.promote i waiter token now).grants[token']? =
      if token = token' then some ⟨waiter.holder, waiter.keys, token, U64.saturatingAdd now waiter.ttlMs, waiter.requestId⟩
      else m.grants[token']? := HashMap.get_insert ..
  constructor
  case old =>
    intro token' le
    rw [p.old token' (by omega), grants, if_neg (by omega)]
  case given =>
    intro token' grant h
    rcases p.given token' grant h with h | ⟨e, he, lease⟩
    case inr => exact .inr ⟨e, (IndexedQueue.mem_remove.mp he).1, lease⟩
    case inl =>
      rw [grants] at h
      split at h
      case isTrue =>
        cases h
        exact .inr ⟨(i, waiter), IndexedQueue.get_eq_some_iff.mp mem, rfl⟩
      case isFalse => exact .inl h

theorem promotes_promoteLoop : Promotes now f m (m.promoteLoop f now fuel).1 := by
  induction fuel generalizing m f
  case zero => exact .refl
  case succ fuel ih =>
    simp only [promoteLoop]
    split
    case h_1 => exact .refl
    case h_2 =>
      split
      case h_1 next mem => exact promotes_promote next mem ih
      case h_2 => exact .refl

theorem grants_release_all (tokens : List Nat) :
    (tokens.foldl releaseGrant m).grants[token]? = if token ∈ tokens then none else m.grants[token]? := by
  induction tokens generalizing m
  case nil => rfl
  case cons token' tokens ih =>
    rw [List.foldl_cons, ih, grants_releaseGrant]
    by_cases same : token' = token
    case pos => simp [same]
    case neg => simp [same, Ne.symm same]

-- The table at the time at which the sweep promotes.
def released (o : IterOrder) (m : LockManager) (now : Nat) : LockManager :=
  (m.grants.iter o |>.filter (·.2.leaseExpiresMs ≤ now) |>.map Prod.fst).foldl releaseGrant
    { m with queue := m.queue.retain fun _ w => waiterIsLive w.waitExpiresMs now }

theorem expireDue_eq : m.expireDue o f now =
    (((m.released o now).lockPromote f now).1, ((m.released o now).lockPromote f now).2.1) :=
  rfl

theorem grants_released :
    (m.released o now).grants[token]? = m.grants[token]?.filter fun grant => now < grant.leaseExpiresMs := by
  rw [released, grants_release_all]
  cases stored : m.grants[token]?
  case none => split <;> rfl
  case some grant =>
    have due : token ∈ (m.grants.iter o |>.filter (·.2.leaseExpiresMs ≤ now) |>.map Prod.fst) ↔
        ¬now < grant.leaseExpiresMs := by
      simp [stored]
    simp only [due, Option.filter, decide_eq_true_eq, ite_not]

theorem queue_released : (m.released o now).queue.entries ⊆ m.queue.entries := by
  have same (tokens : List Nat) (m : LockManager) : (tokens.foldl releaseGrant m).queue = m.queue := by
    induction tokens generalizing m
    case nil => rfl
    case cons token tokens ih => rw [List.foldl_cons, ih, releaseGrant_queue]
  rw [released, same]
  exact List.filter_subset_self _

-- The grants that were there stay iff their lease goes on.
theorem grants_expireDue (le : token ≤ f.nextFencingToken) :
    (m.expireDue o f now).1.grants[token]? = m.grants[token]?.filter fun grant => now < grant.leaseExpiresMs := by
  rw [expireDue_eq, ← grants_released]
  exact promotes_promoteLoop.old token le

theorem leases_expireDue (ttl : ∀ e ∈ m.queue.entries, now < U64.saturatingAdd now e.2.ttlMs)
    (h : (m.expireDue o f now).1.grants[token]? = some grant) : now < grant.leaseExpiresMs := by
  rw [expireDue_eq] at h
  rcases promotes_promoteLoop.given token grant h with h | ⟨e, he, lease⟩
  case inl =>
    rw [grants_released, Option.filter_eq_some_iff] at h
    exact of_decide_eq_true h.2
  case inr => exact lease ▸ ttl e (queue_released he)

theorem Settled.lockPromote_eq (s : Settled (m, f)) : m.lockPromote f now = (m, f, []) := by
  rw [LockManager.lockPromote]
  cases m.queue.len
  case zero => rfl
  case succ =>
    cases s
    case inl exhausted =>
      simp only [LockManager.promoteLoop, FencingCounter.nextToken_eq_none_iff.mpr exhausted]
      split <;> rfl
    case inr none => simp only [LockManager.promoteLoop, none]

theorem expireDue_of_settled (s : Settled (m, f)) (live : m.QueueLive now)
    (leases : ∀ (token : Nat) grant, m.grants[token]? = some grant → now < grant.leaseExpiresMs) :
    m.expireDue o f now = (m, f) := by
  have none : (m.grants.iter o).filter (·.2.leaseExpiresMs ≤ now) = [] := by
    refine List.filter_eq_nil_iff.mpr fun (token, grant) mem => ?_
    have := leases token grant (HashMap.mem_iter.mp mem)
    simpa using this
  have queue : m.queue.retain (fun _ w => waiterIsLive w.waitExpiresMs now) = m.queue :=
    IndexedQueue.ext (List.filter_eq_self.mpr live)
  have same : m.released o now = m := by rw [released, none, queue, List.map_nil, List.foldl_nil]
  rw [expireDue_eq, same, s.lockPromote_eq]

end LockManager

namespace Semaphores

variable {sems sems₁ sems₂ : Semaphores} {sem sem₁ sem₂ sem₃ : Semaphore} {f f₂ : FencingCounter} {o : IterOrder}
variable {now n n' : Nat} {key : String} {slot : SemaphoreSlot}

-- The permits behind those that were there are those of queued requests, and their tokens are new.
structure Refills (now n : Nat) (sem₁ sem₂ : Semaphore) : Prop where
  holders : ∃ given, sem₂.holders = sem₁.holders ++ given ∧ ∀ slot ∈ given, n < slot.fencingToken ∧
              ∃ e ∈ sem₁.queue.entries, slot.leaseExpiresMs = U64.saturatingAdd now e.2.ttlMs
  queue   : sem₂.queue.entries ⊆ sem₁.queue.entries

namespace Refills

theorem refl : Refills now n sem sem where
  holders := ⟨[], (List.append_nil _).symm, nofun⟩
  queue   := fun _ => id

theorem mono (a : Refills now n sem₁ sem₂) (le : n' ≤ n) : Refills now n' sem₁ sem₂ where
  holders :=
    have ⟨given, same, h⟩ := a.holders
    ⟨given, same, fun slot mem => ⟨le.trans_lt (h slot mem).1, (h slot mem).2⟩⟩
  queue   := a.queue

theorem trans (a₁ : Refills now n sem₁ sem₂) (a₂ : Refills now n sem₂ sem₃) : Refills now n sem₁ sem₃ where
  queue   := fun _ mem => a₁.queue (a₂.queue mem)
  holders := by
    have ⟨given₁, same₁, h₁⟩ := a₁.holders
    have ⟨given₂, same₂, h₂⟩ := a₂.holders
    refine ⟨given₁ ++ given₂, by rw [same₂, same₁, List.append_assoc], fun slot mem => ?_⟩
    rcases List.mem_append.mp mem with mem | mem
    case inl => exact h₁ slot mem
    case inr =>
      have ⟨lt, e, he, lease⟩ := h₂ slot mem
      exact ⟨lt, e, a₁.queue he, lease⟩

theorem admitted {token : Nat} {e : String × QueuedPermit} (next : f.nextToken = some (token, f₂))
    (front : sem.queue.front = some e) :
    Refills now f.nextFencingToken sem (sem.admitted e.2 token now) where
  queue   := popFront_subset
  holders := by
    have ⟨ht, _⟩ := FencingCounter.nextToken_eq_some_iff.mp next
    refine ⟨_, rfl, fun slot mem => ?_⟩
    rw [List.mem_singleton.mp mem]
    exact ⟨by dsimp only; omega, e, front_mem front, rfl⟩

theorem promoteLoop : Refills now f.nextFencingToken sem (sem.promoteLoop f now fuel).1 := by
  induction fuel generalizing sem f
  case zero => exact refl
  case succ fuel ih =>
    simp only [Semaphore.promoteLoop]
    split
    case isTrue => exact refl
    case isFalse =>
      split
      case h_1 next front =>
        have le := FencingCounter.Steps.le (.single (FencingCounter.nextToken_step next))
        exact (admitted next front).trans (ih.mono le)
      case h_2 => exact refl

end Refills

abbrev RefillsEach (now n : Nat) (sems₁ sems₂ : Semaphores) : Prop :=
  ∀ key : String, Option.Rel (Refills now n) sems₁[key]? sems₂[key]?

namespace RefillsEach

theorem refl : RefillsEach now n sems sems := by
  intro key
  cases sems[key]?
  case none => exact .none
  case some => exact .some .refl

theorem mono (a : RefillsEach now n sems₁ sems₂) (le : n' ≤ n) : RefillsEach now n' sems₁ sems₂ := by
  intro key
  have a := a key
  generalize sems₁[key]? = before, sems₂[key]? = after at a
  cases a
  case none => exact .none
  case some a => exact .some (a.mono le)

theorem trans {sems₃ : Semaphores} (a₁ : RefillsEach now n sems₁ sems₂) (a₂ : RefillsEach now n sems₂ sems₃) :
    RefillsEach now n sems₁ sems₃ := by
  intro key
  have a₁ := a₁ key
  have a₂ := a₂ key
  generalize sems₁[key]? = before, sems₂[key]? = between, sems₃[key]? = after at a₁ a₂
  cases a₁
  case none => exact a₂
  case some a₁ =>
    cases a₂
    case some a₂ => exact .some (a₁.trans a₂)

theorem visit : RefillsEach now f.nextFencingToken sems (visit now (sems, f) key).1 := by
  intro key'
  by_cases same : key' = key
  case neg =>
    rw [visit_frame same]
    exact refl key'
  case pos =>
    subst same
    simp only [semaphorePromote]
    cases mem : sems[key']?
    case none => simpa only [mem] using .none
    case some sem => simpa only [HashMap.get_insert, ↓reduceIte] using .some .promoteLoop

theorem visits {keys : List String} :
    RefillsEach now f.nextFencingToken sems (keys.foldl (Semaphores.visit now) (sems, f)).1 := by
  induction keys generalizing sems f
  case nil => exact refl
  case cons key keys ih =>
    have le : f.nextFencingToken ≤ (Semaphores.visit now (sems, f) key).2.nextFencingToken :=
      FencingCounter.Steps.le semaphorePromote_fencing
    exact visit.trans (ih.mono le)

theorem expireDue : RefillsEach now f.nextFencingToken (sems.sweep now) (sems.expireDue o f now).1 :=
  visits

end RefillsEach

theorem get_sweep : (sems.sweep now)[key]? = sems[key]?.map (·.sweep now) :=
  Std.ExtTreeMap.getElem?_map

theorem sweep_of_live (live : sems.QueuesLive now)
    (leases : HashMap.Each (fun sem => ∀ slot ∈ sem.holders, now < slot.leaseExpiresMs) sems) :
    sems.sweep now = sems := by
  refine HashMap.ext_get fun key => ?_
  rw [get_sweep]
  cases mem : sems[key]?
  case none => rfl
  case some sem =>
    have queue : sem.queue.retain (fun _ w => waiterIsLive w.waitExpiresMs now) = sem.queue :=
      IndexedQueue.ext (List.filter_eq_self.mpr (live key sem mem))
    have holders : sem.holders.filter (·.leaseExpiresMs > now) = sem.holders :=
      List.filter_eq_self.mpr fun slot h => decide_eq_true (leases key sem mem slot h)
    rw [Option.map_some, Semaphore.sweep, queue, holders]

theorem expireDue_of_settled (s : Settled (sems, f)) (live : sems.QueuesLive now)
    (leases : HashMap.Each (fun sem => ∀ slot ∈ sem.holders, now < slot.leaseExpiresMs) sems) :
    sems.expireDue o f now = (sems, f) := by
  have order : sems.expireDue o f now = ((sems.sweep now).keys o).foldl (visit now) (sems.sweep now, f) := rfl
  rw [order, sweep_of_live live leases]
  cases next : f.nextToken
  case none => exact foldl_visit_of_exhausted next
  case some =>
    refine foldl_visit_of_none fun key _ ⟨sem, mem, p⟩ => ?_
    rcases s key sem mem with exhausted | full
    case inl =>
      rw [FencingCounter.nextToken_eq_none_iff.mpr exhausted] at next
      contradiction
    case inr =>
      rw [full] at p
      contradiction

theorem leases_expireDue
    (ttl : HashMap.Each (fun sem => ∀ e ∈ sem.queue.entries, now < U64.saturatingAdd now e.2.ttlMs) sems) :
    HashMap.Each (fun sem => ∀ slot ∈ sem.holders, now < slot.leaseExpiresMs) (sems.expireDue o f now).1 := by
  intro key sem mem slot hs
  have a : Option.Rel (Refills now f.nextFencingToken) (sems.sweep now)[key]? (sems.expireDue o f now).1[key]? :=
    RefillsEach.expireDue key
  rw [mem, get_sweep] at a
  cases before : sems[key]?
  case none =>
    rw [before] at a
    nomatch a
  case some sem₀ =>
    rw [before, Option.map_some] at a
    cases a
    case some a =>
      have ⟨given, same, h⟩ := a.holders
      rw [same] at hs
      rcases List.mem_append.mp hs with hs | hs
      case inl => exact of_decide_eq_true (List.mem_filter.mp hs).2
      case inr =>
        have ⟨_, e, he, lease⟩ := h slot hs
        exact lease ▸ ttl key sem₀ before e (IndexedQueue.mem_retain.mp he).1

end Semaphores

namespace CancellationLedger

variable {l : CancellationLedger} {now deadline : Nat}

@[simp]
theorem expirations_expireIdentity {identity : String} :
    (l.expireIdentity deadline identity).expirations = l.expirations := by
  simp only [expireIdentity]
  split
  case h_1 => rfl
  case h_2 => split <;> rfl

theorem expirations_expireBucket {identities : BTreeSet String} :
    (l.expireBucket deadline identities).expirations = l.expirations.erase deadline := by
  have same (identities : List String) (l : CancellationLedger) :
      (identities.foldl (fun l identity => l.expireIdentity deadline identity) l).expirations = l.expirations := by
    induction identities generalizing l
    case nil => rfl
    case cons identity identities ih => rw [List.foldl_cons, ih, expirations_expireIdentity]
  rw [expireBucket, same]

theorem expirations_expireBuckets {buckets : List (Nat × BTreeSet String)} {bucket : BTreeSet String}
    (h : (buckets.foldl (fun l (deadline, identities) => l.expireBucket deadline identities) l).expirations[deadline]? =
      some bucket) :
    l.expirations[deadline]? = some bucket ∧ deadline ∉ buckets.map Prod.fst := by
  induction buckets generalizing l
  case nil => exact ⟨h, List.not_mem_nil⟩
  case cons b buckets ih =>
    have ⟨stored, fresh⟩ := ih h
    rw [expirations_expireBucket, HashMap.get_erase] at stored
    split at stored
    case isTrue => contradiction
    case isFalse other => exact ⟨stored, List.not_mem_cons_of_ne_of_not_mem (Ne.symm other) fresh⟩

-- No bucket that is due is left.
theorem expire_expire : (l.expire now).expire now = l.expire now := by
  have none : (l.expire now).expirations.toList.filter (·.1 ≤ now) = [] := by
    refine List.filter_eq_nil_iff.mpr fun (deadline, bucket) mem => ?_
    have ⟨stored, fresh⟩ := expirations_expireBuckets (HashMap.mem_toList.mp mem)
    intro due
    exact fresh (List.mem_map.mpr ⟨_, List.mem_filter.mpr ⟨HashMap.mem_toList.mpr stored, due⟩, rfl⟩)
  rw [CancellationLedger.expire.eq_1 (l.expire now), none, List.foldl_nil]

theorem Consistent.entries_live (h : l.Consistent) {i : String} {entry : CancellationEntry}
    (mem : (l.expire now).entries[i]? = some entry) : now < entry.expiresAtMs := by
  rw [h.expire.2, Option.filter_eq_some_iff] at mem
  exact of_decide_eq_true mem.2

end CancellationLedger

namespace Services

variable {services : Services} {now : Nat} {service : String} {instances : HashMap String ServiceInstance}

theorem instances_expireDue (h : (services.expireDue now)[service]? = some instances) :
    !instances.isEmpty ∧ ∀ (i : String) inst, instances[i]? = some inst → now < inst.leaseExpiresMs := by
  rw [expireDue, HashMap.get_filter, Option.filter_eq_some_iff, Std.ExtTreeMap.getElem?_map, Option.map_eq_some_iff] at h
  have ⟨⟨_, _, same⟩, filled⟩ := h
  refine ⟨filled, fun i inst mem => ?_⟩
  subst same
  have := HashMap.of_mem_filter mem
  exact of_decide_eq_true this

theorem expireDue_expireDue : (services.expireDue now).expireDue now = services.expireDue now := by
  have same : (services.expireDue now).map (fun _ instances => instances.filter fun _ inst => inst.leaseExpiresMs > now) =
      services.expireDue now := by
    refine HashMap.ext_get fun service => ?_
    rw [Std.ExtTreeMap.getElem?_map]
    cases mem : (services.expireDue now)[service]?
    case none => rfl
    case some instances =>
      have ⟨_, live⟩ := instances_expireDue mem
      rw [Option.map_some, HashMap.filter_eq_self fun i inst h => decide_eq_true (live i inst h)]
  rw [expireDue.eq_1 (services.expireDue now), same]
  exact HashMap.filter_eq_self fun _ _ mem => (instances_expireDue mem).1

end Services

namespace Store

variable {s : Store} {o : IterOrder} {now : Nat}

-- A queued request asks for a lease, and the lease it would get now can be represented.
structure Leasable (s : Store) (now : Nat) : Prop where
  locks   : ∀ e ∈ s.locks.queue.entries, 1 ≤ e.2.ttlMs ∧ now + e.2.ttlMs ≤ U64.max
  permits : HashMap.Each (fun sem : Semaphore =>
              ∀ e ∈ sem.queue.entries, 1 ≤ e.2.ttlMs ∧ now + e.2.ttlMs ≤ U64.max) s.semaphores

theorem lt_saturatingAdd {ttlMs : Nat} (h : 1 ≤ ttlMs ∧ now + ttlMs ≤ U64.max) :
    now < U64.saturatingAdd now ttlMs := by
  rw [U64.saturatingAdd, Nat.min_eq_left h.2]
  omega

theorem waiterIsLive_iff {deadline? : Option Nat} :
    waiterIsLive deadline? now ↔ ∀ deadline, deadline? = some deadline → now < deadline := by
  cases deadline? <;> simp [waiterIsLive]

section Fixpoint

variable (ttl : s.Leasable now) (o₁ o₂ : IterOrder)

include ttl

theorem Leasable.locks_expireDue : (s.expireDue o₁ now).locks.expireDue o₂ (s.expireDue o₁ now).fencing now =
    ((s.expireDue o₁ now).locks, (s.expireDue o₁ now).fencing) := by
  have settled : LockManager.Settled (s.locks.expireDue o₁ s.fencing now) := .lockPromote
  have minted : FencingCounter.Steps (s.locks.expireDue o₁ s.fencing now).2 (s.expireDue o₁ now).fencing :=
    (Semaphores.expireDue_steps o₁ (c := .activateCommandProtocol 0)).fencing
  refine LockManager.expireDue_of_settled (settled.mint minted) (LockManager.expireDue_queueLive o₁) fun _ _ => ?_
  exact LockManager.leases_expireDue fun e he => lt_saturatingAdd (ttl.locks e he)

theorem Leasable.semaphores_expireDue :
    (s.expireDue o₁ now).semaphores.expireDue o₂ (s.expireDue o₁ now).fencing now =
    ((s.expireDue o₁ now).semaphores, (s.expireDue o₁ now).fencing) :=
  Semaphores.expireDue_of_settled (.expireDue o₁) (Semaphores.expireDue_queuesLive o₁)
    (Semaphores.leases_expireDue (ttl.permits.imp fun _ h e he => lt_saturatingAdd (h e he)))

theorem Leasable.expireDue_expireDue : (s.expireDue o₁ now).expireDue o₂ now = s.expireDue o₁ now := by
  have locks := ttl.locks_expireDue o₁ o₂
  have semaphores := ttl.semaphores_expireDue o₁ o₂
  rw [expireDue.eq_1 o₂, locks]
  dsimp only
  rw [semaphores]
  ext1 <;> try rfl
  case kv => exact HashMap.filter_filter_self _ _
  case lockCancellations | semaphoreCancellations => exact CancellationLedger.expire_expire
  case idempotency | elections => exact HashMap.filter_filter_self _ _
  case services => exact Services.expireDue_expireDue

end Fixpoint

-- Nothing in the store has run out.
structure Current (s : Store) (now : Nat) : Prop where
  grants        : ∀ (token : Nat) grant, s.locks.grants[token]? = some grant → now < grant.leaseExpiresMs
  permits       : ∀ (key : String) sem, s.semaphores[key]? = some sem →
                    ∀ slot ∈ sem.holders, now < slot.leaseExpiresMs
  lockWaiters   : ∀ e ∈ s.locks.queue.entries, ∀ deadline, e.2.waitExpiresMs = some deadline → now < deadline
  permitWaiters : ∀ (key : String) sem, s.semaphores[key]? = some sem → ∀ e ∈ sem.queue.entries,
                    ∀ deadline, e.2.waitExpiresMs = some deadline → now < deadline
  tombstones    : ∀ (a : Attempt) (i : String) entry,
                    (s.cancellations a).entries[i]? = some entry → now < entry.expiresAtMs
  kv            : ∀ (key : String) entry, s.kv[key]? = some entry →
                    ∀ deadline, entry.expiresAtMs = some deadline → now < deadline
  elections     : ∀ (name : String) leadership, s.elections[name]? = some leadership →
                    now < leadership.leaseExpiresMs
  idempotency   : ∀ (key : String) record, s.idempotency[key]? = some record → now < record.leaseExpiresMs
  services      : ∀ (service : String) instances, s.services[service]? = some instances →
                    ∀ (i : String) inst, instances[i]? = some inst → now < inst.leaseExpiresMs

variable [External]

theorem Reachable.ledger_consistent (r : Reachable s) (a : Attempt) : (s.cancellations a).Consistent := by
  induction r
  case empty => cases a <;> exact CancellationLedger.empty_consistent
  case apply s o c now r ih =>
    have swept : ((s.prepare o c now).cancellations a).Consistent := by
      simp only [prepare]
      split
      case isTrue => exact ih
      case isFalse => cases a <;> exact ih.expire.1
    rcases s.applyAt_cancellations o c now a with same | ⟨_, _, _, same⟩
    case inl => exact same ▸ swept
    case inr => exact same ▸ swept.remember

theorem Leasable.current (ttl : s.Leasable now) (r : Reachable s) : (s.expireDue o now).Current now where
  grants _ _          := LockManager.leases_expireDue fun e he => lt_saturatingAdd (ttl.locks e he)
  permits             := Semaphores.leases_expireDue (ttl.permits.imp fun _ h e he => lt_saturatingAdd (h e he))
  lockWaiters e he    := waiterIsLive_iff.mp (LockManager.expireDue_queueLive o e he)
  permitWaiters key sem mem e he := waiterIsLive_iff.mp (Semaphores.expireDue_queuesLive o key sem mem e he)
  tombstones a i entry mem := by
    have consistent := r.ledger_consistent a
    cases a <;> exact consistent.entries_live mem
  kv _ _ mem          :=
    have h := HashMap.of_mem_filter mem
    waiterIsLive_iff.mp h
  elections _ _ mem   :=
    have h := HashMap.of_mem_filter mem
    of_decide_eq_true h
  idempotency _ _ mem :=
    have h := HashMap.of_mem_filter mem
    of_decide_eq_true h
  services _ _ mem    := (Services.instances_expireDue mem).2

-- The requests that the sweep promotes get leases that go on, and what it does not promote has to wait
-- for something that goes on, so that a second sweep finds nothing to do.
theorem Reachable.sweep_fixpoint (r : Reachable s) (ttl : s.Leasable now) (o₁ o₂ : IterOrder) :
    (s.expireDue o₁ now).expireDue o₂ now = s.expireDue o₁ now ∧ (s.expireDue o₁ now).Current now :=
  ⟨ttl.expireDue_expireDue o₁ o₂, ttl.current r⟩

omit [External] in
-- The lock and the permit run out at the same time, and both are handed over.
theorem sweep_fixpoint_handover :
    letI := External.fixed
    let s₁ := (Store.empty.applyAt .sorted (.lockAcquireV2 ["l"] "a" 10 true none) 0).1
    let s₂ := (s₁.applyAt .sorted (.lockAcquireV2 ["l"] "b" 10 true none) 1).1
    let s₃ := (s₂.applyAt .sorted (.semaphoreAcquireV2 "k" "a" 1 10 true none) 2).1
    let s₄ := (s₃.applyAt .sorted (.semaphoreAcquireV2 "k" "b" 1 10 true none) 3).1
    let swept := s₄.expireDue .sorted 12
    swept.locks.grants[3]?.map (·.holder) = some "b" ∧
    swept.semaphores["k"]?.map (·.holders.map (·.holder)) = some ["b"] ∧
    swept.expireDue .reversed 12 = swept ∧ swept.Current 12 := by
  let := External.fixed
  intro s₁ s₂ s₃ s₄ swept
  have r : Reachable s₄ := .apply _ _ _ (.apply _ _ _ (.apply _ _ _ (.apply _ _ _ .empty)))
  have permits : ∀ e ∈ s₄.semaphores.toList, ∀ w ∈ e.2.queue.entries, 1 ≤ w.2.ttlMs ∧ 12 + w.2.ttlMs ≤ U64.max := by
    decide +kernel
  have ttl : s₄.Leasable 12 := {
    locks := by decide +kernel
    permits := fun key sem mem => permits (key, sem) (HashMap.mem_toList.mpr mem)
  }
  exact ⟨by decide +kernel, by decide +kernel, r.sweep_fixpoint ttl .sorted .reversed⟩

end Store
