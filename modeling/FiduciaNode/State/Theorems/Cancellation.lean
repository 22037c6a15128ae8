import FiduciaNode.State.Theorems.MutualExclusion
import FiduciaNode.State.Theorems.Semaphores

-- One logical attempt to acquire a lock or a permit, as its retries and its cancellation name it.
inductive Attempt
  | lock (holder : String) (keys : List String) (requestId : String)
  | permit (holder key requestId : String)
  deriving DecidableEq

namespace Attempt

variable [External]

def identity : Attempt → String
  | lock holder keys requestId => acquisitionIdentity "lock" holder keys requestId
  | permit holder key requestId => acquisitionIdentity "semaphore" holder [key] requestId

end Attempt

namespace Command

def cancelledAttempt : Command → Option Attempt
  | lockCancelAttempt keys holder requestId => some (.lock holder (canonicalKeys keys) requestId)
  | semaphoreCancelAttempt key holder requestId => some (.permit holder key requestId)
  | _ => none

end Command

namespace CancellationLedger

variable {l l₁ l₂ l₃ : CancellationLedger} {identity tenant : String} {now deadline : Nat}

-- The sweep drops nothing but entries that are due.
structure Swept (now : Nat) (l₁ l₂ : CancellationLedger) : Prop where
  sub  : ∀ {i : String} {entry}, l₂.entries[i]? = some entry → l₁.entries[i]? = some entry
  kept : ∀ {i : String} {entry}, l₁.entries[i]? = some entry → now < entry.expiresAtMs →
           l₂.entries[i]? = some entry

namespace Swept

theorem refl : Swept now l l where
  sub  := id
  kept := fun h _ => h

theorem trans (s₁ : Swept now l₁ l₂) (s₂ : Swept now l₂ l₃) : Swept now l₁ l₃ where
  sub  := fun h => s₁.sub (s₂.sub h)
  kept := fun h live => s₂.kept (s₁.kept h live) live

theorem expireIdentity (h : deadline ≤ now) : Swept now l (l.expireIdentity deadline identity) := by
  simp only [CancellationLedger.expireIdentity]
  split
  case h_1 => exact .refl
  case h_2 entry mem =>
    split
    case isTrue => exact .refl
    case isFalse due =>
      constructor
      case sub =>
        intro i entry' h
        rw [HashMap.get_erase] at h
        split at h
        case isTrue => contradiction
        case isFalse => exact h
      case kept =>
        intro i entry' h live
        rw [HashMap.get_erase, if_neg, h]
        intro e
        cases mem.symm.trans (e ▸ h)
        omega

theorem expireIdentities {identities : List String} (h : deadline ≤ now) :
    Swept now l (identities.foldl (fun l identity => l.expireIdentity deadline identity) l) := by
  induction identities generalizing l
  case nil => exact .refl
  case cons ih => exact (expireIdentity h).trans ih

theorem expireBuckets {buckets : List (Nat × BTreeSet String)} (h : ∀ b ∈ buckets, b.1 ≤ now) :
    Swept now l
      (buckets.foldl (fun l (deadline, identities) => l.expireBucket deadline identities) l) := by
  induction buckets generalizing l
  case nil => exact .refl
  case cons b buckets ih =>
    have first : Swept now { l with expirations := l.expirations.erase b.1 }
        (l.expireBucket b.1 b.2) := expireIdentities (h b List.mem_cons_self)
    have first : Swept now l (l.expireBucket b.1 b.2) := { sub := first.sub, kept := first.kept }
    exact first.trans (ih fun b' hb => h b' (List.mem_cons_of_mem _ hb))

theorem expire (l : CancellationLedger) (now : Nat) : Swept now l (l.expire now) :=
  expireBuckets fun b h => by simpa using (List.mem_filter.mp h).2

end Swept

theorem contains_iff : l.contains identity ↔ ∃ entry, l.entries[identity]? = some entry := by
  rw [contains, Std.ExtTreeMap.contains_eq_isSome_getElem?, Option.isSome_iff_exists]

-- A cancellation that is remembered already is not remembered again, so its deadline stays.
theorem remember_cases (l : CancellationLedger) (identity tenant : String) (now : Nat) :
    (l.contains identity ∧ l.remember identity tenant now = (l, .remembered)) ∨
    (l.remember identity tenant now = (l, .capacityExceeded)) ∨
    (l.contains identity = false ∧ (l.remember identity tenant now).2 = .remembered ∧
      (l.remember identity tenant now).1.entries =
        l.entries.insert identity ⟨U64.saturatingAdd now cancellationTombstoneTtlMs, tenant⟩) := by
  simp only [remember, rememberWithLimits, contains]
  split
  case isTrue h => exact .inl ⟨h, rfl⟩
  case isFalse h =>
    split
    case isTrue => exact .inr (.inl rfl)
    case isFalse => exact .inr (.inr ⟨Bool.eq_false_iff.mpr h, rfl, rfl⟩)

theorem remember_keeps {i : String} {entry : CancellationEntry} (h : l.entries[i]? = some entry) :
    (l.remember identity tenant now).1.entries[i]? = some entry := by
  rcases l.remember_cases identity tenant now with ⟨_, e⟩ | e | ⟨absent, _, e⟩
  case inl | inr.inl => rwa [e]
  case inr.inr =>
    rw [e, HashMap.get_insert, if_neg, h]
    rintro rfl
    simp [contains_iff.mpr ⟨entry, h⟩] at absent

theorem remember_contains (h : (l.remember identity tenant now).2 = .remembered) :
    (l.remember identity tenant now).1.contains identity := by
  rcases l.remember_cases identity tenant now with ⟨mem, e⟩ | e | ⟨_, _, e⟩
  case inl => rwa [e]
  case inr.inl => simp [e] at h
  case inr.inr => simp [contains, e]

-- What is new after a cancellation is the identity that it cancels.
theorem remember_new {i : String} (absent : l.contains i = false)
    (present : (l.remember identity tenant now).1.contains i) :
    i = identity ∧ (l.remember identity tenant now).1.entries[i]? =
      some ⟨U64.saturatingAdd now cancellationTombstoneTtlMs, tenant⟩ := by
  rcases l.remember_cases identity tenant now with ⟨_, e⟩ | e | ⟨_, _, e⟩
  case inl | inr.inl => simp [e, absent] at present
  case inr.inr =>
    by_cases h : identity = i
    case pos =>
      subst h
      exact ⟨rfl, by simp [e]⟩
    case neg =>
      simp only [contains, e, Std.ExtTreeMap.contains_eq_isSome_getElem?, HashMap.get_insert, h,
        ↓reduceIte] at absent present
      simp [absent] at present

end CancellationLedger

namespace LockManager

variable {m : LockManager} {t₁ t₂ : Table} {c : Command} {now : Nat}
variable {holder requestId : String} {keys : List String}

def Granted (m : LockManager) (holder : String) (keys : List String) (requestId : String) : Prop :=
  ∃ (token : Nat) (grant : LockGrant), m.grants[token]? = some grant ∧
    grant.holder = holder ∧ grant.keys = keys ∧ grant.requestId = some requestId

def Waiting (m : LockManager) (holder : String) (keys : List String) (requestId : String) : Prop :=
  ∃ e ∈ m.queue.entries, e.2.holder = holder ∧ e.2.keys = keys ∧ e.2.requestId = some requestId

-- The attempt neither has its keys nor waits for them.
def Absent (m : LockManager) (holder : String) (keys : List String) (requestId : String) : Prop :=
  ¬m.Granted holder keys requestId ∧ ¬m.Waiting holder keys requestId

-- Only the request of the command can bring an attempt into the tables.
theorem Step.absent (e : Step c now t₁ t₂)
    (other : ∀ input, c.lockRequest = some input →
      ¬(input.holder = holder ∧ canonicalKeys input.keys = keys ∧ input.requestId = some requestId))
    (a : t₁.1.Absent holder keys requestId) : t₂.1.Absent holder keys requestId := by
  have ⟨grants, waits⟩ := a
  cases e with
  | mint => exact a
  | expire => exact ⟨grants, fun ⟨e, h, q⟩ => waits ⟨e, (IndexedQueue.mem_retain.mp h).left, q⟩⟩
  | cancel => exact ⟨grants, fun ⟨e, h, q⟩ => waits ⟨e, (IndexedQueue.mem_remove.mp h).left, q⟩⟩
  | renew mem =>
    refine ⟨fun ⟨token, g, h, hg⟩ => ?_, waits⟩
    rw [HashMap.get_insert] at h
    split at h
    case isTrue =>
      cases h
      exact grants ⟨_, _, mem, hg⟩
    case isFalse => exact grants ⟨token, g, h, hg⟩
  | release =>
    refine ⟨fun ⟨token, g, h, hg⟩ => ?_, by simpa [Waiting] using waits⟩
    rw [grants_releaseGrant] at h
    split at h
    case isTrue => contradiction
    case isFalse => exact grants ⟨token, g, h, hg⟩
  | enqueue request =>
    refine ⟨by simpa [Granted] using grants, fun ⟨e, h, q⟩ => ?_⟩
    cases enqueue_entries h
    case inl h => exact waits ⟨e, h, q⟩
    case inr h =>
      have ⟨_, hh, hk, hr⟩ := h
      exact other _ request (hh ▸ hk ▸ hr ▸ q)
  | grant request =>
    refine ⟨fun ⟨token, g, h, hg⟩ => ?_, waits⟩
    simp only [give, installGrant, HashMap.get_insert] at h
    split at h
    case isTrue =>
      cases h
      exact other _ request hg
    case isFalse => exact grants ⟨token, g, h, hg⟩
  | promote first mem =>
    refine ⟨?_, by rintro ⟨e, h, q⟩; exact waits ⟨e, (IndexedQueue.mem_remove.mp h).left, q⟩⟩
    rintro ⟨token, g, h, hg⟩
    simp only [LockManager.promote, give, installGrant, HashMap.get_insert] at h
    split at h
    case isTrue =>
      cases h
      exact waits ⟨_, IndexedQueue.get_eq_some_iff.mp mem, hg⟩
    case isFalse => exact grants ⟨token, g, h, hg⟩

theorem Steps.absent (e : Steps c now t₁ t₂)
    (other : ∀ input, c.lockRequest = some input →
      ¬(input.holder = holder ∧ canonicalKeys input.keys = keys ∧ input.requestId = some requestId))
    (a : t₁.1.Absent holder keys requestId) : t₂.1.Absent holder keys requestId := by
  induction e
  case refl => exact a
  case tail e ih => exact e.absent other ih

end LockManager

namespace LockManager

variable {m : LockManager} {f : FencingCounter} {c : Command} {now : Nat} {o : IterOrder}
variable {holder : String} {keys : List String}

theorem grantOf?_eq_none (h : m.grantOf? o holder keys (some request) = none) :
    ¬m.Granted holder keys request := by
  intro ⟨token, grant, mem, hh, hk, hr⟩
  have := List.find?_eq_none.mp h grant (HashMap.mem_values.mpr ⟨token, mem⟩)
  simp [hh, hk, hr] at this

theorem Absent.lockPromote (a : m.Absent holder keys request) (l : m.QueueLive now) :
    (m.lockPromote f now).1.Absent holder keys request := by
  have e : Steps (.lockCancel [] "") now (m, f)
      ((m.lockPromote f now).1, (m.lockPromote f now).2.1) := promoteLoop_steps l
  exact Steps.absent e (by simp [Command.lockRequest]) a

variable [External] {ledger : CancellationLedger}

omit [External] in
-- What a cancellation leaves of an attempt that it confirms to be cancelled.
theorem cancelQueued_absent (w : WellFormed (m, f)) (l : m.QueueLive now)
    (free : m.grantOf? o holder keys (some request) = none) :
    (m.cancelQueued o f revision now keys holder (some request)).1.Absent holder keys request := by
  have grants := grantOf?_eq_none free
  simp only [cancelQueued, free]
  split
  case isTrue =>
    have a : LockManager.Absent { m with queue := m.queue.remove (holder, keys) }
        holder keys request := by
      refine ⟨grants, ?_⟩
      rintro ⟨e, h, hh, hk, _⟩
      obtain ⟨he, ne⟩ := IndexedQueue.mem_remove.mp h
      exact ne ((w.queue_id e he).trans (Prod.ext hh hk))
    exact a.lockPromote (l.remove _)
  case isFalse no =>
    refine ⟨grants, fun waiting => no ?_⟩
    obtain ⟨e, h, hh, hk, hr⟩ := waiting
    simp only [Option.isSome_some, ↓reduceIte] at h
    have get : m.queue.get (holder, keys) = some e.2 := by
      rw [IndexedQueue.get_eq_some_iff, ← hh, ← hk, ← w.queue_id e h]
      exact h
    simp [get, hr]

theorem applyLockCancel_absent (w : WellFormed (m, f)) (l : m.QueueLive now)
    (answer : (m.applyLockCancel o ledger f revision now keys holder (some request)).2.2.2.field
      "cancelled" = some (.bool true)) :
    (m.applyLockCancel o ledger f revision now keys holder (some request)).1.Absent holder
      (canonicalKeys keys) request ∧
    (m.applyLockCancel o ledger f revision now keys holder (some request)).2.1.contains
      (acquisitionIdentity "lock" holder (canonicalKeys keys) request) := by
  simp only [applyLockCancel] at answer ⊢
  cases free : m.grantOf? o holder (canonicalKeys keys) (some request)
  case some grant => simp [free, raced, json, Value.field, toValue] at answer
  case none =>
    simp only [free] at answer ⊢
    split
    case h_1 ledger' full => simp [full, json, Value.field, toValue] at answer
    case h_2 ledger' ok =>
      refine ⟨cancelQueued_absent w l free, ?_⟩
      have := CancellationLedger.remember_contains (l := ledger) (by rw [ok])
      rwa [ok] at this

end LockManager

namespace Semaphores

variable {sems : Semaphores} {t₁ t₂ : Table} {f : FencingCounter} {c : Command} {now : Nat}
variable {sem : Semaphore} {holder key requestId : String}

def Granted (sems : Semaphores) (holder key requestId : String) : Prop :=
  ∃ sem, sems[key]? = some sem ∧
    ∃ slot ∈ sem.holders, slot.holder = holder ∧ slot.requestId = some requestId

def Waiting (sems : Semaphores) (holder key requestId : String) : Prop :=
  ∃ sem, sems[key]? = some sem ∧
    ∃ e ∈ sem.queue.entries, e.2.holder = holder ∧ e.2.requestId = some requestId

def Absent (sems : Semaphores) (holder key requestId : String) : Prop :=
  ¬sems.Granted holder key requestId ∧ ¬sems.Waiting holder key requestId

theorem absent_iff :
    (sems.Absent holder key requestId) ↔
    (∀ sem, sems[key]? = some sem →
      (∀ slot ∈ sem.holders, ¬(slot.holder = holder ∧ slot.requestId = some requestId)) ∧
      (∀ e ∈ sem.queue.entries, ¬(e.2.holder = holder ∧ e.2.requestId = some requestId))) := by
  simp only [Absent, Granted, Waiting, not_exists]
  grind

theorem Absent.insert {key' : String} (a : sems.Absent holder key requestId)
    (holders : key' = key →
      ∀ slot ∈ sem.holders, ¬(slot.holder = holder ∧ slot.requestId = some requestId))
    (queue : key' = key →
      ∀ e ∈ sem.queue.entries, ¬(e.2.holder = holder ∧ e.2.requestId = some requestId)) :
    Absent (sems.insert key' sem) holder key requestId := by
  rw [absent_iff] at a ⊢
  intro sem' mem
  simp only [HashMap.get_insert] at mem
  split at mem
  case isTrue h =>
    cases mem
    exact ⟨holders h, queue h⟩
  case isFalse => exact a sem' mem

theorem Absent.holders (a : sems.Absent holder key requestId) {key' : String}
    (mem : sems[key']? = some sem) (h : key' = key) :
    ∀ slot ∈ sem.holders, ¬(slot.holder = holder ∧ slot.requestId = some requestId) :=
  (absent_iff.mp a sem (h ▸ mem)).1

theorem Absent.queue (a : sems.Absent holder key requestId) {key' : String}
    (mem : sems[key']? = some sem) (h : key' = key) :
    ∀ e ∈ sem.queue.entries, ¬(e.2.holder = holder ∧ e.2.requestId = some requestId) :=
  (absent_iff.mp a sem (h ▸ mem)).2

theorem Step.absent (e : Step c now t₁ t₂)
    (other : ∀ input, c.semaphoreRequest = some input →
      ¬(input.holder = holder ∧ input.key = key ∧ input.requestId = some requestId))
    (a : t₁.1.Absent holder key requestId) : t₂.1.Absent holder key requestId := by
  cases e with
  | mint => exact a
  | release mem =>
    exact a.insert (fun h slot hs => a.holders mem h slot (List.mem_filter.mp hs).1)
      fun h e he => a.queue mem h e he
  | cancel mem =>
    exact a.insert (fun h slot hs => a.holders mem h slot hs)
      fun h e he => a.queue mem h e (IndexedQueue.mem_remove.mp he).1
  | renew mem holders =>
    refine a.insert (fun h slot hs => ?_) fun h e he => a.queue mem h e he
    have ⟨old, ho, hh, _, hr⟩ := mem_renewed holders hs
    exact hh ▸ hr ▸ a.holders mem h old ho
  | @enter input sems _ request =>
    rcases entry_cases sems input with ⟨hh, hq⟩ | ⟨sem, mem, hh, hq⟩
    case inl => exact a.insert (by simp [hh]) (by simp [hq])
    case inr => exact a.insert (hh ▸ a.holders mem) (hq ▸ a.queue mem)
  | @enqueue input sems sem _ request mem =>
    refine a.insert (by simpa using a.holders mem) fun h e he => ?_
    cases enqueue_entries he
    case inl he => exact a.queue mem h e he
    case inr he =>
      have ⟨_, hh, hr⟩ := he
      exact fun q => other input request ⟨hh ▸ q.1, h, hr ▸ q.2⟩
  | @grant input sems sem _ _ _ request mem =>
    refine a.insert (fun h slot hs => ?_) fun h e he => a.queue mem h e he
    rcases List.mem_append.mp hs with hs | hs
    case inl => exact a.holders mem h slot hs
    case inr =>
      cases List.mem_singleton.mp hs
      exact fun q => other input request ⟨q.1, h, q.2⟩
  | promote mem free front =>
    refine a.insert (fun h slot hs => ?_) fun h e he => a.queue mem h e (popFront_subset he)
    rcases List.mem_append.mp hs with hs | hs
    case inl => exact a.holders mem h slot hs
    case inr =>
      cases List.mem_singleton.mp hs
      exact a.queue mem h _ (front_mem front)
  | sweep =>
    rw [absent_iff] at a ⊢
    intro sem mem
    simp only [Semaphores.sweep, Std.ExtTreeMap.getElem?_map, Option.map_eq_some_iff] at mem
    obtain ⟨sem', mem, hs⟩ := mem
    obtain ⟨holders, queue⟩ := a sem' mem
    subst hs
    exact ⟨fun slot h => holders slot (List.mem_filter.mp h).1,
      fun e h => queue e (IndexedQueue.mem_retain.mp h).1⟩

theorem Steps.absent (e : Steps c now t₁ t₂)
    (other : ∀ input, c.semaphoreRequest = some input →
      ¬(input.holder = holder ∧ input.key = key ∧ input.requestId = some requestId))
    (a : t₁.1.Absent holder key requestId) : t₂.1.Absent holder key requestId := by
  induction e
  case refl => exact a
  case tail e ih => exact e.absent other ih

theorem Absent.semaphorePromote (a : sems.Absent holder key requestId) (l : sems.QueuesLive now) :
    (sems.semaphorePromote f key' now).1.Absent holder key requestId := by
  have e : Steps (.semaphoreCancel "" "") now (sems, f) ((sems.semaphorePromote f key' now).1,
      (sems.semaphorePromote f key' now).2.1) := semaphorePromote_steps l
  exact Steps.absent e (by simp [Command.semaphoreRequest]) a

theorem slotOf?_eq_none (h : sems.slotOf? key holder (some request) = none) :
    ¬sems.Granted holder key request := by
  intro ⟨sem, mem, slot, hs, hh, hr⟩
  simp only [slotOf?, mem, Option.bind_eq_bind, Option.bind_some] at h
  have := List.find?_eq_none.mp h slot hs
  simp [hh, hr] at this

theorem cancelQueued_absent (i : sems.Indexed) (l : sems.QueuesLive now)
    (free : sems.slotOf? key holder (some request) = none) :
    (sems.cancelQueued f revision now key holder (some request)).1.Absent holder key request := by
  have holders := slotOf?_eq_none free
  simp only [cancelQueued, free]
  split
  case h_1 sem h =>
    obtain ⟨mem, _⟩ := Option.filter_eq_some_iff.mp h
    have a : Absent (sems.insert key { sem with queue := sem.queue.remove holder })
        holder key request := by
      rw [absent_iff]
      intro sem' mem'
      simp only [HashMap.get_insert, ↓reduceIte, Option.some.injEq] at mem'
      subst mem'
      refine ⟨fun slot hs q => holders ⟨sem, mem, slot, hs, q⟩, fun e he q => ?_⟩
      obtain ⟨he, ne⟩ := IndexedQueue.mem_remove.mp he
      exact ne ((i key sem mem e he).trans q.1)
    refine a.semaphorePromote (l.insert fun e he => ?_)
    exact l key sem mem e (IndexedQueue.mem_remove.mp he).1
  case h_2 no =>
    refine ⟨holders, ?_⟩
    rintro ⟨sem, mem, e, he, hh, hr⟩
    simp only [Option.isSome_some, ↓reduceIte] at mem
    have get : sem.queue.get holder = some e.2 := by
      rw [IndexedQueue.get_eq_some_iff, ← hh, ← i key sem mem e he]
      exact he
    simp [mem, Option.filter, get, hr] at no

variable [External] {ledger : CancellationLedger}

theorem applySemaphoreCancel_absent (i : sems.Indexed) (l : sems.QueuesLive now)
    (answer : (sems.applySemaphoreCancel ledger f revision now key holder
      (some request)).2.2.2.field "cancelled" = some (.bool true)) :
    (sems.applySemaphoreCancel ledger f revision now key holder (some request)).1.Absent holder
      key request ∧
    (sems.applySemaphoreCancel ledger f revision now key holder (some request)).2.1.contains
      (acquisitionIdentity "semaphore" holder [key] request) := by
  simp only [applySemaphoreCancel] at answer ⊢
  cases free : sems.slotOf? key holder (some request)
  case some slot => simp [free, raced, json, Value.field, toValue] at answer
  case none =>
    simp only [free] at answer ⊢
    split
    case h_1 ledger' full => simp [full, json, Value.field, toValue] at answer
    case h_2 ledger' ok =>
      refine ⟨cancelQueued_absent i l free, ?_⟩
      have := CancellationLedger.remember_contains (l := ledger) (by rw [ok])
      rwa [ok] at this

end Semaphores

namespace Store

variable {s : Store} {o : IterOrder} {c : Command} {now revision : Nat} {a : Attempt}

def cancellations (s : Store) : Attempt → CancellationLedger
  | .lock .. => s.lockCancellations
  | .permit .. => s.semaphoreCancellations

def Granted (s : Store) : Attempt → Prop
  | .lock holder keys requestId => s.locks.Granted holder keys requestId
  | .permit holder key requestId => s.semaphores.Granted holder key requestId

def Waiting (s : Store) : Attempt → Prop
  | .lock holder keys requestId => s.locks.Waiting holder keys requestId
  | .permit holder key requestId => s.semaphores.Waiting holder key requestId

def Absent (s : Store) (a : Attempt) : Prop :=
  ¬s.Granted a ∧ ¬s.Waiting a

theorem prepare_cancellations :
    CancellationLedger.Swept now (s.cancellations a) ((s.prepare o c now).cancellations a) := by
  simp only [prepare]
  split
  case isTrue => exact .refl
  case isFalse => cases a <;> exact .expire _ now

-- The sweep makes no request of its own.
theorem Absent.prepare (h : s.Absent a) : (s.prepare o c now).Absent a := by
  cases a
  case lock =>
    have e : LockManager.Steps (.lockCancel [] "") now _ ((s.prepare o c now).locks, _) :=
      prepare_lockSteps
    exact e.absent (by simp [Command.lockRequest]) h
  case permit =>
    have e : Semaphores.Steps (.lockCancel [] "") now _ ((s.prepare o c now).semaphores, _) :=
      prepare_semaphoreSteps
    exact e.absent (by simp [Command.semaphoreRequest]) h

variable [External]

theorem applyCommand_of_lockRequest {input : LockAcquireInput}
    (request : c.lockRequest = some input) :
    s.applyCommand o revision now c = s.applyLockAcquire revision now input := by
  cases c <;> cases request <;> rfl

theorem applyCommand_of_semaphoreRequest {input : SemaphoreAcquireInput}
    (request : c.semaphoreRequest = some input) :
    s.applyCommand o revision now c = s.applySemaphoreAcquire revision now input := by
  cases c <;> cases request <;> rfl

-- A late or repeated acquire of a cancelled attempt is refused.
theorem applyLockAcquire_cancelled {input : LockAcquireInput} (id : input.requestId = some request)
    (cancelled : s.lockCancellations.contains
      (acquisitionIdentity "lock" input.holder (canonicalKeys input.keys) request)) :
    (s.applyLockAcquire revision now input).1.locks = s.locks := by
  simp only [applyLockAcquire, LockManager.applyLockAcquire, id, Option.any_some, cancelled,
    ↓reduceIte]
  split <;> rfl

theorem applySemaphoreAcquire_cancelled {input : SemaphoreAcquireInput}
    (id : input.requestId = some request)
    (cancelled : s.semaphoreCancellations.contains
      (acquisitionIdentity "semaphore" input.holder [input.key] request)) :
    (s.applySemaphoreAcquire revision now input).1.semaphores = s.semaphores := by
  simp only [applySemaphoreAcquire, Semaphores.applySemaphoreAcquire, id, Option.any_some,
    cancelled, ↓reduceIte]

theorem Absent.applyCommand (h : s.Absent a) (cancelled : (s.cancellations a).contains a.identity)
    (e : Steps c now s (s.applyCommand o revision now c).1) :
    (s.applyCommand o revision now c).1.Absent a := by
  cases a
  case lock holder keys requestId =>
    by_cases own : ∃ input, c.lockRequest = some input ∧ input.holder = holder ∧
      canonicalKeys input.keys = keys ∧ input.requestId = some requestId
    case neg => exact e.locks.absent (fun input request q => own ⟨input, request, q⟩) h
    case pos =>
      obtain ⟨input, request, rfl, rfl, hr⟩ := own
      have same : (s.applyLockAcquire revision now input).1.locks = s.locks :=
        applyLockAcquire_cancelled hr cancelled
      simpa only [Absent, Granted, Waiting, applyCommand_of_lockRequest request, same] using h
  case permit holder key requestId =>
    by_cases own : ∃ input, c.semaphoreRequest = some input ∧ input.holder = holder ∧
      input.key = key ∧ input.requestId = some requestId
    case neg => exact e.semaphores.absent (fun input request q => own ⟨input, request, q⟩) h
    case pos =>
      obtain ⟨input, request, rfl, rfl, hr⟩ := own
      have same : (s.applySemaphoreAcquire revision now input).1.semaphores = s.semaphores :=
        applySemaphoreAcquire_cancelled hr cancelled
      simpa only [Absent, Granted, Waiting, applyCommand_of_semaphoreRequest request, same] using h

section Ledger

theorem applyLockCancel_ledger :
    ((s.applyLockCancel o revision now keys holder requestId).1.lockCancellations =
      s.lockCancellations) ∨
    (∃ request tenant, requestId = some request ∧
      (s.applyLockCancel o revision now keys holder requestId).1.lockCancellations =
      (s.lockCancellations.remember
        (acquisitionIdentity "lock" holder (canonicalKeys keys) request) tenant now).1) := by
  simp only [applyLockCancel, LockManager.applyLockCancel]
  split
  case h_1 => exact .inl rfl
  case h_2 request =>
    split
    case h_1 => exact .inl rfl
    case h_2 =>
      split
      case h_1 e => exact .inr ⟨request, cancellationTenant holder, rfl, by rw [e]⟩
      case h_2 e => exact .inr ⟨request, cancellationTenant holder, rfl, by rw [e]⟩

theorem applySemaphoreCancel_ledger :
    ((s.applySemaphoreCancel revision now key holder requestId).1.semaphoreCancellations =
      s.semaphoreCancellations) ∨
    (∃ request tenant, requestId = some request ∧
      (s.applySemaphoreCancel revision now key holder requestId).1.semaphoreCancellations =
      (s.semaphoreCancellations.remember
        (acquisitionIdentity "semaphore" holder [key] request) tenant now).1) := by
  simp only [applySemaphoreCancel, Semaphores.applySemaphoreCancel]
  split
  case h_1 => exact .inl rfl
  case h_2 request =>
    split
    case h_1 => exact .inl rfl
    case h_2 =>
      split
      case h_1 e => exact .inr ⟨request, cancellationTenant holder, rfl, by rw [e]⟩
      case h_2 e => exact .inr ⟨request, cancellationTenant holder, rfl, by rw [e]⟩

omit [External] in
theorem onHandoffs_cancellations {r : Handoffs × Value} :
    (s.onHandoffs r).1.cancellations a = s.cancellations a := by
  cases a <;> rfl

-- Only the cancellation of an attempt writes to a ledger.
theorem applyCommand_cancellations :
    ((s.applyCommand o revision now c).1.cancellations a = s.cancellations a) ∨
    (∃ a' tenant, c.cancelledAttempt = some a' ∧
      (s.applyCommand o revision now c).1.cancellations a =
      ((s.cancellations a).remember a'.identity tenant now).1) := by
  cases c
  case lockCancel =>
    cases a
    case permit => exact .inl rfl
    case lock => exact .inl (applyLockCancel_ledger.resolve_right (by simp))
  case semaphoreCancel =>
    cases a
    case lock => exact .inl rfl
    case permit => exact .inl (applySemaphoreCancel_ledger.resolve_right (by simp))
  case lockCancelAttempt keys holder requestId =>
    cases a
    case permit => exact .inl rfl
    case lock =>
      refine applyLockCancel_ledger.imp_right fun ⟨request, tenant, hr, h⟩ => ?_
      cases hr
      exact ⟨_, tenant, rfl, h⟩
  case semaphoreCancelAttempt key holder requestId =>
    cases a
    case lock => exact .inl rfl
    case permit =>
      refine applySemaphoreCancel_ledger.imp_right fun ⟨request, tenant, hr, h⟩ => ?_
      cases hr
      exact ⟨_, tenant, rfl, h⟩
  case handoffOffer => exact .inl onHandoffs_cancellations
  case taskClaim =>
    refine .inl ?_
    simp only [applyCommand, applyTaskClaim]
    split <;> cases a <;> rfl
  case activateCommandProtocol =>
    refine .inl ?_
    simp only [applyCommand, applyActivateCommandProtocol]
    split
    case isTrue => cases a <;> rfl
    case isFalse => split <;> rfl
  all_goals exact .inl (by cases a <;> rfl)

end Ledger

-- The tombstone of the attempt that the store holds was created at `t₀`: by a cancellation which
-- did not find one after its sweep. No command since then has swept it away.
inductive Tombstone (a : Attempt) (t₀ : Nat) : Store → Prop
  | create {s : Store} {o : IterOrder} {c : Command} (reachable : Reachable s)
    (cancel : c.cancelledAttempt = some a') (same : a'.identity = a.identity)
    (absent : ((s.prepare o c t₀).cancellations a).contains a.identity = false)
    (present : ((s.applyAt o c t₀).1.cancellations a).contains a.identity) :
    Tombstone a t₀ (s.applyAt o c t₀).1
  | keep {s : Store} {o : IterOrder} {c : Command} {now : Nat} (tombstone : Tombstone a t₀ s)
    (live : ((s.prepare o c now).cancellations a).contains a.identity) :
    Tombstone a t₀ (s.applyAt o c now).1

theorem applyAt_cancellations (s : Store) (o : IterOrder) (c : Command) (now : Nat) (a : Attempt) :
    ((s.applyAt o c now).1.cancellations a = (s.prepare o c now).cancellations a) ∨
    (∃ a' tenant, c.cancelledAttempt = some a' ∧
      (s.applyAt o c now).1.cancellations a =
      (((s.prepare o c now).cancellations a).remember a'.identity tenant now).1) :=
  applyCommand_cancellations

theorem applyAt_keeps_entry {i : String} {entry : CancellationEntry}
    (h : ((s.prepare o c now).cancellations a).entries[i]? = some entry) :
    ((s.applyAt o c now).1.cancellations a).entries[i]? = some entry := by
  rcases s.applyAt_cancellations o c now a with e | ⟨_, _, _, e⟩
  case inl => rwa [e]
  case inr =>
    rw [e]
    exact CancellationLedger.remember_keeps h

theorem Tombstone.entry (t : Tombstone a t₀ s) :
    ∃ tenant, (s.cancellations a).entries[a.identity]? =
      some ⟨U64.saturatingAdd t₀ cancellationTombstoneTtlMs, tenant⟩ := by
  induction t
  case create s o c _ _ _ absent present =>
    rcases s.applyAt_cancellations o c t₀ a with e | ⟨_, tenant, _, e⟩
    case inl => simp [e, absent] at present
    case inr =>
      rw [e] at present ⊢
      exact ⟨tenant, (CancellationLedger.remember_new absent present).2⟩
  case keep live ih =>
    have ⟨tenant, h⟩ := ih
    have ⟨entry, h'⟩ := CancellationLedger.contains_iff.mp live
    have e := Option.some.inj ((prepare_cancellations.sub h').symm.trans h)
    subst e
    exact ⟨tenant, applyAt_keeps_entry h'⟩

theorem Reachable.tombstone (r : Reachable s) (h : (s.cancellations a).contains a.identity) :
    ∃ t₀, Tombstone a t₀ s := by
  induction r
  case empty => cases a <;> simp [Store.empty, cancellations, CancellationLedger.contains,
    CancellationLedger.empty] at h
  case apply s o c now r ih =>
    by_cases live : ((s.prepare o c now).cancellations a).contains a.identity
    case pos =>
      have ⟨entry, h'⟩ := CancellationLedger.contains_iff.mp live
      have ⟨t₀, t⟩ := ih (CancellationLedger.contains_iff.mpr ⟨entry, prepare_cancellations.sub h'⟩)
      exact ⟨t₀, .keep t live⟩
    case neg =>
      have absent := Bool.eq_false_iff.mpr live
      rcases s.applyAt_cancellations o c now a with e | ⟨a', tenant, cancel, e⟩
      case inl => simp [e, absent] at h
      case inr =>
        have same := (CancellationLedger.remember_new absent (e ▸ h)).1
        exact ⟨now, .create r cancel same.symm absent h⟩

-- The attempt is absent and its tombstone, due at `deadline`, keeps it away.
structure Barred (a : Attempt) (deadline : Nat) (s : Store) : Prop where
  absent    : s.Absent a
  tombstone : ∃ tenant, (s.cancellations a).entries[a.identity]? = some ⟨deadline, tenant⟩

theorem Barred.prepare (b : Barred a deadline s) (h : now < deadline) :
    Barred a deadline (s.prepare o c now) where
  absent    := b.absent.prepare
  tombstone :=
    have ⟨tenant, mem⟩ := b.tombstone
    ⟨tenant, prepare_cancellations.kept mem h⟩

theorem Barred.applyAt (b : Barred a deadline s) (h : now < deadline) :
    Barred a deadline (s.applyAt o c now).1 := by
  have ⟨absent, tenant, mem⟩ := b.prepare (o := o) (c := c) h
  constructor
  case absent =>
    exact absent.applyCommand (CancellationLedger.contains_iff.mpr ⟨_, mem⟩)
      (applyCommand_steps prepare_queueLive prepare_queuesLive)
  case tombstone => exact ⟨tenant, applyAt_keeps_entry mem⟩

theorem Barred.runs (b : Barred a deadline s) {s' : Store}
    (r : Runs (fun _ _ _ now => now < deadline) s s') : Barred a deadline s' := by
  induction r
  case refl => exact b
  case apply h _ ih => exact ih.applyAt h

-- The answer of a cancellation says that the attempt is gone, and it leaves a tombstone.
theorem Reachable.applyAt_cancelled (r : Reachable s) (cancel : c.cancelledAttempt = some a)
    (answer : (s.applyAt o c now).2.output.field "cancelled" = some (.bool true)) :
    (s.applyAt o c now).1.Absent a ∧
    ((s.applyAt o c now).1.cancellations a).contains a.identity := by
  cases c <;> cases cancel
  case lockCancelAttempt keys holder requestId =>
    have e : Steps _ now s (s.prepare o (.lockCancelAttempt keys holder requestId) now) :=
      prepare_steps
    exact LockManager.applyLockCancel_absent (e.locks.wellFormed r.wellFormed)
      (prepare_queueLive rfl) answer
  case semaphoreCancelAttempt key holder requestId =>
    have e : Steps _ now s (s.prepare o (.semaphoreCancelAttempt key holder requestId) now) :=
      prepare_steps
    exact Semaphores.applySemaphoreCancel_absent (e.semaphores.indexed r.indexed)
      (prepare_queuesLive rfl) answer

-- Once an attempt is answered to be cancelled, it is neither granted nor queued before a command
-- comes that is as late as the expiry of its tombstone, not even during the sweep of a command.
theorem Reachable.cancellation_final (r : Reachable s) (cancel : c.cancelledAttempt = some a)
    (answer : (s.applyAt o c now).2.output.field "cancelled" = some (.bool true)) :
    (∃ t₀, Tombstone a t₀ (s.applyAt o c now).1) ∧
    (∀ t₀, Tombstone a t₀ (s.applyAt o c now).1 → t₀ + cancellationTombstoneTtlMs ≤ U64.max →
      ∀ s', Runs (fun _ _ _ now => now < t₀ + cancellationTombstoneTtlMs) (s.applyAt o c now).1 s' →
        (¬s'.Granted a ∧ ¬s'.Waiting a) ∧
        (∀ o c now, now < t₀ + cancellationTombstoneTtlMs →
          ¬(s'.prepare o c now).Granted a ∧ ¬(s'.prepare o c now).Waiting a)) := by
  have ⟨absent, contains⟩ := r.applyAt_cancelled cancel answer
  refine ⟨(Reachable.apply o c now r).tombstone contains, fun t₀ t le s' runs => ?_⟩
  have deadline : U64.saturatingAdd t₀ cancellationTombstoneTtlMs = t₀ + cancellationTombstoneTtlMs :=
    Nat.min_eq_left le
  have b : Barred a (t₀ + cancellationTombstoneTtlMs) (s.applyAt o c now).1 :=
    ⟨absent, deadline ▸ t.entry⟩
  have b := b.runs runs
  exact ⟨b.absent, fun o c now h => (b.prepare h).absent⟩

omit [External] in
-- The acquire comes after the cancellation of its attempt, and the keys are free.
theorem cancellation_final_late_acquire :
    letI := External.fixed
    let s₁ := (Store.empty.applyAt .sorted (.lockCancelAttempt ["a"] "h" "r") 0).1
    let s₂ := (s₁.applyAt .sorted (.lockAcquireAttempt ["a"] "h" "r" 10 true none) 5).1
    ¬s₂.Granted (.lock "h" ["a"] "r") ∧ ¬s₂.Waiting (.lock "h" ["a"] "r") := by
  let := External.fixed
  intro s₁ s₂
  have cancel : (Command.lockCancelAttempt ["a"] "h" "r").cancelledAttempt =
      some (.lock "h" ["a"] "r") := by decide +kernel
  have answer : (Store.empty.applyAt .sorted (.lockCancelAttempt ["a"] "h" "r") 0).2.output.field
      "cancelled" = some (.bool true) := rfl
  have ⟨_, final⟩ := Reachable.empty.cancellation_final cancel answer
  have tombstone : Tombstone (.lock "h" ["a"] "r") 0 s₁ :=
    .create .empty cancel rfl (by decide +kernel) (by decide +kernel)
  exact (final 0 tombstone (by decide) s₂ (.apply (by decide) .refl)).1

end Store
