import FiduciaNode.Http.Theorems.Unscope
import FiduciaNode.State.Theorems.LockRestore
import FiduciaNode.State.Theorems.WakeUps

namespace LockManager

open OrgScope

variable [External] {m : LockManager} {t₁ t₂ : Table} {f f₁ f₂ : FencingCounter} {c : Command} {now : Nat}
variable {org org' : OrgScope} {holder : String} {keys : List String} {input : LockAcquireInput}

-- The holder and the keys of a request are those of the organization that has made it.
structure OwnedBy (org : OrgScope) (holder : String) (keys : List String) : Prop where
  holder : ∃ name, holder = org.scope name
  keys   : ∀ key ∈ keys, ∃ name, key = org.scope name

structure Owned (m : LockManager) : Prop where
  grants : HashMap.Each (fun grant => ∃ org, OwnedBy org grant.holder grant.keys) m.grants
  queue  : ∀ e ∈ m.queue.entries, ∃ org, OwnedBy org e.2.holder e.2.keys

namespace OwnedBy

theorem canonical (h : OwnedBy org holder keys) : OwnedBy org holder (canonicalKeys keys) :=
  { h with keys := fun key mem => h.keys key (mem_canonicalKeys mem).1 }

theorem filter (h : OwnedBy org holder keys) (p : String → Bool) : OwnedBy org holder (keys.filter p) :=
  { h with keys := fun key mem => h.keys key (List.mem_of_mem_filter mem) }

theorem unique (soh : External.orgScopeDelim = '\u0001') {keys' : List String} (h : OwnedBy org holder keys)
    (h' : OwnedBy org' holder keys') : org = org' := by
  have ⟨name, eq⟩ := h.holder
  have ⟨name', eq'⟩ := h'.holder
  exact ((scope_inj soh).mp (eq.symm.trans eq')).1

theorem of_key (soh : External.orgScopeDelim = '\u0001') {key : String} (h : OwnedBy org' holder keys)
    (mem : org.scope key ∈ keys) : OwnedBy org holder keys := by
  have ⟨name, eq⟩ := h.keys _ mem
  obtain ⟨rfl, _⟩ := (scope_inj soh).mp eq
  exact h

theorem scoped_holder (h : OwnedBy org holder keys) : org.Scoped true (toValue holder) := by
  obtain ⟨name, rfl⟩ := h.holder
  exact scoped_scope

theorem scoped_keys (h : OwnedBy org holder keys) : org.Scoped true (toValue keys) := by
  rw [scoped_list]
  intro key mem
  obtain ⟨name, rfl⟩ := h.keys key mem
  exact scoped_scope

end OwnedBy

namespace Owned

theorem empty : Owned .empty where
  grants := .empty
  queue  := by simp [LockManager.empty, IndexedQueue.empty]

theorem dequeue (h : m.Owned) {queue : IndexedQueue LockId QueuedLock}
    (sub : queue.entries ⊆ m.queue.entries) : Owned { m with queue } :=
  { h with queue := fun e mem => h.queue e (sub mem) }

theorem give (h : m.Owned) {grant : LockGrant} (owned : ∃ org, OwnedBy org grant.holder grant.keys) :
    (m.give grant now waiter ahead).Owned where
  grants := h.grants.insert owned
  queue  := h.queue

theorem release (h : m.Owned) (token : Nat) : (m.releaseGrant token).Owned where
  grants := by
    simp only [releaseGrant]
    split
    case h_1 => exact h.grants
    case h_2 => exact h.grants.erase
  queue  := by simpa using h.queue

theorem enqueue (h : m.Owned) (owned : ∃ org, OwnedBy org input.holder keys) :
    (m.enqueue now input keys).Owned := by
  simp only [LockManager.enqueue]
  split
  case isFalse => exact h
  case isTrue =>
    refine { h with queue := fun e mem => ?_ }
    rcases IndexedQueue.mem_pushBack mem with mem | rfl
    case inl => exact h.queue e mem
    case inr => exact owned

theorem promote (h : m.Owned) {i : LockId} {waiter : QueuedLock} (mem : m.queue.get i = some waiter)
    (token : Nat) : (m.promote i waiter token now).Owned :=
  give (h.dequeue fun _ mem => (IndexedQueue.mem_remove.mp mem).left)
    (h.queue _ (IndexedQueue.get_eq_some_iff.mp mem))

end Owned

-- The request of a command, if it has one, is made by an organization.
def RequestOwned (c : Command) : Prop :=
  ∀ input, c.lockRequest = some input → ∃ org, OwnedBy org input.holder input.keys

theorem Step.owned (e : Step c now t₁ t₂) (request : RequestOwned c) (h : t₁.1.Owned) : t₂.1.Owned := by
  have canonical (input : LockAcquireInput) (eq : c.lockRequest = some input) :
      ∃ org, OwnedBy org input.holder (canonicalKeys input.keys) := by
    have ⟨org, owned⟩ := request input eq
    exact ⟨org, owned.canonical⟩
  cases e with
  | mint => exact h
  | renew mem =>
    have owned := h.grants _ _ mem
    exact { h with grants := h.grants.insert owned }
  | release token => exact h.release token
  | expire => exact h.dequeue fun _ mem => (IndexedQueue.mem_retain.mp mem).left
  | cancel => exact h.dequeue fun _ mem => (IndexedQueue.mem_remove.mp mem).left
  | enqueue request => exact h.enqueue (canonical _ request)
  | grant request => exact h.give (canonical _ request)
  | promote _ mem => exact h.promote mem _

theorem Steps.owned (e : Steps c now t₁ t₂) (request : RequestOwned c) (h : t₁.1.Owned) : t₂.1.Owned := by
  induction e
  case refl => exact h
  case tail e ih => exact e.owned request ih

section Promotion

-- The requests of the other organizations.
def foreign (org : OrgScope) (m : LockManager) : List (LockId × QueuedLock) :=
  m.queue.iter.filter fun e => (org.unscope e.2.holder).isNone

-- Not even the requests of the others alone could be granted.
def Stuck (org : OrgScope) (m : LockManager) : Prop :=
  firstGrantable m.held [] (m.foreign org) = none

theorem OwnedBy.isNone_unscope (soh : External.orgScopeDelim = '\u0001') (h : OwnedBy org' holder keys) :
    (org.unscope holder).isNone ↔ org' ≠ org := by
  obtain ⟨name, rfl⟩ := h.holder
  rw [Option.isNone_iff_eq_none, Option.eq_none_iff_forall_ne_some]
  constructor
  case mp =>
    rintro none rfl
    exact none name ((unscope_scope soh).mpr ⟨rfl, rfl⟩)
  case mpr =>
    intro ne name' eq
    exact ne ((unscope_scope soh).mp eq).1

theorem mem_foreign {e : LockId × QueuedLock} :
    e ∈ m.foreign org ↔ e ∈ m.queue.entries ∧ (org.unscope e.2.holder).isNone :=
  List.mem_filter

-- The keys of the others are not those of the organization.
theorem Owned.foreign_key (soh : External.orgScopeDelim = '\u0001') (h : m.Owned) {e : LockId × QueuedLock}
    (mem : e ∈ m.foreign org) {key : String} (hk : key ∈ e.2.keys) :
    ∃ org' name, org' ≠ org ∧ key = org'.scope name := by
  have ⟨mem, other⟩ := mem_foreign.mp mem
  have ⟨org', owned⟩ := h.queue e mem
  have ⟨name, eq⟩ := owned.keys key hk
  exact ⟨org', name, (owned.isNone_unscope soh).mp other, eq⟩

-- A request and the one that it waits for have a key in common, so they are of one organization.
theorem Owned.stuck (soh : External.orgScopeDelim = '\u0001') (h : m.Owned)
    (none : m.lockFirstGrantable = none) : m.Stuck org := by
  rw [lockFirstGrantable, firstGrantable_eq_none_iff] at none
  rw [Stuck, firstGrantable_eq_none_iff]
  intro before id waiter after split
  obtain ⟨start, rest, hq, hb, hr⟩ := List.filter_eq_append_iff.mp split
  obtain ⟨skipped, rest, rfl, own, _, _⟩ := List.filter_eq_cons_iff.mp hr
  obtain ⟨key, hk, blocked⟩ := none (start ++ skipped) id waiter rest (by simp [hq])
  refine ⟨key, hk, blocked.imp_right fun blocked => .inr ?_⟩
  obtain ⟨e, he, hk'⟩ : ∃ e ∈ start ++ skipped, key ∈ e.2.keys := by simpa using blocked
  have foreign : (id, waiter) ∈ m.foreign org := by simp [split]
  obtain ⟨org₁, name, ne, rfl⟩ := h.foreign_key soh foreign hk
  have queued : e ∈ m.queue.iter := by
    rw [hq, ← List.append_assoc]
    exact List.mem_append_left _ he
  obtain ⟨_, owned⟩ := h.queue e queued
  have other : (org.unscope e.2.holder).isNone := ((owned.of_key soh hk').isNone_unscope soh).mpr ne
  rcases List.mem_append.mp he with he | he
  case inl => exact ⟨e, hb ▸ List.mem_filter.mpr ⟨he, other⟩, hk'⟩
  case inr => exact absurd other (own e he)

-- What the organization does to its own requests and keys does not help the others.
theorem Stuck.of_foreign {m' : LockManager} (h : m.Stuck org) (queue : m'.foreign org = m.foreign org)
    (held : ∀ e ∈ m.foreign org, ∀ key ∈ e.2.keys, m.held.contains key → m'.held.contains key) :
    m'.Stuck org := by
  rw [Stuck, firstGrantable_eq_none_iff] at h ⊢
  rw [queue]
  intro before id waiter after split
  have ⟨key, hk, blocked⟩ := h before id waiter after split
  have mem : (id, waiter) ∈ m.foreign org := by simp [split]
  exact ⟨key, hk, blocked.imp_left (held _ mem key hk)⟩

theorem foreign_remove {i : LockId} (own : ∀ e ∈ m.queue.entries, e.1 = i → ∃ keys, OwnedBy org e.2.holder keys)
    (soh : External.orgScopeDelim = '\u0001') :
    foreign org { m with queue := m.queue.remove i } = m.foreign org := by
  simp only [foreign, IndexedQueue.iter, IndexedQueue.remove, IndexedQueue.retain, List.filter_filter]
  refine List.filter_congr fun e mem => ?_
  by_cases same : e.1 = i
  case neg => simp [same]
  case pos =>
    obtain ⟨_, owned⟩ := own e mem same
    have not : (org.unscope e.2.holder).isNone = false :=
      Bool.eq_false_iff.mpr fun other => (owned.isNone_unscope soh).mp other rfl
    simp [not]

theorem Stuck.release (soh : External.orgScopeDelim = '\u0001') (h : m.Stuck org) (owned : m.Owned) {token : Nat}
    {grant : LockGrant} (mem : m.grants[token]? = some grant) (own : OwnedBy org grant.holder grant.keys) :
    (m.releaseGrant token).Stuck org := by
  refine h.of_foreign (by simp [foreign]) fun e he key hk held => ?_
  obtain ⟨org', name, ne, rfl⟩ := owned.foreign_key soh he hk
  have notMem : org'.scope name ∉ grant.keys := fun hg => ne ((own.of_key soh hg).unique soh own)
  rw [Std.ExtTreeMap.contains_eq_isSome_getElem?] at held ⊢
  rwa [held_releaseGrant mem, if_neg fun h => notMem h.1]

theorem Stuck.promote (soh : External.orgScopeDelim = '\u0001') (h : m.Stuck org) {i : LockId} {waiter : QueuedLock}
    (mem : m.queue.get i = some waiter) (own : OwnedBy org waiter.holder waiter.keys) (token : Nat) :
    (m.promote i waiter token now).Stuck org := by
  refine h.of_foreign (foreign_remove (fun e he same => ?_) soh) fun e he key hk held => ?_
  case refine_1 =>
    obtain ⟨_, w⟩ := e
    subst same
    cases (IndexedQueue.get_eq_some_iff.mpr he).symm.trans mem
    exact ⟨_, own⟩
  case refine_2 =>
    simp only [Std.ExtTreeMap.contains_eq_isSome_getElem?, LockManager.promote, LockManager.give, held_installGrant]
      at held ⊢
    split
    case isTrue => rfl
    case isFalse => exact held

-- The first request that can be granted is none of the others.
theorem Stuck.first (soh : External.orgScopeDelim = '\u0001') (h : m.Stuck org) (owned : m.Owned) {i : LockId}
    {waiter : QueuedLock} (first : m.lockFirstGrantable = some i) (mem : m.queue.get i = some waiter) :
    OwnedBy org waiter.holder waiter.keys := by
  have ⟨before, after, hq, free, disjoint⟩ := lockFirstGrantable_eq_some first mem
  have ⟨org', own⟩ := owned.queue _ (IndexedQueue.get_eq_some_iff.mp mem)
  by_contra other
  have ne : org' ≠ org := fun same => other (same ▸ own)
  have foreign : m.foreign org = (before.filter fun e => (org.unscope e.2.holder).isNone) ++ (i, waiter) ::
      after.filter fun e => (org.unscope e.2.holder).isNone := by
    have none : (org.unscope waiter.holder).isNone := (own.isNone_unscope soh).mpr ne
    simp [LockManager.foreign, IndexedQueue.iter, hq, none]
  obtain ⟨key, hk, blocked⟩ := firstGrantable_eq_none_iff.mp h _ _ _ _ foreign
  rcases blocked with held | reserved | ⟨e, he, hk'⟩
  case inl => simp [Std.ExtTreeMap.contains_eq_isSome_getElem?, free key hk] at held
  case inr.inl => simp at reserved
  case inr.inr => exact disjoint e (List.mem_filter.mp he).1 hk hk'

theorem OwnedBy.scoped_promotion {waiter : QueuedLock} (own : OwnedBy org waiter.holder waiter.keys) {token : Nat} :
    org.Scoped false (promotion waiter token now) := by
  simp [promotion, -scoped_list, own.scoped_holder, own.scoped_keys]

-- By induction on the iterations: only requests of the organization are promoted.
theorem promoteLoop_scoped (soh : External.orgScopeDelim = '\u0001') {fuel : Nat} (h : m.Stuck org) (owned : m.Owned) :
    ∀ promoted ∈ (m.promoteLoop f now fuel).2.2, org.Scoped false promoted := by
  induction fuel generalizing m f
  case zero => simp [promoteLoop]
  case succ ih =>
    simp only [promoteLoop]
    split
    case h_1 => simp
    case h_2 i first =>
      split
      case h_2 => simp
      case h_1 token _ waiter _ mem =>
        have own := h.first soh owned first mem
        rw [List.forall_mem_cons]
        exact ⟨own.scoped_promotion, ih (h.promote soh mem own token) (owned.promote mem token)⟩

omit [External] in
theorem promoteLoop_exhausted {fuel : Nat} (h : f.Exhausted) : (m.promoteLoop f now fuel).2.2 = [] := by
  cases fuel
  case zero => rfl
  case succ =>
    simp only [promoteLoop, FencingCounter.nextToken_eq_none_iff.mpr h]
    split <;> rfl

theorem lockPromote_scoped (soh : External.orgScopeDelim = '\u0001') (owned : m.Owned)
    (h : f.Exhausted ∨ m.Stuck org) : ∀ promoted ∈ (m.lockPromote f now).2.2, org.Scoped false promoted := by
  rw [lockPromote]
  cases h
  case inl exhausted => simp [promoteLoop_exhausted exhausted]
  case inr stuck => exact promoteLoop_scoped soh stuck owned

end Promotion

section Answers

variable {revision : Nat} {token ttlMs : Nat}

theorem OwnedBy.scoped_acquired {grant : LockGrant} (own : OwnedBy org grant.holder grant.keys)
    {renewed : Option Bool} : org.Scoped false (acquired grant renewed token revision) := by
  cases renewed <;>
    simp [acquired, -scoped_list, own.scoped_holder, own.scoped_keys]

theorem OwnedBy.scoped_queued (own : OwnedBy org input.holder keys) {used : Bool} :
    org.Scoped false (m.queued revision input keys used) := by
  cases legacy : input.legacySemantics <;>
    simp [queued, legacy, -scoped_list, own.scoped_holder, own.scoped_keys,
      (own.filter _).scoped_keys]

theorem scoped_acquire {ledger : CancellationLedger} (own : OwnedBy org input.holder input.keys) :
    org.Scoped false (m.applyLockAcquire ledger f revision now input).2.2 := by
  have own := own.canonical
  simp only [applyLockAcquire]
  split
  case isTrue => simp
  case isFalse =>
    split
    case isTrue =>
      simp [-scoped_list, own.scoped_holder, own.scoped_keys]
    case isFalse =>
      split
      case h_1 token grant found =>
        obtain ⟨_, _, _, _, holder, keys, _⟩ := reacquired?_eq_some_iff.mp found
        rw [← holder, ← keys] at own
        refine OwnedBy.scoped_acquired ?_
        split <;> exact own
      case h_2 =>
        split
        case isTrue => exact own.scoped_queued
        case isFalse =>
          split
          case h_1 => simp [-scoped_list, own.scoped_holder, own.scoped_keys]
          case h_2 => exact OwnedBy.scoped_acquired own

theorem scoped_renew (own : OwnedBy org holder keys) :
    org.Scoped false (m.applyLockRenew revision now keys holder token ttlMs).2 := by
  have own := own.canonical
  simp only [applyLockRenew]
  split
  case h_1 => simp
  case h_2 =>
    split
    case isTrue => simp
    case isFalse =>
      split
      case isTrue => simp
      case isFalse => simp [-scoped_list, own.scoped_holder, own.scoped_keys]

theorem scoped_release (soh : External.orgScopeDelim = '\u0001') (owned : m.Owned) (settled : Settled (m, f))
    {name : String} :
    org.Scoped false (m.applyLockRelease f revision now (org.scope name) token).2.2 := by
  simp only [applyLockRelease]
  split
  case h_1 => simp
  case h_2 grant mem =>
    split
    case isTrue => simp
    case isFalse holder =>
      have own : OwnedBy org grant.holder grant.keys := by
        obtain ⟨org', own'⟩ := owned.grants _ _ mem
        have own : OwnedBy org grant.holder [] := ⟨⟨name, not_not.mp holder⟩, by simp⟩
        exact own.unique soh own' ▸ own'
      have stuck : f.Exhausted ∨ (m.releaseGrant token).Stuck org :=
        settled.imp_right fun none => (owned.stuck soh none).release soh owned mem own
      have promoted : org.Scoped false (toValue ((m.releaseGrant token).lockPromote f now).2.2) :=
        scoped_list.mpr (lockPromote_scoped soh (owned.release token) stuck)
      simp [-scoped_list, own.scoped_keys, promoted]

theorem OwnedBy.scoped_raced (own : OwnedBy org holder keys) {grant : LockGrant} :
    org.Scoped false (raced grant keys holder revision) := by
  simp [raced, -scoped_list, own.scoped_holder, own.scoped_keys]

theorem scoped_cancelQueued (soh : External.orgScopeDelim = '\u0001') (owned : m.Owned) (w : WellFormed (m, f))
    (settled : Settled (m, f)) (own : OwnedBy org holder keys) {o : IterOrder} {requestId : Option String} :
    org.Scoped false (m.cancelQueued o f revision now keys holder requestId).2.2 := by
  simp only [cancelQueued]
  split
  case isTrue =>
    have owned' : Owned { m with queue := m.queue.remove (holder, keys) } :=
      owned.dequeue fun _ mem => (IndexedQueue.mem_remove.mp mem).left
    have queue : foreign org { m with queue := m.queue.remove (holder, keys) } = m.foreign org := by
      refine foreign_remove (fun e mem same => ?_) soh
      cases (w.queue_id e mem).symm.trans same
      exact ⟨_, own⟩
    have stuck : f.Exhausted ∨ Stuck org { m with queue := m.queue.remove (holder, keys) } :=
      settled.imp_right fun none => (owned.stuck soh none).of_foreign queue fun _ _ _ _ => id
    have promoted : org.Scoped false
        (toValue (lockPromote { m with queue := m.queue.remove (holder, keys) } f now).2.2) :=
      scoped_list.mpr (lockPromote_scoped soh owned' stuck)
    simp [-scoped_list, own.scoped_holder, own.scoped_keys, promoted]
  case isFalse =>
    split
    case h_1 => exact own.scoped_raced
    case h_2 =>
      split <;> simp [-scoped_list, own.scoped_holder, own.scoped_keys]

theorem scoped_cancel (soh : External.orgScopeDelim = '\u0001') (owned : m.Owned) (w : WellFormed (m, f))
    (settled : Settled (m, f)) (own : OwnedBy org holder keys) {o : IterOrder} (ledger : CancellationLedger)
    (requestId : Option String) :
    org.Scoped false (m.applyLockCancel o ledger f revision now keys holder requestId).2.2.2 := by
  have own := own.canonical
  simp only [applyLockCancel]
  split
  case h_1 => exact scoped_cancelQueued soh owned w settled own
  case h_2 =>
    split
    case h_1 => exact own.scoped_raced
    case h_2 =>
      split
      case h_1 => simp [-scoped_list, own.scoped_holder, own.scoped_keys]
      case h_2 => exact scoped_cancelQueued soh owned w settled own

-- The grant on a key is of the organization whose key it is.
theorem OwnedBy.of_held (soh : External.orgScopeDelim = '\u0001') (owned : m.Owned) (w : WellFormed (m, f))
    {key : String} {grant : LockGrant}
    (found : (m.held[org.scope key]?.bind fun token => m.grants[token]?) = some grant) :
    OwnedBy org grant.holder grant.keys := by
  have ⟨token, held, mem⟩ := Option.bind_eq_some_iff.mp found
  have ⟨_, mem', hk⟩ := (w.held_iff _ _).mp held
  cases mem'.symm.trans mem
  have ⟨_, own⟩ := owned.grants _ _ mem
  exact own.of_key soh hk

theorem scoped_snapshot (soh : External.orgScopeDelim = '\u0001') (owned : m.Owned) (w : WellFormed (m, f))
    {key : String} : org.Scoped false (toValue (m.lockSnapshotLiveAt (org.scope key) now)) := by
  have waiter (q : LockWaiter) (own : OwnedBy org q.holder q.keys) : org.Scoped false (toValue q) :=
    scoped_json.mpr (by simp [-scoped_list, own.scoped_holder, own.scoped_keys])
  have waiters : org.Scoped false (toValue (m.lockSnapshotLiveAt (org.scope key) now).waitQueue) := by
    simp only [lockSnapshotLiveAt, scoped_list, List.forall_mem_map]
    intro e mem
    simp only [List.mem_filter, Bool.and_eq_true, List.contains_eq_mem, decide_eq_true_eq] at mem
    obtain ⟨_, own⟩ := owned.queue e mem.1
    exact waiter _ (own.of_key soh mem.2.2)
  obtain ⟨holder, heldKeys⟩ :
      org.Scoped true (toValue (m.lockSnapshotLiveAt (org.scope key) now).holder) ∧
      org.Scoped true (toValue (m.lockSnapshotLiveAt (org.scope key) now).heldKeys) := by
    simp only [lockSnapshotLiveAt]
    cases grant : (m.held[org.scope key]?.bind fun token => m.grants[token]?).filter (·.leaseExpiresMs > now)
    case none => simp
    case some grant =>
      have own := OwnedBy.of_held soh owned w (Option.filter_eq_some_iff.mp ‹_›).1
      exact ⟨own.scoped_holder, own.scoped_keys⟩
  have named : org.Scoped true (toValue (m.lockSnapshotLiveAt (org.scope key) now).key) := scoped_scope
  have number (n : Option Nat) : org.Scoped false (toValue n) := scoped_option.mpr fun _ _ => scoped_nat
  refine scoped_json.mpr ?_
  simp [-scoped_list, -scoped_option, waiters, holder, heldKeys, named, number]

end Answers

end LockManager
