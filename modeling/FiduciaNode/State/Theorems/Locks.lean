import FiduciaNode.State.Theorems.Steps

def Canonical (keys : List String) : Prop :=
  keys ≠ [] ∧ keys.Pairwise (· < ·)

theorem canonicalKeys_pairwise (keys : List String) : (canonicalKeys keys).Pairwise (· < ·) := by
  have le : (canonicalKeys keys).IsChain (· ≤ ·) :=
    (List.pairwise_insertionSort (· ≤ ·) _).sublist (List.destutter_sublist _ _) |>.isChain
  have ne : (canonicalKeys keys).IsChain (· ≠ ·) := List.isChain_destutter _ _
  rw [List.isChain_iff_getElem] at le ne
  have lt : (canonicalKeys keys).IsChain (· < ·) :=
    List.isChain_iff_getElem.mpr fun i h => lt_of_le_of_ne (le i h) (ne i h)
  exact lt.pairwise

theorem canonicalKeys_canonical (h : canonicalKeys keys ≠ []) : Canonical (canonicalKeys keys) :=
  ⟨h, canonicalKeys_pairwise keys⟩

namespace LockManager

variable {m : LockManager} {f f₁ f₂ : FencingCounter} {t t₁ t₂ : Table} {c : Command} {now : Nat}

section Operations

theorem held_installGrant (grant : LockGrant) (key : String) :
    (m.installGrant grant).held[key]? =
    if key ∈ grant.keys then some grant.fencingToken else m.held[key]? := by
  simp only [installGrant]
  generalize m.held = held
  induction grant.keys generalizing held
  case nil => simp
  case cons k keys ih =>
    rw [List.foldl_cons, ih, HashMap.get_insert]
    grind

theorem held_releaseGrant {token : Nat} {grant : LockGrant} (mem : m.grants[token]? = some grant)
    (key : String) :
    (m.releaseGrant token).held[key]? =
    if key ∈ grant.keys ∧ m.held[key]? = some token then none else m.held[key]? := by
  simp only [releaseGrant, mem]
  generalize m.held = held
  induction grant.keys generalizing held
  case nil => simp
  case cons k keys ih =>
    rw [List.foldl_cons, ih]
    split <;> grind [HashMap.get_erase]

theorem grants_releaseGrant {token token' : Nat} :
    (m.releaseGrant token).grants[token']? = if token = token' then none else m.grants[token']? := by
  simp only [releaseGrant]
  split
  case h_1 h => grind
  case h_2 => exact HashMap.get_erase _ _ _

theorem firstGrantable_eq_some {held : HashMap String Nat} {reserved : List String}
    {l : List (LockId × QueuedLock)} {i : LockId} (h : firstGrantable held reserved l = some i) :
    ∃ before waiter after, l = before ++ (i, waiter) :: after ∧
      (∀ key ∈ waiter.keys, held[key]? = none ∧ key ∉ reserved) ∧
      (∀ e ∈ before, waiter.keys.Disjoint e.2.keys) := by
  induction l generalizing reserved
  case nil => contradiction
  case cons e l ih =>
    obtain ⟨i', q⟩ := e
    simp only [firstGrantable] at h
    split at h
    case isTrue =>
      have ⟨before, waiter, after, hl, free, disjoint⟩ := ih h
      refine ⟨(i', q) :: before, waiter, after, by simp [hl], ?_, ?_⟩
      case refine_1 =>
        intro key hk
        have ⟨hf, hr⟩ := free key hk
        exact ⟨hf, fun h => hr (List.mem_append_left _ h)⟩
      case refine_2 =>
        intro e he
        cases List.mem_cons.mp he
        case inl h =>
          subst h
          exact fun key hk hq => (free key hk).2 (List.mem_append_right _ hq)
        case inr h => exact disjoint e h
    case isFalse free =>
      cases h
      refine ⟨[], q, l, rfl, ?_, by simp⟩
      simpa [HashMap.contains_eq_false_iff] using free

-- The waiter under the key of the first grantable request is the one that the scan found.
theorem lockFirstGrantable_eq_some {i : LockId} {waiter : QueuedLock}
    (first : m.lockFirstGrantable = some i) (mem : m.queue.get i = some waiter) :
    ∃ before after, m.queue.entries = before ++ (i, waiter) :: after ∧
      (∀ key ∈ waiter.keys, m.held[key]? = none) ∧
      (∀ e ∈ before, waiter.keys.Disjoint e.2.keys) := by
  have ⟨before, waiter', after, hl, free, disjoint⟩ := firstGrantable_eq_some first
  have mem' : m.queue.get i = some waiter' := by
    rw [IndexedQueue.get_eq_some_iff]
    have : (i, waiter') ∈ m.queue.iter := hl ▸ List.mem_append_right _ List.mem_cons_self
    exact this
  cases mem'.symm.trans mem
  exact ⟨before, after, hl, fun key h => (free key h).1, disjoint⟩

theorem blocked_eq_false_iff {keys : List String} :
    (m.blocked keys = false) ↔
    (∀ key ∈ keys, m.held[key]? = none) ∧ (∀ e ∈ m.queue.entries, keys.Disjoint e.2.keys) := by
  simp only [blocked, Bool.or_eq_false_iff, List.any_eq_false, Bool.not_eq_true,
    HashMap.contains_eq_false_iff, IndexedQueue.values, List.contains_eq_mem, List.mem_map,
    decide_eq_false_iff_not]
  refine and_congr_right fun _ => ⟨?_, ?_⟩
  case refine_1 => exact fun h e he key k₁ k₂ => h key k₁ e.2 ⟨e, he, rfl⟩ k₂
  case refine_2 => exact fun h key k₁ q ⟨e, he, hq⟩ k₂ => h e he k₁ (hq ▸ k₂)

end Operations

-- The tables of a lock manager describe the same grants, and the queue holds none of them.
structure WellFormed (t : Table) : Prop where
  held_iff    : ∀ (key : String) (token : Nat), t.1.held[key]? = some token ↔
                  ∃ grant, t.1.grants[token]? = some grant ∧ key ∈ grant.keys
  token_eq    : ∀ {token : Nat} {grant}, t.1.grants[token]? = some grant →
                  grant.fencingToken = token
  token_le    : ∀ {token : Nat} {grant}, t.1.grants[token]? = some grant →
                  token ≤ t.2.nextFencingToken
  grant_keys  : ∀ {token : Nat} {grant}, t.1.grants[token]? = some grant → Canonical grant.keys
  queue_id    : ∀ e ∈ t.1.queue.entries, e.1 = (e.2.holder, e.2.keys)
  queue_keys  : ∀ e ∈ t.1.queue.entries, Canonical e.2.keys
  not_granted : ∀ e ∈ t.1.queue.entries, ∀ {token : Nat} {grant},
                  t.1.grants[token]? = some grant →
                  ¬(grant.holder = e.2.holder ∧ grant.keys = e.2.keys ∧
                    grant.requestId = e.2.requestId)

namespace WellFormed

theorem empty : WellFormed (.empty, .zero) where
  held_iff    := by simp [LockManager.empty]
  token_eq    := by simp [LockManager.empty]
  token_le    := by simp [LockManager.empty]
  grant_keys  := by simp [LockManager.empty]
  queue_id    := by simp [LockManager.empty, IndexedQueue.empty]
  queue_keys  := by simp [LockManager.empty, IndexedQueue.empty]
  not_granted := by simp [LockManager.empty, IndexedQueue.empty]

theorem disjoint (w : WellFormed t) {token₁ token₂ : Nat} {grant₁ grant₂ : LockGrant}
    (h₁ : t.1.grants[token₁]? = some grant₁) (h₂ : t.1.grants[token₂]? = some grant₂)
    (ne : token₁ ≠ token₂) : grant₁.keys.Disjoint grant₂.keys := by
  intro key k₁ k₂
  have e₁ := (w.held_iff key token₁).mpr ⟨grant₁, h₁, k₁⟩
  have e₂ := (w.held_iff key token₂).mpr ⟨grant₂, h₂, k₂⟩
  exact ne (Option.some.inj (e₁.symm.trans e₂))

theorem mint (w : WellFormed (m, f₁)) (le : f₁.nextFencingToken ≤ f₂.nextFencingToken) :
    WellFormed (m, f₂) :=
  { w with token_le := fun h => (w.token_le h).trans le }

theorem dequeue (w : WellFormed (m, f)) {queue : IndexedQueue LockId QueuedLock}
    (sub : queue.entries ⊆ m.queue.entries) : WellFormed ({ m with queue }, f) :=
  { w with
    queue_id    := fun e h => w.queue_id e (sub h)
    queue_keys  := fun e h => w.queue_keys e (sub h)
    not_granted := fun e h => w.not_granted e (sub h)
  }

theorem renew (w : WellFormed (m, f)) {token : Nat} {grant : LockGrant}
    (mem : m.grants[token]? = some grant) :
    WellFormed
      ({ m with grants := m.grants.insert token { grant with leaseExpiresMs := lease } }, f) := by
  -- The new grant differs from the old one in its lease only.
  have old {token' : Nat} {grant'}
      (h : (m.grants.insert token { grant with leaseExpiresMs := lease })[token']? = some grant') :
      ∃ g, m.grants[token']? = some g ∧ grant'.holder = g.holder ∧ grant'.keys = g.keys ∧
        grant'.requestId = g.requestId ∧ grant'.fencingToken = g.fencingToken := by
    rw [HashMap.get_insert] at h
    split at h
    case isTrue e =>
      cases h
      exact ⟨grant, e ▸ mem, rfl, rfl, rfl, rfl⟩
    case isFalse => exact ⟨grant', h, rfl, rfl, rfl, rfl⟩
  constructor
  case held_iff =>
    intro key token'
    rw [w.held_iff key token']
    simp only [HashMap.get_insert]
    constructor <;> grind
  case token_eq =>
    intro _ _ h
    have ⟨_, hg, _, _, _, e⟩ := old h
    exact e.trans (w.token_eq hg)
  case token_le =>
    intro _ _ h
    have ⟨_, hg, _⟩ := old h
    exact w.token_le hg
  case grant_keys =>
    intro _ _ h
    have ⟨_, hg, _, e, _⟩ := old h
    exact e ▸ w.grant_keys hg
  case queue_id => exact w.queue_id
  case queue_keys => exact w.queue_keys
  case not_granted =>
    intro e he _ _ h
    have ⟨_, hg, e₁, e₂, e₃, _⟩ := old h
    exact e₁ ▸ e₂ ▸ e₃ ▸ w.not_granted e he hg

theorem release (w : WellFormed (m, f)) (token : Nat) : WellFormed (m.releaseGrant token, f) := by
  have old {token' : Nat} {grant'} (h : (m.releaseGrant token).grants[token']? = some grant') :
      token ≠ token' ∧ m.grants[token']? = some grant' := by
    rw [grants_releaseGrant] at h
    split at h
    case isTrue => contradiction
    case isFalse ne => exact ⟨ne, h⟩
  constructor
  case held_iff =>
    intro key token'
    cases mem : m.grants[token]?
    case none => simpa [releaseGrant, mem] using w.held_iff key token'
    case some grant =>
      have := w.held_iff key token'
      have := w.held_iff key token
      simp only [held_releaseGrant mem, grants_releaseGrant]
      grind
  case token_eq => exact fun h => w.token_eq (old h).2
  case token_le => exact fun h => w.token_le (old h).2
  case grant_keys => exact fun h => w.grant_keys (old h).2
  case queue_id => simpa using w.queue_id
  case queue_keys => simpa using w.queue_keys
  case not_granted =>
    intro e he _ _ h
    rw [releaseGrant_queue] at he
    exact w.not_granted e he (old h).2

-- A grant of free keys under a fresh token.
theorem give (w : WellFormed (m, f₁)) {grant : LockGrant}
    (next : f₁.nextToken = some (grant.fencingToken, f₂)) (keys : Canonical grant.keys)
    (free : ∀ key ∈ grant.keys, m.held[key]? = none)
    (queue : ∀ e ∈ m.queue.entries, ¬(grant.holder = e.2.holder ∧ grant.keys = e.2.keys ∧
      grant.requestId = e.2.requestId)) : WellFormed (m.give grant now waiter ahead, f₂) := by
  have ⟨ht, hm, hf⟩ := FencingCounter.nextToken_eq_some_iff.mp next
  have le : f₁.nextFencingToken ≤ f₂.nextFencingToken :=
    FencingCounter.Steps.le (.single (FencingCounter.nextToken_step next))
  have fresh {token : Nat} {g} (h : m.grants[token]? = some g) : grant.fencingToken ≠ token := by
    have := w.token_le h
    simp only at this
    omega
  have old {token : Nat} {g} (h : (m.give grant now waiter ahead).grants[token]? = some g) :
      (token = grant.fencingToken ∧ g = grant) ∨ m.grants[token]? = some g := by
    simp only [LockManager.give, installGrant, HashMap.get_insert] at h
    grind
  constructor
  case held_iff =>
    intro key token
    have := w.held_iff key token
    have held := held_installGrant
      (m := { m with granted := { grant, now, waiter, ahead } :: m.granted }) grant key
    simp only [LockManager.give, held]
    simp only [installGrant, HashMap.get_insert]
    grind
  case token_eq =>
    intro _ _ h
    cases old h
    case inl h => exact h.2 ▸ h.1.symm
    case inr h => exact w.token_eq h
  case token_le =>
    intro _ _ h
    cases old h
    case inl h => exact h.1 ▸ hf ▸ Nat.le_refl _
    case inr h => exact (w.token_le h).trans le
  case grant_keys =>
    intro _ _ h
    cases old h
    case inl h => exact h.2 ▸ keys
    case inr h => exact w.grant_keys h
  case queue_id => exact w.queue_id
  case queue_keys => exact w.queue_keys
  case not_granted =>
    intro e he _ _ h
    cases old h
    case inl h => exact h.2 ▸ queue e he
    case inr h => exact w.not_granted e he h

end WellFormed

end LockManager
