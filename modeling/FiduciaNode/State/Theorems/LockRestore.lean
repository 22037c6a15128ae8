import FiduciaNode.State.Theorems.Restore

section Keys

theorem canonicalKeys_eq_self {keys : List String} (sorted : keys.Pairwise (· < ·))
    (ne : ∀ key ∈ keys, key ≠ "") : canonicalKeys keys = keys := by
  have filter : keys.filter (· ≠ "") = keys := List.filter_eq_self.mpr (by simpa using ne)
  have le : keys.Pairwise (· ≤ ·) := sorted.imp le_of_lt
  have chain : keys.IsChain (· ≠ ·) := (sorted.imp ne_of_lt).isChain
  rw [canonicalKeys, filter, le.insertionSort_eq, List.destutter_of_isChain _ _ chain]

theorem mem_canonicalKeys {keys : List String} {key : String} (h : key ∈ canonicalKeys keys) :
    key ∈ keys ∧ key ≠ "" := by
  have h := (List.destutter_sublist _ _).subset h
  have h := (List.perm_insertionSort _ _).subset h
  simpa using h

theorem length_canonicalKeys_le (keys : List String) :
    (canonicalKeys keys).length ≤ keys.length := calc
  _ ≤ _ := (List.destutter_sublist _ _).length_le
  _ = _ := List.length_insertionSort _ _
  _ ≤ _ := List.length_filter_le _ _

theorem invalidKeySet_canonicalKeys {keys : List String} (ne : canonicalKeys keys ≠ [])
    (length : keys.length ≤ Validate.maxLockKeys)
    (size : ∀ key ∈ keys, key.utf8ByteSize ≤ Validate.maxKeyBytes) :
    invalidKeySet (canonicalKeys keys) = false := by
  have self : canonicalKeys (canonicalKeys keys) = canonicalKeys keys :=
    canonicalKeys_eq_self (canonicalKeys_pairwise keys) fun _ h => (mem_canonicalKeys h).2
  have le := (length_canonicalKeys_le keys).trans length
  have valid : (canonicalKeys keys).any invalidKey = false := by
    simp only [List.any_eq_false, invalidKey, Bool.or_eq_true, decide_eq_true_eq, not_or, not_lt]
    exact fun key h => ⟨(mem_canonicalKeys h).2, size key (mem_canonicalKeys h).1⟩
  simp [invalidKeySet, ne, le, self, valid]

end Keys

section Scope

variable [External]

omit [External] in
theorem validHolderComponent_of_checkHolder {value : String} (h : Validate.checkHolder value = .ok ()) :
    Validate.validHolderComponent value = true := by
  simp only [Validate.checkHolder, Validate.checkStr, Except.seq_eq_ok_iff,
    Except.ite_error_eq_ok_iff] at h
  simp_all [Validate.validHolderComponent]

theorem validStoredHolder_scope (soh : External.orgScopeDelim = '\u0001') (org : OrgScope)
    {holder : String} (h : Validate.checkHolder holder = .ok ()) :
    Validate.validStoredHolder (org.scope holder) = true := by
  simp only [Validate.validStoredHolder, OrgScope.toList_scope, ne_eq, not_true_eq_false, ↓reduceIte,
    Cron.splitOnce_append (OrgScope.delim_notMem soh), String.ofList_toList, org.valid, validHolderComponent_of_checkHolder h,
    Bool.and_self]

theorem scope_utf8ByteSize (soh : External.orgScopeDelim = '\u0001') (org : OrgScope) (key : String) :
    (org.scope key).utf8ByteSize = org.org.utf8ByteSize + key.utf8ByteSize + 2 := by
  have size (s : String) : String.utf8Len s.toList = s.utf8ByteSize := by
    rw [← String.utf8ByteSize_ofList, String.ofList_toList]
  have one : Char.utf8Size '\u0001' = 1 := by decide
  simp only [OrgScope.scope, orgScopedKey, String.utf8ByteSize_ofList, soh, List.cons_append,
    String.utf8Len_cons, String.utf8Len_append, size, one]
  omega

end Scope

namespace LockManager

variable [External] {m : LockManager} {t₁ t₂ : Table} {c : Command} {now : Nat}
variable {f f₁ f₂ : FencingCounter}

-- What the check asks of a request on its own.
structure Storable (input : LockAcquireInput) : Prop where
  holder  : Validate.validStoredHolder input.holder = true
  length  : input.keys.length ≤ Validate.maxLockKeys
  size    : ∀ key ∈ input.keys, key.utf8ByteSize ≤ Validate.maxKeyBytes
  request : invalidRequestId input.requestId = false
  ttl_ne  : input.ttlMs ≠ 0
  ttl_le  : input.ttlMs ≤ maxTtlMs

structure StoredGrant (grant : LockGrant) : Prop where
  token_ne : grant.fencingToken ≠ 0
  holder   : Validate.validStoredHolder grant.holder = true
  keys     : invalidKeySet grant.keys = false
  request  : invalidRequestId grant.requestId = false

structure StoredWaiter (waiter : QueuedLock) : Prop where
  holder  : Validate.validStoredHolder waiter.holder = true
  keys    : invalidKeySet waiter.keys = false
  wait    : invalidWait waiter.ttlMs waiter.requestedMs waiter.waitExpiresMs = false
  request : invalidRequestId waiter.requestId = false

structure Stored (m : LockManager) : Prop where
  grants : HashMap.Each StoredGrant m.grants
  queue  : ∀ e ∈ m.queue.entries, StoredWaiter e.2

namespace Stored

theorem empty : Stored .empty where
  grants := .empty
  queue  := by simp [LockManager.empty, IndexedQueue.empty]

theorem dequeue (s : m.Stored) {queue : IndexedQueue LockId QueuedLock}
    (sub : queue.entries ⊆ m.queue.entries) : Stored { m with queue } :=
  { s with queue := fun e h => s.queue e (sub h) }

theorem give (s : m.Stored) {grant : LockGrant} (h : StoredGrant grant) :
    (m.give grant now waiter ahead).Stored where
  grants := s.grants.insert h
  queue  := s.queue

theorem release (s : m.Stored) (token : Nat) : (m.releaseGrant token).Stored where
  grants := by
    simp only [releaseGrant]
    split
    case h_1 => exact s.grants
    case h_2 => exact s.grants.erase
  queue  := by simpa using s.queue

theorem enqueue (s : m.Stored) {input : LockAcquireInput} (h : Storable input)
    (keys : canonicalKeys input.keys ≠ []) (le : now ≤ U64.max) :
    (m.enqueue now input (canonicalKeys input.keys)).Stored := by
  simp only [LockManager.enqueue]
  split
  case isFalse => exact s
  case isTrue =>
    refine { s with queue := fun e he => ?_ }
    rcases IndexedQueue.mem_pushBack he with he | rfl
    case inl => exact s.queue e he
    case inr =>
      refine ⟨h.holder, invalidKeySet_canonicalKeys keys h.length h.size, ?_, h.request⟩
      have := h.ttl_ne
      have := h.ttl_le
      -- A legacy request has no deadline, and the sum of another one saturates.
      cases input.legacySemantics
      case true => simp [invalidWait]; omega
      case false => simp [invalidWait, U64.saturatingAdd]; omega

end Stored

theorem Step.stored (e : Step c now t₁ t₂) (le : now ≤ U64.max)
    (h : ∀ input, c.lockRequest = some input → Storable input) (s : t₁.1.Stored) : t₂.1.Stored := by
  cases e with
  | mint => exact s
  | renew mem =>
    have g := s.grants _ _ mem
    exact { s with grants := s.grants.insert ⟨g.token_ne, g.holder, g.keys, g.request⟩ }
  | release token => exact s.release token
  | expire => exact s.dequeue fun _ h => (IndexedQueue.mem_retain.mp h).left
  | cancel => exact s.dequeue fun _ h => (IndexedQueue.mem_remove.mp h).left
  | enqueue request keys => exact s.enqueue (h _ request) keys le
  | grant request keys _ next =>
    have ⟨ht, _, _⟩ := FencingCounter.nextToken_eq_some_iff.mp next
    have h := h _ request
    exact s.give ⟨by simp [newGrant, ht], h.holder,
      invalidKeySet_canonicalKeys keys h.length h.size, h.request⟩
  | promote _ mem _ next =>
    have ⟨ht, _, _⟩ := FencingCounter.nextToken_eq_some_iff.mp next
    have w := s.queue _ (IndexedQueue.get_eq_some_iff.mp mem)
    refine Stored.give (s.dequeue fun _ h => (IndexedQueue.mem_remove.mp h).left) ?_
    exact ⟨by simp [ht], w.holder, w.keys, w.request⟩

theorem Steps.stored (e : Steps c now t₁ t₂) (le : now ≤ U64.max)
    (h : ∀ input, c.lockRequest = some input → Storable input) (s : t₁.1.Stored) : t₂.1.Stored := by
  induction e
  case refl => exact s
  case tail e ih => exact e.stored le h ih

-- The tables agree on what is granted, and each entry passes the check on its own.
theorem Stored.restorable (s : m.Stored) (w : WellFormed (m, f)) : m.Restorable where
  held_mem key token  := (w.held_iff key token).mp
  token_ne _ _ mem    := w.token_eq mem ▸ (s.grants _ _ mem).token_ne
  token_eq _ _        := w.token_eq
  grant_holder _ _ h  := (s.grants _ _ h).holder
  grant_keys _ _ h    := (s.grants _ _ h).keys
  grant_request _ _ h := (s.grants _ _ h).request
  grant_held token grant mem key h := (w.held_iff key token).mpr ⟨grant, mem, h⟩
  queue_id            := w.queue_id
  queue_holder e h    := (s.queue e h).holder
  queue_keys e h      := (s.queue e h).keys
  queue_wait e h      := (s.queue e h).wait
  queue_request e h   := (s.queue e h).request
  not_granted e h _ _ := w.not_granted e h

end LockManager

namespace Http.Locks

variable [External] {c : Command} {org : OrgScope} {request : Request} {command : Command}
variable {active : Nat} {input : LockAcquireInput}

omit [External] in
theorem checkTtl_eq_ok_iff {ttlMs : Nat} :
    (Validate.checkTtl ttlMs = .ok ()) ↔ (ttlMs ≠ 0 ∧ ttlMs ≤ maxTtlMs) := by
  simp [Validate.checkTtl, Except.ite_error_eq_ok_iff]

omit [External] in
theorem ttl_in_range {ttlMs : Option Nat} (h : Validate.checkOption Validate.checkTtl ttlMs = .ok ()) :
    ttlMs.getD defaultTtlMs ≠ 0 ∧ ttlMs.getD defaultTtlMs ≤ maxTtlMs := by
  cases ttlMs
  case none => decide
  case some ttl => exact checkTtl_eq_ok_iff.mp h

omit [External] in
theorem invalidRequestId_eq_false {requestId : Option String}
    (h : Validate.acquisitionRequestId requestId = .ok ()) : invalidRequestId requestId = false := by
  cases requestId
  case none => rfl
  case some requestId =>
    simp only [Validate.acquisitionRequestId, Validate.checkStr, Except.seq_eq_ok_iff,
      Except.ite_error_eq_ok_iff] at h
    simp_all [invalidRequestId]

-- The request of an acquire that the handler lets through, in the form in which the protocol of the
-- cluster has it.
theorem acquireUnion_storable (soh : External.orgScopeDelim = '\u0001') {body : AcquireBody}
    (accepted : acquireUnion org body = .ok command)
    (active : command.forActiveProtocol active = .ok c) (lockRequest : c.lockRequest = some input)
    (fits : ∀ key ∈ input.keys, key.utf8ByteSize ≤ Validate.maxKeyBytes) :
    LockManager.Storable input := by
  simp only [acquireUnion, Except.ite_error_eq_ok_iff, Except.seq_eq_ok_iff, Validate.lockAcquire]
    at accepted
  obtain ⟨_, ⟨keys, holder, ttl, _⟩, requestId, hc⟩ := accepted
  have ⟨ttl_ne, ttl_le⟩ := ttl_in_range ttl
  have length : (org.scopeAll (keysOf body.keys body.key)).length ≤ Validate.maxLockKeys := by
    simp only [Validate.checkLockKeys, Except.ite_error_eq_ok_iff, not_lt, gt_iff_lt] at keys
    simpa [OrgScope.scopeAll] using keys.1
  have holder : Validate.validStoredHolder (org.scope (body.holder.getD "")) = true := by
    cases h : body.holder
    case none => simp [h, Validate.checkRequiredHolder] at holder
    case some name =>
      rw [h] at holder
      exact validStoredHolder_scope soh org holder
  have request := invalidRequestId_eq_false requestId
  cases hc
  cases h : body.requestId
  case none =>
    simp only [acquire, h, Command.forActiveProtocol] at active
    split at active
    case isTrue =>
      cases active
      cases lockRequest
      exact ⟨holder, length, fits, rfl, ttl_ne, ttl_le⟩
    case isFalse =>
      split at active
      case isTrue =>
        cases active
        cases lockRequest
        exact ⟨holder, length, fits, rfl, ttl_ne, ttl_le⟩
      case isFalse => contradiction
  case some =>
    simp only [acquire, h, Command.forActiveProtocol] at active
    split at active
    case isTrue =>
      cases active
      cases lockRequest
      exact ⟨holder, length, fits, h ▸ request, ttl_ne, ttl_le⟩
    case isFalse => contradiction

theorem handle_acquire {body : AcquireBody} (keys : keysOf body.keys body.key ≠ [])
    (valid : Validate.lockAcquire (keysOf body.keys body.key) body.holder body.ttlMs
      body.waitTimeoutMs = .ok ())
    (request : Validate.acquisitionRequestId body.requestId = .ok ()) :
    handle org (.acquire body) = .ok (acquire org (keysOf body.keys body.key) body) := by
  simp only [handle, acquireUnion, Except.ite_error_eq_ok_iff, Except.seq_eq_ok_iff]
  exact ⟨keys, valid, request, trivial⟩

-- No other handler proposes an acquire.
theorem handle_storable (soh : External.orgScopeDelim = '\u0001')
    (accepted : handle org request = .ok command)
    (active : command.forActiveProtocol active = .ok c) (lockRequest : c.lockRequest = some input)
    (fits : ∀ key ∈ input.keys, key.utf8ByteSize ≤ Validate.maxKeyBytes) :
    LockManager.Storable input := by
  cases request
  case acquire => exact acquireUnion_storable soh accepted active lockRequest fits
  case renew =>
    simp only [handle, renewToken, Except.seq_eq_ok_iff] at accepted
    cases accepted.2
    simp only [Command.forActiveProtocol] at active
    split at active <;> cases active
    contradiction
  case release =>
    simp only [handle, releaseToken, Except.seq_eq_ok_iff] at accepted
    cases accepted.2.2
    simp only [Command.forActiveProtocol] at active
    split at active <;> cases active
    contradiction
  case cancel body =>
    simp only [handle, cancelWaiter, Except.seq_eq_ok_iff] at accepted
    obtain ⟨_, _, hc⟩ := accepted
    split at hc <;> cases hc <;> simp only [Command.forActiveProtocol] at active <;>
      split at active <;> cases active <;> contradiction

end Http.Locks

namespace Store

variable [External] {s : Store}

-- A lock command as a handler builds it, possibly lowered to the protocol that is active.
def HandlerBuilt (c : Command) : Prop :=
  ∃ org request command active, Http.Locks.handle org request = .ok command ∧
    command.forActiveProtocol active = .ok c

-- The lock tables restore after every run of such commands whose keys fit once they are scoped.
theorem locks_restore (soh : External.orgScopeDelim = '\u0001')
    (r : Runs (fun _ _ c now => now ≤ U64.max ∧ HandlerBuilt c ∧
      ∀ input, c.lockRequest = some input →
        ∀ key ∈ input.keys, key.utf8ByteSize ≤ Validate.maxKeyBytes) .empty s) (o : IterOrder) :
    s.locks.validateRestored o = .ok () := by
  have ⟨stored, w⟩ : s.locks.Stored ∧ LockManager.WellFormed (s.locks, s.fencing) := by
    induction r
    case refl => exact ⟨.empty, .empty⟩
    case apply h _ ih =>
      have ⟨le, ⟨_, _, _, _, accepted, active⟩, fits⟩ := h
      have storable input request :=
        Http.Locks.handle_storable soh accepted active request (fits input request)
      exact ⟨applyAt_steps.locks.stored le storable ih.1, applyAt_steps.locks.wellFormed ih.2⟩
  exact LockManager.validateRestored_eq_ok_iff.mpr (stored.restorable w)

omit [External] in
-- The second request waits for the first one.
theorem locks_restore_waiting :
    letI := External.fixed
    let org : OrgScope := ⟨"o", by decide⟩
    let first := Command.lockAcquireV2 [org.scope "a"] (org.scope "h") 30000 true none
    let second := Command.lockAcquireV2 [org.scope "a"] (org.scope "w") 30000 true none
    let s₁ := (Store.empty.applyAt .sorted first 0).1
    let s₂ := (s₁.applyAt .sorted second 1).1
    (s₂.locks.grants.size, s₂.locks.queue.len) = (1, 1) ∧
    s₂.locks.validateRestored .sorted = .ok () := by
  let := External.fixed
  intro org first second s₁ s₂
  let body (holder : String) : Http.Locks.AcquireBody := {
    keys := none, key := some "a", holder := some holder, requestId := none, ttlMs := none
    wait := some true, waitTimeoutMs := none
  }
  have built (holder : String) (valid : Validate.checkHolder holder = .ok ()) :
      HandlerBuilt (.lockAcquireV2 [org.scope "a"] (org.scope holder) 30000 true none) := by
    have accepted : Validate.lockAcquire ["a"] (some holder) none none = .ok () := by
      simp only [Validate.lockAcquire, Except.seq_eq_ok_iff]
      exact ⟨by decide, valid, rfl, rfl⟩
    exact ⟨org, .acquire (body holder), _, 3,
      Http.Locks.handle_acquire (by simp [body, Http.Locks.keysOf]) accepted rfl, rfl⟩
  have r : Runs (fun _ _ c now => now ≤ U64.max ∧ HandlerBuilt c ∧
      ∀ input, c.lockRequest = some input →
        ∀ key ∈ input.keys, key.utf8ByteSize ≤ Validate.maxKeyBytes) .empty s₂ := by
    refine .apply ⟨by decide, built "w" (by decide), ?_⟩
      (.apply ⟨by decide, built "h" (by decide), ?_⟩ .refl)
    case refine_1 =>
      intro input request
      cases request
      decide +kernel
    case refine_2 =>
      intro input request
      cases request
      decide +kernel
  exact ⟨by decide +kernel, locks_restore rfl r .sorted⟩

section LongestKey

omit [External] in
theorem utf8Len_replicate (n : Nat) : String.utf8Len (List.replicate n 'a') = n := by
  induction n
  case zero => rfl
  case succ n ih =>
    simp only [List.replicate_succ, String.utf8Len_cons, ih]
    rfl

theorem applyLockAcquire_empty {ledger : CancellationLedger} {input : LockAcquireInput} {key : String}
    {revision now : Nat} (keys : canonicalKeys input.keys = [key]) (request : input.requestId = none) :
    (LockManager.empty.applyLockAcquire ledger .zero revision now input).1.grants[1]? =
    some (LockManager.newGrant input [key] 1 now) := by
  have next : FencingCounter.zero.nextToken = some (1, FencingCounter.zero.mint 1) := by
    decide +kernel
  simp [LockManager.applyLockAcquire, keys, request, LockManager.reacquired?, LockManager.empty,
    LockManager.blocked, IndexedQueue.values, IndexedQueue.empty, next, LockManager.give,
    LockManager.installGrant, LockManager.newGrant]

-- The first acquire of a store is granted, whatever its key is.
theorem applyAt_empty_acquire {key : String} (holder : String) (ttlMs : Nat) (wait : Bool)
    (ne : key ≠ "") :
    ∃ grant, (Store.empty.applyAt .sorted (.lockAcquireV2 [key] holder ttlMs wait none)
      0).1.locks.grants[1]? = some grant ∧ grant.keys = [key] := by
  have locks : (Store.empty.prepare .sorted (.lockAcquireV2 [key] holder ttlMs wait none) 0).locks =
      .empty := rfl
  have fencing : (Store.empty.prepare .sorted (.lockAcquireV2 [key] holder ttlMs wait none)
      0).fencing = .zero := rfl
  have keys : canonicalKeys [key] = [key] := canonicalKeys_eq_self (by simp) (by simpa using ne)
  simp only [applyAt, applyCommand, Store.applyLockAcquire, locks, fencing]
  exact ⟨_, applyLockAcquire_empty keys rfl, rfl⟩

-- A key that the validation accepts and that is too long once it is scoped.
theorem long_key_unrestorable (soh : External.orgScopeDelim = '\u0001') (org : OrgScope)
    {body : Http.Locks.AcquireBody} {key : String} (keys : body.keys = none)
    (hk : body.key = some key) (ne : key ≠ "") (le : key.utf8ByteSize ≤ Validate.maxKeyBytes)
    (long : Validate.maxKeyBytes < org.org.utf8ByteSize + key.utf8ByteSize + 2)
    (holder : body.holder = some "h") (request : body.requestId = none) (ttl : body.ttlMs = none)
    (wait : body.waitTimeoutMs = none) :
    ∃ command, Http.Locks.handle org (.acquire body) = .ok command ∧
      (Store.empty.applyAt .sorted command 0).1.locks.validateRestored .sorted ≠ .ok () := by
  have keysOf : Http.Locks.keysOf body.keys body.key = [key] := by simp [Http.Locks.keysOf, keys, hk]
  have valid : Validate.lockAcquire [key] (some "h") none none = .ok () := by
    simp only [Validate.lockAcquire, Except.seq_eq_ok_iff, Validate.checkLockKeys,
      Except.ite_error_eq_ok_iff, Except.forM_eq_ok_iff, List.forall_mem_singleton,
      Validate.checkStr]
    refine ⟨⟨by simp [Validate.maxLockKeys], by simp [ne], by simpa using le, trivial⟩, ?_⟩
    exact ⟨by decide, rfl, rfl⟩
  have accepted : Http.Locks.handle org (.acquire body) =
      .ok (Http.Locks.acquire org (Http.Locks.keysOf body.keys body.key) body) :=
    Http.Locks.handle_acquire (by simp [keysOf]) (by rw [keysOf, holder, ttl, wait, valid])
      (by rw [request]; rfl)
  have size := scope_utf8ByteSize soh org key
  have scoped_ne : org.scope key ≠ "" := by
    intro h
    simp [h] at size
  refine ⟨_, accepted, fun ok => ?_⟩
  simp only [Http.Locks.acquire, keysOf, request, wait, OrgScope.scopeAll, List.map_cons,
    List.map_nil] at ok
  have ⟨grant, mem, keys⟩ := applyAt_empty_acquire (org.scope (body.holder.getD ""))
    (body.ttlMs.getD Http.Locks.defaultTtlMs) (body.wait.getD false) scoped_ne
  have invalid := (LockManager.validateRestored_eq_ok_iff.mp ok).grant_keys 1 grant mem
  have fits : (org.scope key).utf8ByteSize ≤ Validate.maxKeyBytes := by
    rw [keys] at invalid
    simp only [invalidKeySet, invalidKey, Bool.or_eq_false_iff, List.any_cons,
      decide_eq_false_iff_not, not_lt, gt_iff_lt] at invalid
    exact invalid.2.1.2
  omega

omit [External] in
-- A key of the greatest length that the validation accepts, after which the store refuses its own
-- snapshot.
theorem locks_restore_longest_key :
    letI := External.fixed
    let body : Http.Locks.AcquireBody := {
      keys := none, key := some (String.ofList (List.replicate 1024 'a')), holder := some "h"
      requestId := none, ttlMs := none, wait := none, waitTimeoutMs := none
    }
    ∃ command, Http.Locks.handle ⟨"o", by decide⟩ (.acquire body) = .ok command ∧
      (Store.empty.applyAt .sorted command 0).1.locks.validateRestored .sorted ≠ .ok () := by
  let := External.fixed
  have size : (String.ofList (List.replicate 1024 'a')).utf8ByteSize = 1024 := by
    rw [String.utf8ByteSize_ofList, utf8Len_replicate]
  have ne : String.ofList (List.replicate 1024 'a') ≠ "" := by
    intro h
    rw [h] at size
    exact absurd size (by decide)
  refine long_key_unrestorable rfl ⟨"o", by decide⟩ rfl rfl ne size.le ?_ rfl rfl rfl rfl
  rw [size]
  decide

end LongestKey

end Store
