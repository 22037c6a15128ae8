import FiduciaNode.State.Theorems.FencingFloor

variable [External]

namespace LockManager

variable {m : LockManager} {o : IterOrder} {f : FencingCounter}

-- What the check of a lock table accepts.
structure Restorable (m : LockManager) : Prop where
  held_mem      : ∀ (key : String) (token : Nat), m.held[key]? = some token →
                    ∃ grant, m.grants[token]? = some grant ∧ key ∈ grant.keys
  token_ne      : ∀ (token : Nat) (grant), m.grants[token]? = some grant → token ≠ 0
  token_eq      : ∀ (token : Nat) (grant), m.grants[token]? = some grant →
                    grant.fencingToken = token
  grant_holder  : ∀ (token : Nat) (grant), m.grants[token]? = some grant →
                    Validate.validStoredHolder grant.holder = true
  grant_keys    : ∀ (token : Nat) (grant), m.grants[token]? = some grant →
                    invalidKeySet grant.keys = false
  grant_request : ∀ (token : Nat) (grant), m.grants[token]? = some grant →
                    invalidRequestId grant.requestId = false
  grant_held    : ∀ (token : Nat) (grant), m.grants[token]? = some grant →
                    ∀ key ∈ grant.keys, m.held[key]? = some token
  queue_id      : ∀ e ∈ m.queue.entries, e.1 = (e.2.holder, e.2.keys)
  queue_holder  : ∀ e ∈ m.queue.entries, Validate.validStoredHolder e.2.holder = true
  queue_keys    : ∀ e ∈ m.queue.entries, invalidKeySet e.2.keys = false
  queue_wait    : ∀ e ∈ m.queue.entries,
                    invalidWait e.2.ttlMs e.2.requestedMs e.2.waitExpiresMs = false
  queue_request : ∀ e ∈ m.queue.entries, invalidRequestId e.2.requestId = false
  not_granted   : ∀ e ∈ m.queue.entries, ∀ (token : Nat) (grant),
                    m.grants[token]? = some grant →
                    ¬(grant.holder = e.2.holder ∧ grant.keys = e.2.keys ∧
                      grant.requestId = e.2.requestId)

omit [External] in
theorem validateHeld_eq_ok_iff {key : String} {token : Nat} :
    (m.validateHeld key token = .ok ()) ↔
    (∃ grant, m.grants[token]? = some grant ∧ key ∈ grant.keys) := by
  simp only [validateHeld]
  split
  case h_1 h => simp [h]
  case h_2 grant h => simp [h]

omit [External] in
theorem validateGrantKey_eq_ok_iff {key : String} {token : Nat} :
    (m.validateGrantKey token key = .ok ()) ↔ (m.held[key]? = some token) := by
  simp [validateGrantKey]

theorem validateGrant_eq_ok_iff {token : Nat} {grant : LockGrant} :
    (m.validateGrant token grant = .ok ()) ↔
    (token ≠ 0 ∧ grant.fencingToken = token ∧ Validate.validStoredHolder grant.holder = true ∧
      invalidKeySet grant.keys = false ∧ invalidRequestId grant.requestId = false ∧
      ∀ key ∈ grant.keys, m.held[key]? = some token) := by
  simp only [validateGrant, Except.ite_error_eq_ok_iff, Except.forM_eq_ok_iff,
    validateGrantKey_eq_ok_iff]
  simp [and_assoc]

theorem validateQueued_eq_ok_iff {id : LockId} {queued : QueuedLock} :
    (m.validateQueued o id queued = .ok ()) ↔
    (id = (queued.holder, queued.keys) ∧ Validate.validStoredHolder queued.holder = true ∧
      invalidKeySet queued.keys = false ∧
      invalidWait queued.ttlMs queued.requestedMs queued.waitExpiresMs = false ∧
      invalidRequestId queued.requestId = false ∧
      ∀ (token : Nat) (grant), m.grants[token]? = some grant →
        ¬(grant.holder = queued.holder ∧ grant.keys = queued.keys ∧
          grant.requestId = queued.requestId)) := by
  have values : ((m.grants.values o).any fun grant => grant.holder = queued.holder &&
      grant.keys = queued.keys && grant.requestId = queued.requestId) = false ↔
      ∀ (token : Nat) (grant), m.grants[token]? = some grant →
        ¬(grant.holder = queued.holder ∧ grant.keys = queued.keys ∧
          grant.requestId = queued.requestId) := by
    simp only [List.any_eq_false, HashMap.mem_values, Bool.and_eq_true, decide_eq_true_eq, and_assoc]
    exact ⟨fun h token grant mem => h grant ⟨token, mem⟩, fun h grant mem => h _ grant mem.choose_spec⟩
  rw [← values]
  simp [validateQueued, Except.ite_error_eq_ok_iff, Prod.ext_iff, and_assoc]

theorem validateRestored_eq_ok_iff : (m.validateRestored o = .ok ()) ↔ m.Restorable := by
  simp only [validateRestored, Except.seq_eq_ok_iff, Except.forM_eq_ok_iff, Prod.forall,
    HashMap.mem_iter, validateHeld_eq_ok_iff, validateGrant_eq_ok_iff, validateQueued_eq_ok_iff]
  constructor
  case mp =>
    intro ⟨held, grants, queue⟩
    exact {
      held_mem      := held
      token_ne      := fun t g h => (grants t g h).1
      token_eq      := fun t g h => (grants t g h).2.1
      grant_holder  := fun t g h => (grants t g h).2.2.1
      grant_keys    := fun t g h => (grants t g h).2.2.2.1
      grant_request := fun t g h => (grants t g h).2.2.2.2.1
      grant_held    := fun t g h => (grants t g h).2.2.2.2.2
      queue_id      := fun e h => (queue e.1.1 e.1.2 e.2 h).1
      queue_holder  := fun e h => (queue e.1.1 e.1.2 e.2 h).2.1
      queue_keys    := fun e h => (queue e.1.1 e.1.2 e.2 h).2.2.1
      queue_wait    := fun e h => (queue e.1.1 e.1.2 e.2 h).2.2.2.1
      queue_request := fun e h => (queue e.1.1 e.1.2 e.2 h).2.2.2.2.1
      not_granted   := fun e h => (queue e.1.1 e.1.2 e.2 h).2.2.2.2.2
    }
  case mpr =>
    intro r
    refine ⟨r.held_mem, fun t g h => ?_, fun _ _ q h => ?_⟩
    case refine_1 =>
      exact ⟨r.token_ne t g h, r.token_eq t g h, r.grant_holder t g h, r.grant_keys t g h,
        r.grant_request t g h, r.grant_held t g h⟩
    case refine_2 =>
      exact ⟨r.queue_id _ h, r.queue_holder _ h, r.queue_keys _ h, r.queue_wait _ h,
        r.queue_request _ h, r.not_granted _ h⟩

omit [External] in
theorem canonical_of_invalidKeySet {keys : List String} (h : invalidKeySet keys = false) :
    Canonical keys := by
  simp only [invalidKeySet, Bool.or_eq_false_iff, decide_eq_false_iff_not, not_not] at h
  exact ⟨h.1.1.1, h.1.2 ▸ canonicalKeys_pairwise keys⟩

-- An accepted table meets the invariant of the tables that runs build.
theorem Restorable.wellFormed (r : m.Restorable)
    (le : ∀ (token : Nat) (grant), m.grants[token]? = some grant → token ≤ f.nextFencingToken) :
    WellFormed (m, f) where
  held_iff key token := ⟨r.held_mem key token, fun ⟨grant, mem, h⟩ => r.grant_held token grant mem key h⟩
  token_eq    := r.token_eq _ _
  token_le    := le _ _
  grant_keys  := fun mem => canonical_of_invalidKeySet (r.grant_keys _ _ mem)
  queue_id    := r.queue_id
  queue_keys  := fun e h => canonical_of_invalidKeySet (r.queue_keys e h)
  not_granted := fun e h => r.not_granted e h _ _

end LockManager

namespace Semaphore

variable {sem : Semaphore} {key : String}

structure Restorable (key : String) (sem : Semaphore) : Prop where
  key           : invalidKey key = false
  limit_ne      : sem.limit ≠ 0
  limit_le      : sem.limit ≤ Validate.maxSemaphoreLimit
  bounded       : sem.holders.length ≤ sem.limit
  slot_holder   : ∀ slot ∈ sem.holders, Validate.validStoredHolder slot.holder = true
  slot_token    : ∀ slot ∈ sem.holders, slot.fencingToken ≠ 0
  slot_request  : ∀ slot ∈ sem.holders, invalidRequestId slot.requestId = false
  holders       : (sem.holders.map (·.holder)).Nodup
  tokens        : (sem.holders.map (·.fencingToken)).Nodup
  queue_id      : ∀ e ∈ sem.queue.entries, e.1 = e.2.holder
  queue_holder  : ∀ e ∈ sem.queue.entries, Validate.validStoredHolder e.2.holder = true
  queue_wait    : ∀ e ∈ sem.queue.entries,
                    invalidWait e.2.ttlMs e.2.requestedMs e.2.waitExpiresMs = false
  queue_request : ∀ e ∈ sem.queue.entries, invalidRequestId e.2.requestId = false
  not_holding   : ∀ e ∈ sem.queue.entries, ∀ slot ∈ sem.holders, slot.holder ≠ e.2.holder

-- The scan carries what it has seen, so the statement is about what is seen before the slots.
theorem validateSlots_eq_ok_iff {slots : List SemaphoreSlot} {seen seen' : List String}
    {tokens : List Nat} :
    (validateSlots key seen tokens slots = .ok seen') ↔
    (seen' = (slots.map (·.holder)).reverse ++ seen ∧
      (∀ slot ∈ slots, Validate.validStoredHolder slot.holder = true ∧ slot.fencingToken ≠ 0 ∧
        invalidRequestId slot.requestId = false ∧ slot.holder ∉ seen ∧
        slot.fencingToken ∉ tokens) ∧
      (slots.map (·.holder)).Nodup ∧ (slots.map (·.fencingToken)).Nodup) := by
  induction slots generalizing seen tokens
  case nil => simp [validateSlots, @eq_comm _ seen]
  case cons slot slots ih =>
    simp only [validateSlots, Except.ite_error_eq_ok_iff, ih]
    simp only [Bool.or_eq_true, not_or, Bool.not_eq_true', decide_eq_true_eq,
      List.contains_eq_mem, List.mem_cons, List.map_cons, List.nodup_cons, List.mem_map,
      List.reverse_cons, List.append_assoc, List.singleton_append]
    grind

theorem validateQueued_eq_ok_iff {seen : List String} {indexed : String} {queued : QueuedPermit} :
    (validateQueued key seen indexed queued = .ok ()) ↔
    (indexed = queued.holder ∧ Validate.validStoredHolder queued.holder = true ∧
      queued.holder ∉ seen ∧
      invalidWait queued.ttlMs queued.requestedMs queued.waitExpiresMs = false ∧
      invalidRequestId queued.requestId = false) := by
  simp [validateQueued, and_assoc]

theorem validateRestored_eq_ok_iff : (sem.validateRestored key = .ok ()) ↔ sem.Restorable key := by
  simp only [validateRestored, Except.ite_error_eq_ok_iff, Except.bind_eq_ok_iff,
    validateSlots_eq_ok_iff, Except.forM_eq_ok_iff, Prod.forall, validateQueued_eq_ok_iff,
    List.append_nil, Bool.or_eq_true, not_or, decide_eq_true_eq, not_lt, gt_iff_lt]
  constructor
  case mp =>
    intro ⟨⟨⟨⟨hk, hn⟩, hl⟩, hb⟩, seen, ⟨hs, slots, nodup⟩, queue⟩
    subst hs
    exact {
      key           := by simpa using hk
      limit_ne      := hn
      limit_le      := hl
      bounded       := hb
      slot_holder   := fun slot h => (slots slot h).1
      slot_token    := fun slot h => (slots slot h).2.1
      slot_request  := fun slot h => (slots slot h).2.2.1
      holders       := nodup.1
      tokens        := nodup.2
      queue_id      := fun e h => (queue e.1 e.2 h).1
      queue_holder  := fun e h => (queue e.1 e.2 h).2.1
      queue_wait    := fun e h => (queue e.1 e.2 h).2.2.2.1
      queue_request := fun e h => (queue e.1 e.2 h).2.2.2.2
      not_holding   := fun e h slot hs eq =>
        (queue e.1 e.2 h).2.2.1 (List.mem_reverse.mpr (List.mem_map.mpr ⟨slot, hs, eq⟩))
    }
  case mpr =>
    intro r
    refine ⟨⟨⟨⟨by simp [r.key], r.limit_ne⟩, r.limit_le⟩, r.bounded⟩, _, ⟨rfl, ?_, ?_⟩, ?_⟩
    case refine_1 =>
      exact fun slot h => ⟨r.slot_holder slot h, r.slot_token slot h, r.slot_request slot h,
        List.not_mem_nil, List.not_mem_nil⟩
    case refine_2 => exact ⟨r.holders, r.tokens⟩
    case refine_3 =>
      intro i q h
      refine ⟨r.queue_id _ h, r.queue_holder _ h, fun hq => ?_, r.queue_wait _ h,
        r.queue_request _ h⟩
      have ⟨slot, hs, eq⟩ := List.mem_map.mp (List.mem_reverse.mp hq)
      exact r.not_holding _ h slot hs eq

end Semaphore

theorem Semaphores.validateRestored_eq_ok_iff {sems : Semaphores} {o : IterOrder} :
    (sems.validateRestored o = .ok ()) ↔
    (∀ (key : String) (sem : Semaphore), sems[key]? = some sem → sem.Restorable key) := by
  simp only [Semaphores.validateRestored, Except.forM_eq_ok_iff, Prod.forall, HashMap.mem_iter,
    Semaphore.validateRestored_eq_ok_iff]

namespace Store

variable {s s' : Store} {o : IterOrder} {bytes : List UInt8} [SnapshotCodec]

-- What is known of a store that the check lets through.
structure Restorable (s : Store) : Prop where
  fencing    : s.maxReferencedFencingToken ≤ s.fencing.nextFencingToken
  locks      : s.locks.Restorable
  semaphores : ∀ (key : String) (sem : Semaphore), s.semaphores[key]? = some sem →
                 sem.Restorable key

omit [SnapshotCodec] in
theorem Restorable.of_validateRestored (h : s.validateRestored o = .ok ()) : s.Restorable := by
  simp only [validateRestored, Except.seq_eq_ok_iff] at h
  have ⟨_, fencing, locks, semaphores, _⟩ := h
  exact {
    fencing    := (validateFencing_eq_ok_iff.mp fencing).1
    locks      := LockManager.validateRestored_eq_ok_iff.mp locks
    semaphores := Semaphores.validateRestored_eq_ok_iff.mp semaphores
  }

omit [SnapshotCodec] in
theorem Restorable.le_next (r : s.Restorable) {token : Nat} (h : token ∈ s.referencedTokens) :
    token ≤ s.fencing.nextFencingToken :=
  (foldl_max_le_iff.mp r.fencing).2 token h

omit [SnapshotCodec] in
theorem Restorable.wellFormed (r : s.Restorable) : LockManager.WellFormed (s.locks, s.fencing) := by
  refine r.locks.wellFormed fun token grant mem => r.le_next ?_
  simp only [referencedTokens, List.mem_append, List.mem_flatMap, Prod.exists, HashMap.mem_toList]
  exact .inl (.inl (.inl (.inl (.inl (.inl ⟨token, grant, mem, List.mem_cons_self⟩)))))

omit [External] [SnapshotCodec] in
theorem deserialize_minted {i : StoreImage} (h : i.deserialize = .ok s) : s.fencing.minted = [] := by
  simp only [StoreImage.deserialize, Except.bind_eq_ok_iff] at h
  have ⟨_, _, _, _, h⟩ := h
  cases h
  rfl

theorem decodeSnapshot_eq_ok (h : decodeSnapshot o bytes = .ok s) :
    s.Restorable ∧ s.fencing.minted = [] := by
  simp only [decodeSnapshot, Except.bind_eq_ok_iff, Except.ite_error_eq_ok_iff] at h
  have ⟨_, _, _, deserialized, _, _, validated, eq⟩ := h
  cases eq
  exact ⟨.of_validateRestored validated, deserialize_minted deserialized⟩

omit [SnapshotCodec] in
theorem Runs.fencing {p : Store → IterOrder → Command → Nat → Prop} (r : Runs p s s') :
    FencingCounter.Steps s.fencing s'.fencing := by
  induction r
  case refl => exact .refl
  case apply ih => exact ih.trans applyAt_steps.fencing

-- A snapshot that is refused changes nothing. One that is accepted has lock tables that agree, key
-- sets that are sorted and disjoint, and semaphores within their limits, and whatever is minted
-- after it is above each token that it mentions.
theorem restore_sound (o : IterOrder) (live : Store) (bytes : List UInt8) :
    (∀ e, (restore o live bytes).2 = .error e → (restore o live bytes).1 = live) ∧
    ((restore o live bytes).2 = .ok () →
      let s := (restore o live bytes).1
      (∀ (key : String) (token : Nat), s.locks.held[key]? = some token ↔
        ∃ grant, s.locks.grants[token]? = some grant ∧ key ∈ grant.keys) ∧
      (∀ (token : Nat) (grant : LockGrant), s.locks.grants[token]? = some grant →
        grant.fencingToken = token ∧ grant.keys ≠ [] ∧ grant.keys.Pairwise (· < ·)) ∧
      (∀ (token₁ token₂ : Nat) (grant₁ grant₂ : LockGrant),
        s.locks.grants[token₁]? = some grant₁ → s.locks.grants[token₂]? = some grant₂ →
        token₁ ≠ token₂ → grant₁.keys.Disjoint grant₂.keys) ∧
      (∀ e ∈ s.locks.queue.entries, ∀ (token : Nat) (grant : LockGrant),
        s.locks.grants[token]? = some grant →
        ¬(grant.holder = e.2.holder ∧ grant.keys = e.2.keys ∧ grant.requestId = e.2.requestId)) ∧
      (∀ (key : String) (sem : Semaphore), s.semaphores[key]? = some sem →
        sem.holders.length ≤ sem.limit ∧
        (sem.holders.map (·.holder)).Nodup ∧ (sem.holders.map (·.fencingToken)).Nodup ∧
        ∀ e ∈ sem.queue.entries, ∀ slot ∈ sem.holders,
          slot.holder ≠ e.1 ∧ slot.holder ≠ e.2.holder) ∧
      (∀ s', Runs (fun _ _ _ _ => True) s s' →
        ∀ token ∈ s'.fencing.minted, ∀ referenced ∈ s.referencedTokens, referenced < token)) := by
  simp only [restore]
  split
  case h_1 => simp
  case h_2 s decoded =>
    refine ⟨by simp, fun _ => ?_⟩
    have ⟨r, fresh⟩ := decodeSnapshot_eq_ok decoded
    have w := r.wellFormed
    refine ⟨w.held_iff, ?_, ?_, ?_, ?_, ?_⟩
    case refine_1 => exact fun _ _ mem => ⟨w.token_eq mem, w.grant_keys mem⟩
    case refine_2 => exact fun _ _ _ _ h₁ h₂ ne => w.disjoint h₁ h₂ ne
    case refine_3 => exact r.locks.not_granted
    case refine_4 =>
      intro key sem mem
      have r := r.semaphores key sem mem
      refine ⟨r.bounded, r.holders, r.tokens, fun e h slot hs => ⟨?_, r.not_holding e h slot hs⟩⟩
      exact r.queue_id e h ▸ r.not_holding e h slot hs
    case refine_5 =>
      intro s' run token minted referenced h
      have above := (run.fencing.minted token minted).resolve_left (by simp [fresh])
      exact (r.le_next h).trans_lt above

section Sample

-- A snapshot with a lock, a waiter for it and a permit, as the parser delivers it.
def sampleImage : StoreImage where
  commandProtocol        := Command.legacyCommandProtocol
  revision               := 2
  nextFencingToken       := 2
  kv                     := ∅
  counters               := ∅
  barriers               := ∅
  tasks                  := ∅
  effects                := ∅
  handoffs               := ∅
  decisions              := ∅
  budgets                := ∅
  claims                 := ∅
  locks                  := {
    held   := (∅ : HashMap String Nat).insert "a" 1
    grants := (∅ : HashMap Nat LockGrant).insert 1 ⟨"h", ["a"], 1, 10, none⟩
    queue  := [(("w", ["a"]), ⟨"w", ["a"], 5, 0, none, none⟩)]
  }
  semaphores             := [("s", ⟨1, [⟨"h", 2, 10, none⟩], []⟩)]
  lockCancellations      := .empty
  semaphoreCancellations := .empty
  rateLimits             := ∅
  idempotency            := ∅
  elections              := ∅
  schedules              := ∅
  services               := ∅

abbrev sampleCodec : SnapshotCodec where
  fromSlice _ := .ok sampleImage

end Sample

omit [External] [SnapshotCodec] in
-- The sample is accepted, and a lock that is acquired after it gets a token above both of its own.
theorem restore_sound_sample :
    letI := External.fixed
    letI := sampleCodec
    let s := (restore .sorted .empty []).1
    let s' := (s.applyAt .sorted (.lockAcquireV2 ["b"] "h" 10 true none) 0).1
    (restore .sorted .empty []).2 = .ok () ∧ s'.fencing.minted = [3] ∧
    ∀ referenced ∈ s.referencedTokens, referenced < 3 := by
  let := External.fixed
  let := sampleCodec
  intro s s'
  have accepted : (restore .sorted .empty []).2 = .ok () := by decide +kernel
  have minted : s'.fencing.minted = [3] := by decide +kernel
  have ⟨_, _, _, _, _, above⟩ := (restore_sound .sorted .empty []).2 accepted
  exact ⟨accepted, minted, above s' (.apply trivial .refl) 3 (by simp [minted])⟩

end Store
