import FiduciaNode.State.Theorems.Restore

variable [External]

namespace Semaphore

variable {sem : Semaphore} {key : String} {f₁ f₂ : FencingCounter} {now token : Nat}

namespace Restorable

-- The permits that are left, each of them with the names it had.
theorem of_holders (r : sem.Restorable key) {holders : List SemaphoreSlot}
    (names : (holders.map (·.holder)).Sublist (sem.holders.map (·.holder)))
    (tokens : (holders.map (·.fencingToken)).Sublist (sem.holders.map (·.fencingToken)))
    (old : ∀ slot ∈ holders, ∃ old ∈ sem.holders, slot.holder = old.holder ∧
      slot.fencingToken = old.fencingToken ∧ slot.requestId = old.requestId) :
    Restorable key { sem with holders } where
  key           := r.key
  limit_ne      := r.limit_ne
  limit_le      := r.limit_le
  bounded       := by
    have := names.length_le
    simp only [List.length_map] at this
    exact this.trans r.bounded
  slot_holder   := fun slot h => by
    have ⟨_, ho, hh, _, _⟩ := old slot h
    exact hh ▸ r.slot_holder _ ho
  slot_token    := fun slot h => by
    have ⟨_, ho, _, ht, _⟩ := old slot h
    exact ht ▸ r.slot_token _ ho
  slot_request  := fun slot h => by
    have ⟨_, ho, _, _, hr⟩ := old slot h
    exact hr ▸ r.slot_request _ ho
  holders       := r.holders.sublist names
  tokens        := r.tokens.sublist tokens
  queue_id      := r.queue_id
  queue_holder  := r.queue_holder
  queue_wait    := r.queue_wait
  queue_request := r.queue_request
  not_holding   := fun e he slot h => by
    have ⟨_, ho, hh, _, _⟩ := old slot h
    exact hh ▸ r.not_holding e he _ ho

theorem filter (r : sem.Restorable key) (keep : SemaphoreSlot → Bool) :
    Restorable key { sem with holders := sem.holders.filter keep } :=
  r.of_holders (List.filter_sublist.map _) (List.filter_sublist.map _)
    fun slot h => ⟨slot, (List.mem_filter.mp h).1, rfl, rfl, rfl⟩

theorem renew (r : sem.Restorable key) {before after : List SemaphoreSlot} {slot : SemaphoreSlot}
    (holders : sem.holders = before ++ slot :: after) (lease : Nat) :
    Restorable key
      { sem with holders := before ++ { slot with leaseExpiresMs := lease } :: after } := by
  refine r.of_holders ?_ ?_ fun _ h => Semaphores.mem_renewed holders h
  case refine_1 | refine_2 => simp [holders]

theorem of_queue (r : sem.Restorable key) {queue : IndexedQueue String QueuedPermit}
    (sub : queue.entries ⊆ sem.queue.entries) : Restorable key { sem with queue } :=
  { r with
    queue_id      := fun e h => r.queue_id e (sub h)
    queue_holder  := fun e h => r.queue_holder e (sub h)
    queue_wait    := fun e h => r.queue_wait e (sub h)
    queue_request := fun e h => r.queue_request e (sub h)
    not_holding   := fun e h => r.not_holding e (sub h)
  }

-- A permit for someone who neither holds one nor waits for one.
theorem give (r : sem.Restorable key) {slot : SemaphoreSlot}
    (free : sem.holders.length < sem.limit)
    (holder : Validate.validStoredHolder slot.holder = true) (ne : slot.fencingToken ≠ 0)
    (request : invalidRequestId slot.requestId = false)
    (fresh : ∀ other ∈ sem.holders, other.fencingToken ≠ slot.fencingToken)
    (alone : ∀ other ∈ sem.holders, other.holder ≠ slot.holder)
    (unqueued : ∀ e ∈ sem.queue.entries, slot.holder ≠ e.2.holder) :
    Restorable key { sem with holders := sem.holders ++ [slot] } :=
  { r with
    bounded      := by simpa using free
    slot_holder  := by simpa [or_imp, forall_and] using ⟨r.slot_holder, holder⟩
    slot_token   := by simpa [or_imp, forall_and] using ⟨r.slot_token, ne⟩
    slot_request := by simpa [or_imp, forall_and] using ⟨r.slot_request, request⟩
    holders      := by
      rw [List.map_append, List.nodup_append]
      refine ⟨r.holders, by simp, ?_⟩
      simpa using alone
    tokens       := by
      rw [List.map_append, List.nodup_append]
      refine ⟨r.tokens, by simp, ?_⟩
      simpa using fresh
    not_holding  := fun e he other h => by
      rcases List.mem_append.mp h with h | h
      case inl => exact r.not_holding e he other h
      case inr => exact List.mem_singleton.mp h ▸ unqueued e he
  }

theorem admitted (r : sem.Restorable key) {holder : String} {waiter : QueuedPermit}
    (free : sem.holders.length < sem.limit) (front : sem.queue.front = some (holder, waiter))
    (ne : token ≠ 0) (fresh : ∀ other ∈ sem.holders, other.fencingToken ≠ token) :
    Restorable key (sem.admitted waiter token now) := by
  have mem := Semaphores.front_mem front
  have r' : Restorable key { sem with queue := sem.queue.popFront } :=
    r.of_queue Semaphores.popFront_subset
  refine r'.give free (r.queue_holder _ mem) ne (r.queue_request _ mem) fresh
    (r.not_holding _ mem) fun e he eq => ?_
  -- The keys of the queue differ, so no one behind the front has its name.
  have nodup := sem.queue.nodup
  have ⟨rest, hq⟩ := List.head?_eq_some_iff.mp front
  have he : e ∈ rest := by simpa [IndexedQueue.popFront, hq] using he
  rw [hq, List.map_cons, List.nodup_cons] at nodup
  refine nodup.1 (List.mem_map.mpr ⟨e, he, ?_⟩)
  have id : e.1 = e.2.holder := r.queue_id e (hq ▸ List.mem_cons_of_mem _ he)
  exact id.trans (eq.symm.trans (r.queue_id _ mem).symm)

end Restorable

end Semaphore

namespace Semaphores

variable {sems : Semaphores} {sem : Semaphore} {f f₁ f₂ : FencingCounter} {t₁ t₂ : Table}
variable {c : Command} {key : String} {now revision token : Nat} {input : SemaphoreAcquireInput}

-- The semaphores pass the check, and their tokens were minted by the counter.
def Restorable (t : Table) : Prop :=
  ∀ (key : String) (sem : Semaphore), t.1[key]? = some sem →
    sem.Restorable key ∧ ∀ slot ∈ sem.holders, slot.fencingToken ≤ t.2.nextFencingToken

namespace Restorable

theorem empty : Restorable (∅, f) := by
  simp [Restorable]

theorem mono (r : Restorable (sems, f₁)) (le : f₁.nextFencingToken ≤ f₂.nextFencingToken) :
    Restorable (sems, f₂) :=
  fun key sem mem => ⟨(r key sem mem).1, fun slot h => ((r key sem mem).2 slot h).trans le⟩

theorem insert (r : Restorable (sems, f)) (h : sem.Restorable key)
    (le : ∀ slot ∈ sem.holders, slot.fencingToken ≤ f.nextFencingToken) :
    Restorable (sems.insert key sem, f) := by
  intro key' sem' mem
  simp only [HashMap.get_insert] at mem
  split at mem
  case isTrue eq =>
    cases mem
    exact eq ▸ ⟨h, le⟩
  case isFalse => exact r key' sem' mem

-- A minted token is not the one of a permit.
theorem fresh (r : Restorable (sems, f₁)) (mem : sems[key]? = some sem)
    (next : f₁.nextToken = some (token, f₂)) :
    token ≠ 0 ∧ (∀ slot ∈ sem.holders, slot.fencingToken ≠ token) ∧
    ∀ slot ∈ sem.holders, slot.fencingToken ≤ f₂.nextFencingToken := by
  have ⟨ht, _, hf⟩ := FencingCounter.nextToken_eq_some_iff.mp next
  have next_eq : f₂.nextFencingToken = token := by simp [hf, FencingCounter.mint]
  have le := (r key sem mem).2
  refine ⟨by omega, fun slot h eq => ?_, fun slot h => ?_⟩
  case refine_1 =>
    have := le slot h
    simp only at this
    omega
  case refine_2 =>
    have := le slot h
    simp only at this
    omega

theorem mint (r : Restorable (sems, f₁)) (next : f₁.nextToken = some (token, f₂)) :
    Restorable (sems, f₂) :=
  r.mono (FencingCounter.Steps.le (.single (FencingCounter.nextToken_step next)))

omit [External] in
theorem holders_append {given : SemaphoreSlot} (next : f₁.nextToken = some (token, f₂))
    (le : ∀ slot ∈ sem.holders, slot.fencingToken ≤ f₂.nextFencingToken)
    (eq : given.fencingToken = token) :
    ∀ slot ∈ sem.holders ++ [given], slot.fencingToken ≤ f₂.nextFencingToken := by
  have ⟨_, _, hf⟩ := FencingCounter.nextToken_eq_some_iff.mp next
  intro slot h
  rcases List.mem_append.mp h with h | h
  case inl => exact le slot h
  case inr => simp [List.mem_singleton.mp h, eq, hf, FencingCounter.mint]

end Restorable

-- What a command does that does not acquire.
theorem Step.restorable (e : Step c now t₁ t₂) (none : c.semaphoreRequest = none)
    (r : Restorable t₁) : Restorable t₂ := by
  cases e with
  | mint step => exact r.mono (FencingCounter.Steps.le (.single step))
  | sweep =>
    intro key sem mem
    simp only [Semaphores.sweep, Std.ExtTreeMap.getElem?_map, Option.map_eq_some_iff] at mem
    obtain ⟨old, stored, hs⟩ := mem
    subst hs
    obtain ⟨r, le⟩ := r key old stored
    refine ⟨(r.filter _).of_queue ?_, fun slot h => le slot (List.mem_filter.mp h).1⟩
    exact fun e h => (IndexedQueue.mem_retain.mp h).1
  | renew mem holders lease =>
    obtain ⟨r', le⟩ := r _ _ mem
    refine r.insert (r'.renew holders lease) fun slot h => ?_
    obtain ⟨old, ho, _, ht, _⟩ := mem_renewed holders h
    exact ht ▸ le old ho
  | release mem keep =>
    obtain ⟨r', le⟩ := r _ _ mem
    exact r.insert (r'.filter keep) fun slot h => le slot (List.mem_filter.mp h).1
  | cancel mem =>
    obtain ⟨r', le⟩ := r _ _ mem
    exact r.insert (r'.of_queue fun e h => (IndexedQueue.mem_remove.mp h).1) le
  | enter request => simp [none] at request
  | enqueue request => simp [none] at request
  | grant request => simp [none] at request
  | promote mem free front _ next =>
    obtain ⟨ne, fresh, le⟩ := r.fresh mem next
    simp only [Semaphore.promotable, Bool.and_eq_true, decide_eq_true_eq] at free
    exact (r.mint next).insert ((r _ _ mem).1.admitted free.1 front ne fresh)
      (Restorable.holders_append next le rfl)

theorem Steps.restorable (e : Steps c now t₁ t₂) (none : c.semaphoreRequest = none)
    (r : Restorable t₁) : Restorable t₂ := by
  induction e
  case refl => exact r
  case tail e ih => exact e.restorable none ih

-- The sizes that the restore check and the validation of an acquire have in common.
structure InRange (input : SemaphoreAcquireInput) : Prop where
  key       : invalidKey input.key = false
  limit_ne  : input.limit ≠ 0
  limit_le  : input.limit ≤ Validate.maxSemaphoreLimit
  ttl_ne    : input.ttlMs ≠ 0
  ttl_le    : input.ttlMs ≤ maxTtlMs

-- The names are well formed, and the holder has no permit under another request id.
structure Admits (sems : Semaphores) (input : SemaphoreAcquireInput) : Prop where
  holder  : Validate.validStoredHolder input.holder = true
  request : invalidRequestId input.requestId = false
  once    : ∀ sem, sems[input.key]? = some sem → ∀ slot ∈ sem.holders,
              slot.holder = input.holder → slot.requestId = input.requestId

theorem Restorable.entry (r : Restorable (sems, f)) (range : InRange input)
    (legacy : input.legacySemantics = false) :
    (sems.entry input).Restorable input.key ∧
    ∀ slot ∈ (sems.entry input).holders, slot.fencingToken ≤ f.nextFencingToken := by
  rw [entry_eq legacy]
  cases mem : sems[input.key]?
  case some sem => exact r _ sem mem
  case none =>
    refine ⟨?_, by simp⟩
    exact {
      key           := range.key
      limit_ne      := range.limit_ne
      limit_le      := range.limit_le
      bounded       := Nat.zero_le _
      slot_holder   := by simp
      slot_token    := by simp
      slot_request  := by simp
      holders       := by simp
      tokens        := by simp
      queue_id      := by simp [IndexedQueue.empty]
      queue_holder  := by simp [IndexedQueue.empty]
      queue_wait    := by simp [IndexedQueue.empty]
      queue_request := by simp [IndexedQueue.empty]
      not_holding   := by simp
    }

-- The wait ends no earlier than it starts, because the sum saturates.
theorem enqueue_restorable (r : sem.Restorable input.key) (range : InRange input)
    (a : Admits sems input) (legacy : input.legacySemantics = false) (le : now ≤ U64.max)
    (alone : ∀ slot ∈ sem.holders, slot.holder ≠ input.holder) :
    (Semaphores.enqueue sem now input).Restorable input.key := by
  simp only [Semaphores.enqueue]
  split
  case isFalse => exact r
  case isTrue =>
    have wait : invalidWait input.ttlMs now
        (some (U64.saturatingAdd now (input.waitTimeoutMs.getD defaultWaitTimeoutMs))) = false := by
      have := range.ttl_ne
      have := range.ttl_le
      simp only [invalidWait, U64.saturatingAdd]
      simp
      omega
    simp only [legacy, Bool.false_eq_true, ↓reduceIte]
    exact { r with
      queue_id      := fun e h => by
        rcases IndexedQueue.mem_pushBack h with h | rfl
        case inl => exact r.queue_id e h
        case inr => rfl
      queue_holder  := fun e h => by
        rcases IndexedQueue.mem_pushBack h with h | rfl
        case inl => exact r.queue_holder e h
        case inr => exact a.holder
      queue_wait    := fun e h => by
        rcases IndexedQueue.mem_pushBack h with h | rfl
        case inl => exact r.queue_wait e h
        case inr => exact wait
      queue_request := fun e h => by
        rcases IndexedQueue.mem_pushBack h with h | rfl
        case inl => exact r.queue_request e h
        case inr => exact a.request
      not_holding   := fun e h slot hs => by
        rcases IndexedQueue.mem_pushBack h with h | rfl
        case inl => exact r.not_holding e h slot hs
        case inr => exact alone slot hs
    }

theorem Restorable.acquireFrom (r : Restorable (sems, f)) (range : InRange input)
    (a : Admits sems input) (legacy : input.legacySemantics = false) (le : now ≤ U64.max) :
    Restorable ((sems.acquireFrom (sems.entry input) f revision now input).1,
      (sems.acquireFrom (sems.entry input) f revision now input).2.1) := by
  have ⟨entry, below⟩ := r.entry range legacy
  have inserted := r.insert entry below
  have mem : (sems.insert input.key (sems.entry input))[input.key]? = some (sems.entry input) := by
    simp
  simp only [Semaphores.acquireFrom]
  split
  case h_1 => exact inserted
  case h_2 none =>
    have alone : ∀ slot ∈ (sems.entry input).holders, slot.holder ≠ input.holder := by
      intro slot h eq
      have ne : slot.requestId ≠ input.requestId := by
        simpa [eq, legacy] using List.find?_eq_none.mp none slot h
      rcases entry_cases sems input with ⟨hh, _⟩ | ⟨sem, mem, hh, _⟩
      case inl => simp [hh] at h
      case inr => exact ne (a.once sem mem slot (hh ▸ h) eq)
    split
    case isTrue free =>
      simp only [Bool.and_eq_true, decide_eq_true_eq] at free
      split
      case h_1 => exact inserted
      case h_2 token f₂ next =>
        obtain ⟨ne, fresh, le⟩ := inserted.fresh mem next
        refine (r.mint next).insert (entry.give free.1 a.holder ne a.request fresh alone ?_)
          (holders_append next le rfl)
        have empty : (sems.entry input).queue.entries = [] := by
          simpa [IndexedQueue.isEmpty] using free.2
        simp [empty]
    case isFalse =>
      refine r.insert (enqueue_restorable entry range a legacy le alone) ?_
      simpa using below

theorem Restorable.applySemaphoreAcquire {ledger : CancellationLedger}
    (r : Restorable (sems, f)) (range : InRange input) (a : Admits sems input)
    (legacy : input.legacySemantics = false) (le : now ≤ U64.max) :
    Restorable ((sems.applySemaphoreAcquire ledger f revision now input).1,
      (sems.applySemaphoreAcquire ledger f revision now input).2.1) := by
  simp only [Semaphores.applySemaphoreAcquire]
  split
  case isTrue => exact r
  case isFalse =>
    split
    case h_1 => exact r
    case h_2 => exact r.acquireFrom range a legacy le

end Semaphores

namespace Store

variable {s : Store} {o : IterOrder} {c : Command} {now revision : Nat}

open Semaphores (InRange Admits)

theorem applySemaphoreAcquire_restorable {input : SemaphoreAcquireInput}
    (r : Semaphores.Restorable (s.semaphores, s.fencing)) (range : InRange input)
    (a : Admits s.semaphores input) (legacy : input.legacySemantics = false) (le : now ≤ U64.max) :
    Semaphores.Restorable ((s.applySemaphoreAcquire revision now input).1.semaphores,
      (s.applySemaphoreAcquire revision now input).1.fencing) :=
  Semaphores.Restorable.applySemaphoreAcquire r range a legacy le

theorem applyAt_semaphores_restorable (r : Semaphores.Restorable (s.semaphores, s.fencing))
    (le : now ≤ U64.max) (legacy : c.isLegacySemaphoreAcquire = false)
    (h : ∀ input, c.semaphoreRequest = some input →
      InRange input ∧ Admits (s.prepare o c now).semaphores input) :
    Semaphores.Restorable ((s.applyAt o c now).1.semaphores, (s.applyAt o c now).1.fencing) := by
  cases request : c.semaphoreRequest
  case none => exact applyAt_steps.semaphores.restorable request r
  case some input =>
    have ⟨range, a⟩ := h input request
    have e : Semaphores.Steps (.taskCancel "") now (s.semaphores, s.fencing)
      ((s.prepare o c now).semaphores, (s.prepare o c now).fencing) := prepare_semaphoreSteps
    have prepared := e.restorable rfl r
    have modern := Semaphores.not_legacy legacy request
    simp only [applyAt]
    generalize s.prepare o c now = s at prepared a
    cases c <;> cases request
    case semaphoreAcquire => contradiction
    case semaphoreAcquireV2 => exact applySemaphoreAcquire_restorable prepared range a modern le
    case semaphoreAcquireAttempt =>
      exact applySemaphoreAcquire_restorable prepared range a modern le

-- Semaphores restore after every run in which no one acquires a second permit of a semaphore under
-- another request id while the first one is out. Other commands may come in between.
theorem semaphores_restore
    (r : Runs (fun s o c now =>
      now ≤ U64.max ∧ c.isLegacySemaphoreAcquire = false ∧
      ∀ input, c.semaphoreRequest = some input →
        InRange input ∧ Admits (s.prepare o c now).semaphores input) .empty s) (o : IterOrder) :
    s.semaphores.validateRestored o = .ok () := by
  have restorable : Semaphores.Restorable (s.semaphores, s.fencing) := by
    induction r
    case refl => exact .empty
    case apply h _ ih => exact applyAt_semaphores_restorable ih h.1 h.2.1 h.2.2
  exact Semaphores.validateRestored_eq_ok_iff.mpr fun key sem mem => (restorable key sem mem).1

omit [External] in
-- The second holder has to wait.
theorem semaphores_restore_waiting :
    letI := External.fixed
    let s₁ := (Store.empty.applyAt .sorted (.semaphoreAcquireAttempt "k" "h" "r" 1 10 true none) 0).1
    let s₂ := (s₁.applyAt .sorted (.semaphoreAcquireV2 "k" "w" 1 10 true none) 1).1
    (s₂.semaphores["k"]?.map fun sem => (sem.holders.length, sem.queue.len)) = some (1, 1) ∧
    s₂.semaphores.validateRestored .sorted = .ok () := by
  let := External.fixed
  intro s₁ s₂
  refine ⟨by decide +kernel, semaphores_restore (.apply ⟨by decide, rfl, ?_⟩
    (.apply ⟨by decide, rfl, ?_⟩ .refl)) .sorted⟩
  case refine_1 =>
    intro input request
    cases request
    refine ⟨⟨by decide, by decide, by decide, by decide, by decide⟩, by decide, by decide, ?_⟩
    intro sem mem slot h
    have holders : ((s₁.prepare .sorted (.semaphoreAcquireV2 "k" "w" 1 10 true none)
        1).semaphores["k"]?.map fun sem => sem.holders.map (·.holder)) = some ["h"] := by
      decide +kernel
    have names : sem.holders.map (·.holder) = ["h"] :=
      Option.some.inj ((congrArg _ mem).symm.trans holders)
    have name : slot.holder ∈ ["h"] := names ▸ List.mem_map.mpr ⟨slot, h, rfl⟩
    intro eq
    simp [eq] at name
  case refine_2 =>
    intro input request
    cases request
    refine ⟨⟨by decide, by decide, by decide, by decide, by decide⟩, by decide, by decide, ?_⟩
    intro sem mem
    have none : (Store.empty.prepare .sorted
        (.semaphoreAcquireAttempt "k" "h" "r" 1 10 true none) 0).semaphores["k"]?.isNone := by
      decide +kernel
    simp [mem] at none

omit [External] in
-- One holder acquires twice with different request ids. Both permits are given, and the store then
-- refuses its own snapshot.
theorem semaphores_restore_same_holder :
    letI := External.fixed
    let first := Command.semaphoreAcquireAttempt "k" "h" "r1" 2 10 true none
    let second := Command.semaphoreAcquireAttempt "k" "h" "r2" 2 10 true none
    let s₁ := (Store.empty.applyAt .sorted first 0).1
    let s₂ := (s₁.applyAt .sorted second 0).1
    (∀ c ∈ [first, second], c.isLegacySemaphoreAcquire = false ∧
      ∀ input, c.semaphoreRequest = some input → InRange input ∧
        Validate.validStoredHolder input.holder = true ∧ invalidRequestId input.requestId = false) ∧
    s₂.semaphores.validateRestored .sorted =
      .error "semaphore 'k' carries an invalid holder" := by
  let := External.fixed
  intro first second s₁ s₂
  refine ⟨fun c h => ?_, by decide +kernel⟩
  simp only [List.mem_cons, List.not_mem_nil, or_false] at h
  rcases h with rfl | rfl
  case inl =>
    refine ⟨rfl, fun input request => ?_⟩
    cases request
    exact ⟨⟨by decide, by decide, by decide, by decide, by decide⟩, by decide, by decide⟩
  case inr =>
    refine ⟨rfl, fun input request => ?_⟩
    cases request
    exact ⟨⟨by decide, by decide, by decide, by decide, by decide⟩, by decide, by decide⟩

end Store
