import FiduciaNode.State.Theorems.FencingFloor
import FiduciaNode.State.Theorems.WakeUps

-- Who asked for a permit, in which attempt.
def SemaphoreSlot.attempt (slot : SemaphoreSlot) : String × Option String :=
  (slot.holder, slot.requestId)

def QueuedPermit.attempt (waiter : QueuedPermit) : String × Option String :=
  (waiter.holder, waiter.requestId)

-- Permits that differ in their lease at most.
def SemaphoreSlot.Same (a b : SemaphoreSlot) : Prop :=
  a.fencingToken = b.fencingToken ∧ a.attempt = b.attempt

-- The tokens of the permits are distinct, as they are given in their order, and no attempt has two
-- permits or waits for a second one.
structure Semaphore.Exclusive (sem : Semaphore) : Prop where
  tokens   : (sem.holders.map (·.fencingToken)).Pairwise (· < ·)
  attempts : (sem.holders.map (·.attempt)).Nodup
  waiting  : ∀ e ∈ sem.queue.entries, e.2.attempt ∉ sem.holders.map (·.attempt)

namespace Semaphores

variable {sems sems₁ sems₂ : Semaphores} {t t₁ t₂ t₃ : Table} {c : Command} {sem sem' : Semaphore}
variable {key key' : String} {now : Nat} {f f₁ f₂ : FencingCounter}

section Exclusive

-- A renewed permit keeps its token and its attempt.
theorem Exclusive.renew (x : sem.Exclusive) {before after : List SemaphoreSlot} {slot : SemaphoreSlot}
    (holders : sem.holders = before ++ slot :: after) (lease : Nat) :
    Semaphore.Exclusive
      { sem with holders := before ++ { slot with leaseExpiresMs := lease } :: after } where
  tokens   := by simpa [holders] using x.tokens
  attempts := by simpa [holders, SemaphoreSlot.attempt] using x.attempts
  waiting  := by simpa [holders, SemaphoreSlot.attempt] using x.waiting

-- Fewer permits and fewer waiters.
theorem Exclusive.sublist (x : sem.Exclusive) (holders : sem'.holders.Sublist sem.holders)
    (queue : sem'.queue.entries ⊆ sem.queue.entries) : sem'.Exclusive where
  tokens        := x.tokens.sublist (holders.map _)
  attempts      := x.attempts.sublist (holders.map _)
  waiting e mem := fun h => x.waiting e (queue mem) ((holders.map _).subset h)

theorem Exclusive.give (x : sem.Exclusive) {slot : SemaphoreSlot}
    (above : ∀ old ∈ sem.holders, old.fencingToken < slot.fencingToken)
    (fresh : slot.attempt ∉ sem.holders.map (·.attempt)) (queue : sem'.queue.entries ⊆ sem.queue.entries)
    (others : ∀ e ∈ sem'.queue.entries, e.2.attempt ≠ slot.attempt)
    (holders : sem'.holders = sem.holders ++ [slot]) : sem'.Exclusive where
  tokens := by
    simp only [holders, List.map_append, List.map_cons, List.map_nil, List.pairwise_append]
    refine ⟨x.tokens, by simp, ?_⟩
    simpa using above
  attempts := by
    simp only [holders, List.map_append, List.map_cons, List.map_nil, List.nodup_append]
    refine ⟨x.attempts, by simp, ?_⟩
    intro a ha b hb
    rw [List.mem_singleton.mp hb]
    exact fun h => fresh (h ▸ ha)
  waiting e mem := by
    simp only [holders, List.map_append, List.map_cons, List.map_nil, List.mem_append,
      List.mem_singleton, not_or]
    exact ⟨x.waiting e (queue mem), others e mem⟩

theorem fresh_attempt {input : SemaphoreAcquireInput} (h : ∀ slot ∈ sem.holders,
      slot.holder = input.holder → slot.requestId ≠ input.requestId) :
    (input.holder, input.requestId) ∉ sem.holders.map (·.attempt) := by
  intro mem
  have ⟨slot, mem, e⟩ := List.mem_map.mp mem
  have ⟨holder, requestId⟩ := Prod.mk.inj e
  exact h slot mem holder requestId

-- A holder waits once at a semaphore.
theorem front_attempt {holder : String} {waiter : QueuedPermit}
    (indexed : ∀ e ∈ sem.queue.entries, e.1 = e.2.holder)
    (front : sem.queue.front = some (holder, waiter)) :
    ∀ e ∈ sem.queue.popFront.entries, e.2.attempt ≠ waiter.attempt := by
  have ⟨rest, hq⟩ : ∃ rest, sem.queue.entries = (holder, waiter) :: rest := by
    simp only [IndexedQueue.front, List.head?_eq_some_iff] at front
    exact front
  intro e mem h
  simp only [IndexedQueue.popFront, hq, List.tail_cons] at mem
  have nodup := sem.queue.nodup
  simp only [hq, List.map_cons, List.nodup_cons] at nodup
  refine nodup.1 (List.mem_map.mpr ⟨e, mem, ?_⟩)
  calc
    e.1 = e.2.holder      := indexed e (hq ▸ .tail _ mem)
    _   = waiter.holder   := (Prod.mk.inj h).1
    _   = holder          := (indexed (holder, waiter) (hq ▸ .head _)).symm

structure Sound (t : Table) : Prop where
  exclusive : HashMap.Each Semaphore.Exclusive t.1
  below     : t.1.Below t.2.nextFencingToken
  indexed   : t.1.Indexed

theorem Exclusive.empty (limit : Nat) : Semaphore.Exclusive ⟨limit, [], .empty⟩ where
  tokens   := .nil
  attempts := .nil
  waiting  := by simp [IndexedQueue.empty]

theorem Step.exclusive (e : Step c now t₁ t₂) (x : Sound t₁) :
    HashMap.Each Semaphore.Exclusive t₂.1 := by
  have ⟨x, below, indexed⟩ := x
  cases e with
  | mint => exact x
  | sweep =>
    refine each_sweep x fun sem x => Exclusive.sublist x List.filter_sublist fun e mem => ?_
    exact (IndexedQueue.mem_retain.mp mem).1
  | renew mem holders lease => exact x.insert (Exclusive.renew (x _ _ mem) holders lease)
  | release mem => exact x.insert (Exclusive.sublist (x _ _ mem) List.filter_sublist fun _ h => h)
  | cancel mem =>
    refine x.insert (Exclusive.sublist (x _ _ mem) (List.Sublist.refl _) fun e h => ?_)
    exact (IndexedQueue.mem_remove.mp h).1
  | @enter input sems =>
    refine x.insert ?_
    rcases entry_cases sems input with ⟨holders, queue⟩ | ⟨sem, mem, holders, queue⟩
    case inl => exact Exclusive.sublist (Exclusive.empty 0) (by simp [holders]) (by simp [queue])
    case inr => exact Exclusive.sublist (x _ sem mem) (by simp [holders]) (by simp [queue])
  | @enqueue input sems sem _ request mem fresh =>
    have old := x _ _ mem
    refine x.insert ⟨by simpa using old.tokens, by simpa using old.attempts, fun e he => ?_⟩
    rw [enqueue_holders]
    rcases enqueue_entries he with he | ⟨_, holder, requestId⟩
    case inl => exact old.waiting e he
    case inr =>
      simp only [QueuedPermit.attempt, holder, requestId]
      exact fresh_attempt fresh
  | @grant input sems sem _ token _ request mem fresh free empty lease next =>
    have ⟨ht, _, _⟩ := FencingCounter.nextToken_eq_some_iff.mp next
    have empty : sem.queue.entries = [] := by simpa [IndexedQueue.isEmpty] using empty
    refine x.insert (Exclusive.give (x _ _ mem) ?above ?fresh ?queue ?others rfl)
    case above =>
      intro old mem'
      have := below _ _ mem old mem'
      simp only at this ⊢
      omega
    case fresh => exact fresh_attempt fresh
    case queue => exact fun _ h => h
    case others => simp [empty]
  | @promote sems key sem holder waiter _ token _ mem free front live next =>
    have ⟨ht, _, _⟩ := FencingCounter.nextToken_eq_some_iff.mp next
    refine x.insert (Exclusive.give (x _ _ mem) ?above ?fresh popFront_subset ?others rfl)
    case above =>
      intro old mem'
      have := below _ _ mem old mem'
      simp only at this ⊢
      omega
    case fresh => exact (x _ _ mem).waiting _ (front_mem front)
    case others => exact front_attempt (indexed _ _ mem) front

theorem Steps.sound (e : Steps c now t₁ t₂) (x : Sound t₁) : Sound t₂ := by
  induction e
  case refl => exact x
  case tail e ih => exact ⟨e.exclusive ih, e.below ih.below, e.indexed ih.indexed⟩

end Exclusive

section Limits

-- The limit of a semaphore never changes.
theorem Step.limit (e : Step c now t₁ t₂) (h : c.isLegacySemaphoreAcquire = false)
    (mem : t₁.1[key]? = some sem) : ∃ sem', t₂.1[key]? = some sem' ∧ sem'.limit = sem.limit := by
  have insert {sems : Semaphores} {sem₁ sem₂ : Semaphore} {key' : String}
      (mem : sems[key]? = some sem) (mem' : sems[key']? = some sem₁) (limit : sem₂.limit = sem₁.limit) :
      ∃ sem', (sems.insert key' sem₂)[key]? = some sem' ∧ sem'.limit = sem.limit := by
    by_cases hk : key' = key
    case neg => exact ⟨sem, by simp [hk, mem], rfl⟩
    case pos =>
      subst hk
      cases mem.symm.trans mem'
      exact ⟨sem₂, by simp, limit⟩
  cases e with
  | mint => exact ⟨sem, mem, rfl⟩
  | sweep => exact ⟨sem.sweep now, by simpa [Semaphores.sweep] using ⟨sem, mem, rfl⟩, rfl⟩
  | renew mem' => exact insert mem mem' rfl
  | release mem' => exact insert mem mem' rfl
  | cancel mem' => exact insert mem mem' rfl
  | enqueue _ mem' => exact insert mem mem' enqueue_limit
  | grant _ mem' => exact insert mem mem' rfl
  | promote mem' => exact insert mem mem' rfl
  | @enter input sems _ request =>
    by_cases hk : input.key = key
    case neg => exact ⟨sem, by simpa [hk] using mem, rfl⟩
    case pos =>
      refine ⟨sems.entry input, by simp [hk], ?_⟩
      have mem : sems[input.key]? = some sem := hk ▸ mem
      simp [entry_eq (not_legacy h request), mem]

theorem Steps.limit (e : Steps c now t₁ t₂) (h : c.isLegacySemaphoreAcquire = false)
    (mem : t₁.1[key]? = some sem) : ∃ sem', t₂.1[key]? = some sem' ∧ sem'.limit = sem.limit := by
  induction e
  case refl => exact ⟨sem, mem, rfl⟩
  case tail e ih =>
    have ⟨sem', mem, limit⟩ := ih
    have ⟨sem'', mem, limit'⟩ := e.limit h mem
    exact ⟨sem'', mem, limit'.trans limit⟩

-- A semaphore is created by an acquire, with the limit that it asks for.
theorem Step.created (e : Step c now t₁ t₂) (h : c.isLegacySemaphoreAcquire = false)
    (absent : t₁.1[key]? = none) (mem : t₂.1[key]? = some sem) :
    ∃ input, c.semaphoreRequest = some input ∧ input.key = key ∧ sem.limit = input.limit := by
  have insert {sems : Semaphores} {sem₁ sem₂ : Semaphore} {key' : String}
      (absent : sems[key]? = none) (mem' : sems[key']? = some sem₁)
      (mem : (sems.insert key' sem₂)[key]? = some sem) : False := by
    have hk : key' ≠ key := fun hk => by simp [← hk, mem'] at absent
    simp [hk, absent] at mem
  cases e with
  | mint => simp [absent] at mem
  | sweep => simp [Semaphores.sweep, absent] at mem
  | renew mem' => exact (insert absent mem' mem).elim
  | release mem' => exact (insert absent mem' mem).elim
  | cancel mem' => exact (insert absent mem' mem).elim
  | enqueue _ mem' => exact (insert absent mem' mem).elim
  | grant _ mem' => exact (insert absent mem' mem).elim
  | promote mem' => exact (insert absent mem' mem).elim
  | @enter input sems _ request =>
    by_cases hk : input.key = key
    case neg => simp [hk, absent] at mem
    case pos =>
      refine ⟨input, request, hk, ?_⟩
      subst hk
      simp only [entry_eq (not_legacy h request), show sems[input.key]? = none from absent,
        Option.getD_none, HashMap.get_insert, ↓reduceIte, Option.some.injEq] at mem
      exact mem ▸ rfl

theorem Steps.created (e : Steps c now t₁ t₂) (h : c.isLegacySemaphoreAcquire = false)
    (absent : t₁.1[key]? = none) (mem : t₂.1[key]? = some sem) :
    ∃ input, c.semaphoreRequest = some input ∧ input.key = key ∧ sem.limit = input.limit := by
  induction e generalizing sem
  case refl => simp [absent] at mem
  case tail t₂ t₃ _ e ih =>
    cases before : t₂.1[key]?
    case none => exact e.created h before mem
    case some sem' =>
      have ⟨sem'', mem', limit⟩ := e.limit h before
      cases mem.symm.trans mem'
      exact limit ▸ ih before

end Limits

section Order

def queueOf (sems : Semaphores) (key : String) : List (String × QueuedPermit) :=
  (sems[key]?.map (·.queue.entries)).getD []

def holdersOf (sems : Semaphores) (key : String) : List SemaphoreSlot :=
  (sems[key]?.map (·.holders)).getD []

theorem queueOf_eq (mem : sems[key]? = some sem) : sems.queueOf key = sem.queue.entries := by
  simp [queueOf, mem]

theorem holdersOf_eq (mem : sems[key]? = some sem) : sems.holdersOf key = sem.holders := by
  simp [holdersOf, mem]

-- What a command hands out at a semaphore: its request joins the queue at the end, the requests
-- `served` leave it at the front and get the permits `given`, in this order and with tokens in this
-- order. Requests that are cancelled or due are passed over.
structure Serves (c : Command) (now : Nat) (key : String) (t₁ t₂ : Table)
    (arrivals served : List (String × QueuedPermit)) (given : List SemaphoreSlot) : Prop where
  order    : (served ++ t₂.1.queueOf key).Sublist (t₁.1.queueOf key ++ arrivals)
  arrived  : ∀ e ∈ arrivals, ∃ input, c.semaphoreRequest = some input ∧ input.key = key ∧
    e.1 = input.holder ∧ e.2.attempt = (input.holder, input.requestId)
  passed   : ∀ e ∈ t₁.1.queueOf key ++ arrivals, e ∈ served ++ t₂.1.queueOf key ∨
    c.CancelsPermit key e.1 e.2 ∨ waiterIsLive e.2.waitExpiresMs now = false
  handed   : given.map (·.attempt) = served.map (·.2.attempt)
  tokens   : (given.map (·.fencingToken)).Pairwise (· < ·)
  range    : ∀ slot ∈ given,
    t₁.2.nextFencingToken < slot.fencingToken ∧ slot.fencingToken ≤ t₂.2.nextFencingToken
  holders  : ∀ slot ∈ t₂.1.holdersOf key, ∃ old ∈ t₁.1.holdersOf key ++ given, slot.Same old

-- Nothing is handed out.
theorem Serves.still (queue : (t₂.1.queueOf key).Sublist (t₁.1.queueOf key))
    (passed : ∀ e ∈ t₁.1.queueOf key, e ∈ t₂.1.queueOf key ∨ c.CancelsPermit key e.1 e.2 ∨
      waiterIsLive e.2.waitExpiresMs now = false)
    (holders : ∀ slot ∈ t₂.1.holdersOf key, ∃ old ∈ t₁.1.holdersOf key, slot.Same old) :
    Serves c now key t₁ t₂ [] [] [] where
  order    := by simpa using queue
  arrived  := by simp
  passed   := by simpa using passed
  handed   := rfl
  tokens   := .nil
  range    := by simp
  holders  := by simpa using holders

theorem Serves.refl : Serves c now key t t [] [] [] :=
  .still (List.Sublist.refl _) (fun _ h => .inl h) fun slot h => ⟨slot, h, rfl, rfl⟩

theorem Serves.trans {arrivals₁ arrivals₂ served₁ served₂ : List (String × QueuedPermit)}
    {given₁ given₂ : List SemaphoreSlot} (le₁ : t₁.2.nextFencingToken ≤ t₂.2.nextFencingToken)
    (le₂ : t₂.2.nextFencingToken ≤ t₃.2.nextFencingToken)
    (s₁ : Serves c now key t₁ t₂ arrivals₁ served₁ given₁)
    (s₂ : Serves c now key t₂ t₃ arrivals₂ served₂ given₂) :
    Serves c now key t₁ t₃ (arrivals₁ ++ arrivals₂) (served₁ ++ served₂) (given₁ ++ given₂) where
  order := by
    have h₁ := s₁.order.append_right arrivals₂
    have h₂ := s₂.order.append_left served₁
    simp only [List.append_assoc] at h₁ h₂ ⊢
    exact h₂.trans h₁
  arrived := by
    simp only [List.mem_append]
    rintro e (h | h)
    case inl => exact s₁.arrived e h
    case inr => exact s₂.arrived e h
  passed := by
    have first := s₁.passed
    have second := s₂.passed
    simp only [List.mem_append] at first second ⊢
    rintro e (h | h | h)
    case inl =>
      rcases first e (.inl h) with (h | h) | h
      case inl.inl => exact .inl (.inl (.inl h))
      case inl.inr => exact (second e (.inl h)).imp_left fun h => h.imp_left .inr
      case inr => exact .inr h
    case inr.inl =>
      rcases first e (.inr h) with (h | h) | h
      case inl.inl => exact .inl (.inl (.inl h))
      case inl.inr => exact (second e (.inl h)).imp_left fun h => h.imp_left .inr
      case inr => exact .inr h
    case inr.inr => exact (second e (.inr h)).imp_left fun h => h.imp_left .inr
  handed := by simp [s₁.handed, s₂.handed]
  tokens := by
    simp only [List.map_append, List.pairwise_append]
    refine ⟨s₁.tokens, s₂.tokens, ?_⟩
    intro a ha b hb
    have ⟨slot₁, h₁, ha⟩ := List.mem_map.mp ha
    have ⟨slot₂, h₂, hb⟩ := List.mem_map.mp hb
    exact ha ▸ hb ▸ (s₁.range slot₁ h₁).2.trans_lt (s₂.range slot₂ h₂).1
  range := by
    simp only [List.mem_append]
    rintro slot (h | h)
    case inl => exact ⟨(s₁.range slot h).1, (s₁.range slot h).2.trans le₂⟩
    case inr => exact ⟨le₁.trans_lt (s₂.range slot h).1, (s₂.range slot h).2⟩
  holders := by
    intro slot h
    have ⟨old, h, same⟩ := s₂.holders slot h
    rcases List.mem_append.mp h with h | h
    case inr => exact ⟨old, by simp [h], same⟩
    case inl =>
      have ⟨older, h, same'⟩ := s₁.holders old h
      refine ⟨older, ?_, same.1.trans same'.1, same.2.trans same'.2⟩
      simp only [List.mem_append] at h ⊢
      exact h.imp_right .inl

-- Another semaphore is replaced.
theorem Serves.other (hk : key' ≠ key) : Serves c now key (sems, f₁) (sems.insert key' sem', f₂) [] [] [] := by
  have queue : queueOf (sems.insert key' sem') key = sems.queueOf key := by simp [queueOf, hk]
  have holders : holdersOf (sems.insert key' sem') key = sems.holdersOf key := by simp [holdersOf, hk]
  refine .still ?_ ?_ ?_
  case refine_1 => simp [queue]
  case refine_2 => exact fun e h => .inl (queue ▸ h)
  case refine_3 => exact fun slot h => ⟨slot, holders ▸ h, rfl, rfl⟩

-- The semaphore is replaced and nothing is handed out.
theorem Serves.replaced (mem : sems[key']? = some sem)
    (queue : sem'.queue.entries.Sublist sem.queue.entries)
    (passed : ∀ e ∈ sem.queue.entries, e ∈ sem'.queue.entries ∨ c.CancelsPermit key' e.1 e.2)
    (holders : ∀ slot ∈ sem'.holders, ∃ old ∈ sem.holders, slot.Same old) :
    Serves c now key (sems, f) (sems.insert key' sem', f) [] [] [] := by
  by_cases hk : key' = key
  case neg => exact .other hk
  case pos =>
    subst hk
    have after : (sems.insert key' sem')[key']? = some sem' := by simp
    refine .still ?_ ?_ ?_
    case refine_1 => simpa only [queueOf_eq mem, queueOf_eq after] using queue
    case refine_2 =>
      simp only [queueOf_eq mem, queueOf_eq after]
      exact fun e h => (passed e h).imp_right .inl
    case refine_3 => simpa only [holdersOf_eq mem, holdersOf_eq after] using holders

-- An acquire finds the semaphore as it was before, or creates one that nobody waits at.
theorem Serves.enter {input : SemaphoreAcquireInput} :
    Serves c now key (sems, f) (sems.insert input.key (sems.entry input), f) [] [] [] := by
  by_cases hk : input.key = key
  case neg => exact .other hk
  case pos =>
    subst hk
    cases mem : sems[input.key]?
    case some sem =>
      have ⟨holders, queue⟩ : (sems.entry input).holders = sem.holders ∧
          (sems.entry input).queue = sem.queue := by
        simp only [Semaphores.entry, mem]
        split <;> exact ⟨rfl, rfl⟩
      refine .replaced mem (by simp [queue]) (fun e h => .inl (queue ▸ h)) fun slot h => ?_
      exact ⟨slot, holders ▸ h, rfl, rfl⟩
    case none =>
      have before : sems.queueOf input.key = [] := by simp [queueOf, mem]
      refine .still ?_ ?_ ?_
      case refine_1 => simp [queueOf, Semaphores.entry, mem, IndexedQueue.empty]
      case refine_2 => simp [before]
      case refine_3 => simp [holdersOf, Semaphores.entry, mem]

-- The request of the command waits at the end of the queue, unless its holder waits already.
theorem Serves.enqueue {input : SemaphoreAcquireInput} (request : c.semaphoreRequest = some input)
    (mem : sems[input.key]? = some sem) :
    ∃ arrivals, Serves c now key (sems, f)
      (sems.insert input.key (Semaphores.enqueue sem now input), f) arrivals [] [] := by
  by_cases hk : input.key = key
  case neg => exact ⟨[], .other hk⟩
  case pos =>
    subst hk
    have after : (sems.insert input.key (Semaphores.enqueue sem now input))[input.key]? =
      some (Semaphores.enqueue sem now input) := by simp
    have ⟨arrivals, queue, arrived⟩ : ∃ arrivals,
        (Semaphores.enqueue sem now input).queue.entries = sem.queue.entries ++ arrivals ∧
        ∀ e ∈ arrivals, e.1 = input.holder ∧ e.2.attempt = (input.holder, input.requestId) := by
      simp only [Semaphores.enqueue]
      split
      case isFalse => exact ⟨[], by simp, by simp⟩
      case isTrue h =>
        simp only [Bool.and_eq_true, Bool.not_eq_true'] at h
        refine ⟨_, IndexedQueue.entries_pushBack h.2, ?_⟩
        simp [QueuedPermit.attempt]
    refine ⟨arrivals, ?_⟩
    constructor
    case order => simp [queueOf_eq mem, queueOf_eq after, queue]
    case arrived => exact fun e h => ⟨input, request, rfl, arrived e h⟩
    case passed =>
      simp only [queueOf_eq mem, queueOf_eq after, queue]
      exact fun e h => .inl h
    case handed => rfl
    case tokens => exact .nil
    case range => simp
    case holders =>
      simp only [holdersOf_eq mem, holdersOf_eq after, enqueue_holders, List.append_nil]
      exact fun slot h => ⟨slot, h, rfl, rfl⟩

-- The first request gets a permit.
theorem Serves.give {e : String × QueuedPermit} {slot : SemaphoreSlot}
    {arrivals : List (String × QueuedPermit)} (mem : sems[key]? = some sem)
    (queue : sem.queue.entries ++ arrivals = e :: sem'.queue.entries)
    (arrived : ∀ e ∈ arrivals, ∃ input, c.semaphoreRequest = some input ∧ input.key = key ∧
      e.1 = input.holder ∧ e.2.attempt = (input.holder, input.requestId))
    (attempt : slot.attempt = e.2.attempt) (holders : sem'.holders = sem.holders ++ [slot])
    (next : f₁.nextToken = some (slot.fencingToken, f₂)) :
    Serves c now key (sems, f₁) (sems.insert key sem', f₂) arrivals [e] [slot] := by
  have ⟨token, _, hf⟩ := FencingCounter.nextToken_eq_some_iff.mp next
  have after : (sems.insert key sem')[key]? = some sem' := by simp
  constructor
  case order => simp [queueOf_eq mem, queueOf_eq after, queue]
  case arrived => exact arrived
  case passed =>
    simp only [queueOf_eq mem, queueOf_eq after, queue]
    exact fun _ h => .inl h
  case handed => simp [attempt]
  case tokens => simp
  case range =>
    intro s h
    cases List.mem_singleton.mp h
    simp only [hf, FencingCounter.mint]
    omega
  case holders =>
    simp only [holdersOf_eq mem, holdersOf_eq after, holders]
    exact fun slot h => ⟨slot, h, rfl, rfl⟩

-- A request that finds a free permit and nobody waiting is served at once.
theorem Serves.grant {input : SemaphoreAcquireInput} {lease token : Nat}
    (request : c.semaphoreRequest = some input) (mem : sems[input.key]? = some sem)
    (empty : sem.queue.isEmpty) (next : f₁.nextToken = some (token, f₂)) :
    ∃ arrivals served given, Serves c now key (sems, f₁) (sems.insert input.key { sem with
      holders := sem.holders ++ [{
        holder := input.holder, fencingToken := token, leaseExpiresMs := lease
        requestId := input.requestId }] }, f₂) arrivals served given := by
  by_cases hk : input.key = key
  case neg => exact ⟨[], [], [], .other hk⟩
  case pos =>
    subst hk
    let entry : String × QueuedPermit := (input.holder, {
      holder := input.holder, ttlMs := input.ttlMs, requestedMs := now, waitExpiresMs := none
      requestId := input.requestId
    })
    have empty : sem.queue.entries = [] := by simpa [IndexedQueue.isEmpty] using empty
    refine ⟨[entry], [entry], _, .give mem (by simp [empty]) (fun e h => ?_) rfl rfl next⟩
    cases List.mem_singleton.mp h
    exact ⟨input, request, rfl, rfl, rfl⟩

theorem Serves.promote {holder : String} {waiter : QueuedPermit} {token : Nat}
    (mem : sems[key']? = some sem) (front : sem.queue.front = some (holder, waiter))
    (next : f₁.nextToken = some (token, f₂)) :
    ∃ served given, Serves c now key (sems, f₁)
      (sems.insert key' (sem.admitted waiter token now), f₂) [] served given := by
  by_cases hk : key' = key
  case neg => exact ⟨[], [], .other hk⟩
  case pos =>
    subst hk
    have ⟨rest, queue⟩ : ∃ rest, sem.queue.entries = (holder, waiter) :: rest := by
      simpa only [IndexedQueue.front, List.head?_eq_some_iff] using front
    refine ⟨[(holder, waiter)], _, .give mem ?_ (by simp) rfl rfl next⟩
    simp [Semaphore.admitted, IndexedQueue.popFront, queue]

theorem Serves.sweep : Serves c now key (sems, f) (sems.sweep now, f) [] [] [] := by
  cases mem : sems[key]?
  case none =>
    have after : (sems.sweep now)[key]? = none := by simp [Semaphores.sweep, mem]
    refine .still ?_ ?_ ?_
    case refine_1 => simp [queueOf, after]
    case refine_2 => simp [queueOf, mem]
    case refine_3 => simp [holdersOf, after]
  case some sem =>
    have after : (sems.sweep now)[key]? = some (sem.sweep now) := by simp [Semaphores.sweep, mem]
    refine .still ?_ ?_ ?_
    case refine_1 =>
      simp only [queueOf_eq mem, queueOf_eq after]
      exact List.filter_sublist
    case refine_2 =>
      simp only [queueOf_eq mem, queueOf_eq after]
      intro e h
      by_cases live : waiterIsLive e.2.waitExpiresMs now
      case pos => exact .inl (IndexedQueue.mem_retain.mpr ⟨h, live⟩)
      case neg => exact .inr (.inr (Bool.eq_false_iff.mpr live))
    case refine_3 =>
      simp only [holdersOf_eq mem, holdersOf_eq after]
      exact fun slot h => ⟨slot, (List.mem_filter.mp h).1, rfl, rfl⟩

theorem Step.serves (e : Step c now t₁ t₂) (key : String) :
    ∃ arrivals served given, Serves c now key t₁ t₂ arrivals served given := by
  cases e with
  | mint =>
    exact ⟨[], [], [], .still (List.Sublist.refl _) (fun _ h => .inl h) fun s h => ⟨s, h, rfl, rfl⟩⟩
  | sweep => exact ⟨[], [], [], .sweep⟩
  | renew mem holders =>
    refine ⟨[], [], [], .replaced mem (List.Sublist.refl _) (fun _ h => .inl h) fun slot h => ?_⟩
    have ⟨old, mem, holder, token, requestId⟩ := mem_renewed holders h
    exact ⟨old, mem, token, Prod.ext holder requestId⟩
  | release mem =>
    refine ⟨[], [], [], .replaced mem (List.Sublist.refl _) (fun _ h => .inl h) fun slot h => ?_⟩
    exact ⟨slot, (List.mem_filter.mp h).1, rfl, rfl⟩
  | cancel mem queued cancels =>
    refine ⟨[], [], [], .replaced mem List.filter_sublist (fun e h => ?_) fun s h => ⟨s, h, rfl, rfl⟩⟩
    rcases IndexedQueue.mem_remove_or_eq queued h with h | rfl
    case inl => exact .inl h
    case inr => exact .inr cancels
  | enter => exact ⟨[], [], [], .enter⟩
  | enqueue request mem => exact (Serves.enqueue request mem).imp fun _ s => ⟨[], [], s⟩
  | grant request mem _ _ empty _ next => exact Serves.grant request mem empty next
  | promote mem _ front _ next => exact ⟨[], Serves.promote mem front next⟩

theorem Steps.serves (e : Steps c now t₁ t₂) (key : String) :
    ∃ arrivals served given, Serves c now key t₁ t₂ arrivals served given := by
  induction e
  case refl => exact ⟨[], [], [], .refl⟩
  case tail es e ih =>
    have ⟨_, _, _, s₁⟩ := ih
    have ⟨_, _, _, s₂⟩ := e.serves key
    exact ⟨_, _, _, s₁.trans (FencingCounter.Steps.le (Steps.fencing es))
      (FencingCounter.Steps.le e.fencing) s₂⟩

end Order

end Semaphores

namespace Store

variable [External] {s : Store}

theorem Reachable.semaphores_sound (r : Reachable s) : Semaphores.Sound (s.semaphores, s.fencing) := by
  induction r
  case empty => exact ⟨.empty, .empty, .empty⟩
  case apply ih => exact applyAt_steps.semaphores.sound ih

theorem ReachableWithoutLegacy.reachable (r : ReachableWithoutLegacy s) : Reachable s := by
  induction r
  case refl => exact .empty
  case apply ih => exact .apply _ _ _ ih

-- Without legacy acquires, no more permits of a semaphore are out than the acquire that created it
-- allows, their tokens and their attempts are distinct, and permits are handed out in the order of
-- the queue.
theorem ReachableWithoutLegacy.semaphore_exclusion (r : ReachableWithoutLegacy s) (key : String) :
    (∀ sem, s.semaphores[key]? = some sem →
      sem.holders.length ≤ sem.limit ∧ (sem.holders.map (·.fencingToken)).Nodup ∧
      (sem.holders.map fun slot => (slot.holder, slot.requestId)).Nodup) ∧
    (∀ (o : IterOrder) (c : Command) (now : Nat), c.isLegacySemaphoreAcquire = false →
      (∀ sem, s.semaphores[key]? = none → (s.applyAt o c now).1.semaphores[key]? = some sem →
        ∃ input, c.semaphoreRequest = some input ∧ input.key = key ∧ sem.limit = input.limit) ∧
      (∀ sem, s.semaphores[key]? = some sem →
        ∃ sem', (s.applyAt o c now).1.semaphores[key]? = some sem' ∧ sem'.limit = sem.limit) ∧
      (∃ arrivals served given, Semaphores.Serves c now key (s.semaphores, s.fencing)
        ((s.applyAt o c now).1.semaphores, (s.applyAt o c now).1.fencing) arrivals served given)) := by
  constructor
  case left =>
    intro sem mem
    have x := r.reachable.semaphores_sound.exclusive key sem mem
    exact ⟨r.settled.2 key sem mem, x.tokens.imp Nat.ne_of_lt, x.attempts⟩
  case right =>
    intro o c now legacy
    have e : Semaphores.Steps c now (s.semaphores, s.fencing)
      ((s.applyAt o c now).1.semaphores, (s.applyAt o c now).1.fencing) := applyAt_steps.semaphores
    exact ⟨fun _ => e.created legacy, fun _ => e.limit legacy, e.serves key⟩

omit [External] in
-- Two waiters of a semaphore with one permit: the first to come is the first to get it.
theorem semaphore_exclusion_handover :
    letI := External.fixed
    let s₁ := (Store.empty.applyAt .sorted (.semaphoreAcquireV2 "k" "a" 1 10 true none) 0).1
    let s₂ := (s₁.applyAt .sorted (.semaphoreAcquireV2 "k" "b" 1 10 true none) 1).1
    let s₃ := (s₂.applyAt .sorted (.semaphoreAcquireV2 "k" "c" 1 10 true none) 2).1
    let s₄ := (s₃.applyAt .sorted (.semaphoreRelease "k" "a" 1) 3).1
    (s₄.semaphores.holdersOf "k").map (·.holder) = ["b"] ∧
    ∀ sem, s₄.semaphores["k"]? = some sem → sem.holders.length ≤ sem.limit := by
  let := External.fixed
  intro s₁ s₂ s₃ s₄
  have r : ReachableWithoutLegacy s₄ := .apply rfl (.apply rfl (.apply rfl (.apply rfl .refl)))
  have ⟨bounded, _⟩ := r.semaphore_exclusion "k"
  exact ⟨by decide +kernel, fun sem mem => (bounded sem mem).1⟩

end Store
