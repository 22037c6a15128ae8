import FiduciaNode.State.Theorems.Steps

namespace Command

def isLegacySemaphoreAcquire : Command → Bool
  | semaphoreAcquire .. => true
  | _ => false

end Command

namespace Semaphores

variable {sems : Semaphores} {t₁ t₂ : Table} {c : Command} {sem : Semaphore} {key : String}
variable {now : Nat}

theorem each_sweep {P : Semaphore → Prop} (e : HashMap.Each P sems)
    (h : ∀ sem, P sem → P (sem.sweep now)) : HashMap.Each P (sems.sweep now) := by
  intro key sem mem
  simp only [sweep, Std.ExtTreeMap.getElem?_map, Option.map_eq_some_iff] at mem
  obtain ⟨sem', mem, hs⟩ := mem
  exact hs ▸ h sem' (e key sem' mem)

-- A renewed permit differs from the old one in its lease only.
theorem mem_renewed {before after : List SemaphoreSlot} {slot slot' : SemaphoreSlot} {lease : Nat}
    (holders : sem.holders = before ++ slot :: after)
    (h : slot' ∈ before ++ { slot with leaseExpiresMs := lease } :: after) :
    ∃ old ∈ sem.holders, slot'.holder = old.holder ∧ slot'.fencingToken = old.fencingToken ∧
      slot'.requestId = old.requestId := by
  rw [holders]
  simp only [List.mem_append, List.mem_cons] at h ⊢
  rcases h with h | rfl | h
  case inl => exact ⟨slot', .inl h, rfl, rfl, rfl⟩
  case inr.inl => exact ⟨slot, .inr (.inl rfl), rfl, rfl, rfl⟩
  case inr.inr => exact ⟨slot', .inr (.inr h), rfl, rfl, rfl⟩

-- No more permits are out than the semaphore has.
abbrev Bounded : Semaphores → Prop :=
  HashMap.Each fun sem => sem.holders.length ≤ sem.limit

theorem entry_eq {input : SemaphoreAcquireInput} (h : input.legacySemantics = false) :
    sems.entry input = sems[input.key]?.getD ⟨input.limit, [], .empty⟩ := by
  simp only [entry, h]
  split <;> simp_all

theorem Bounded.entry (b : sems.Bounded) {input : SemaphoreAcquireInput}
    (h : input.legacySemantics = false) :
    (sems.entry input).holders.length ≤ (sems.entry input).limit := by
  rw [entry_eq h]
  cases mem : sems[input.key]?
  case none => exact Nat.zero_le _
  case some sem => exact b _ sem mem

@[simp]
theorem enqueue_holders : (Semaphores.enqueue sem now input).holders = sem.holders := by
  simp only [Semaphores.enqueue]
  split <;> rfl

@[simp]
theorem enqueue_limit : (Semaphores.enqueue sem now input).limit = sem.limit := by
  simp only [Semaphores.enqueue]
  split <;> rfl

theorem not_legacy {input : SemaphoreAcquireInput} (h : c.isLegacySemaphoreAcquire = false)
    (request : c.semaphoreRequest = some input) : input.legacySemantics = false := by
  cases c <;> cases request <;> first | rfl | contradiction

theorem Step.bounded (e : Step c now t₁ t₂) (h : c.isLegacySemaphoreAcquire = false)
    (b : t₁.1.Bounded) : t₂.1.Bounded := by
  cases e with
  | mint => exact b
  | renew mem holders => exact b.insert (by simpa [holders] using b _ _ mem)
  | release mem => exact b.insert ((List.length_filter_le _ _).trans (b _ _ mem))
  | cancel mem => exact b.insert (by simpa using b _ _ mem)
  | enter request => exact b.insert (b.entry (not_legacy h request))
  | enqueue request mem => exact b.insert (by simpa using b _ _ mem)
  | grant request mem fresh free => exact b.insert (by simpa using free)
  | promote mem free =>
    simp only [Semaphore.promotable, Bool.and_eq_true, decide_eq_true_eq] at free
    exact b.insert (by simpa [Semaphore.admitted] using free.1)
  | sweep => exact each_sweep b fun sem h => (List.length_filter_le _ _).trans h

theorem Steps.bounded (e : Steps c now t₁ t₂) (h : c.isLegacySemaphoreAcquire = false)
    (b : t₁.1.Bounded) : t₂.1.Bounded := by
  induction e
  case refl => exact b
  case tail e ih => exact e.bounded h ih

-- The queues are indexed by holder.
abbrev Indexed : Semaphores → Prop :=
  HashMap.Each fun sem => ∀ e ∈ sem.queue.entries, e.1 = e.2.holder

-- A request that joins a queue is the one of the command.
theorem enqueue_entries {input : SemaphoreAcquireInput} {e : String × QueuedPermit}
    (h : e ∈ (Semaphores.enqueue sem now input).queue.entries) :
    (e ∈ sem.queue.entries) ∨
    (e.1 = input.holder ∧ e.2.holder = input.holder ∧ e.2.requestId = input.requestId) := by
  simp only [Semaphores.enqueue] at h
  split at h
  case isFalse => exact .inl h
  case isTrue =>
    cases IndexedQueue.mem_pushBack h
    case inl h => exact .inl h
    case inr h => exact .inr (h ▸ ⟨rfl, rfl, rfl⟩)

theorem entry_cases (sems : Semaphores) (input : SemaphoreAcquireInput) :
    ((sems.entry input).holders = [] ∧ (sems.entry input).queue.entries = []) ∨
    (∃ sem, sems[input.key]? = some sem ∧ (sems.entry input).holders = sem.holders ∧
      (sems.entry input).queue = sem.queue) := by
  simp only [entry]
  split
  case h_1 => exact .inl ⟨rfl, rfl⟩
  case h_2 sem mem =>
    refine .inr ⟨sem, mem, ?_⟩
    split <;> exact ⟨rfl, rfl⟩

theorem Step.indexed (e : Step c now t₁ t₂) (i : t₁.1.Indexed) : t₂.1.Indexed := by
  cases e with
  | mint => exact i
  | renew mem => exact i.insert fun e h => i _ _ mem e h
  | release mem => exact i.insert fun e h => i _ _ mem e h
  | cancel mem => exact i.insert fun e h => i _ _ mem e (IndexedQueue.mem_remove.mp h).left
  | @enter input sems =>
    refine i.insert fun e he => ?_
    rcases entry_cases sems input with ⟨_, hq⟩ | ⟨sem, mem, _, hq⟩
    case inl => simp [hq] at he
    case inr => exact i _ sem mem e (hq ▸ he)
  | enqueue _ mem =>
    refine i.insert fun e h => ?_
    cases enqueue_entries h
    case inl h => exact i _ _ mem e h
    case inr h => exact h.1.trans h.2.1.symm
  | grant _ mem => exact i.insert fun e h => i _ _ mem e h
  | promote mem => exact i.insert fun e h => i _ _ mem e (popFront_subset h)
  | sweep => exact each_sweep i fun sem h e he => h e (IndexedQueue.mem_retain.mp he).left

theorem Steps.indexed (e : Steps c now t₁ t₂) (i : t₁.1.Indexed) : t₂.1.Indexed := by
  induction e
  case refl => exact i
  case tail e ih => exact e.indexed ih

end Semaphores

namespace Store

variable [External] {s : Store}

theorem Reachable.indexed (r : Reachable s) : s.semaphores.Indexed := by
  induction r
  case empty => exact .empty
  case apply ih => exact applyAt_steps.semaphores.indexed ih

end Store
