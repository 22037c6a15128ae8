import FiduciaNode.State.Theorems.Steps

namespace LockManager

variable {t₁ t₂ : Table} {c : Command} {now : Nat}

-- Once no token is left, a queued request goes only if it is cancelled or due.
def Keeps (c : Command) (now : Nat) (m₁ m₂ : LockManager) : Prop :=
  ∀ e ∈ m₁.queue.entries,
    e ∈ m₂.queue.entries ∨ c.CancelsLock e.1 e.2 ∨ waiterIsLive e.2.waitExpiresMs now = false

theorem enqueue_subset {m : LockManager} :
    m.queue.entries ⊆ (m.enqueue now input keys).queue.entries := by
  intro e h
  simp only [enqueue]
  split
  case isTrue => exact IndexedQueue.mem_pushBack_of_mem h
  case isFalse => exact h

theorem Step.keeps (e : Step c now t₁ t₂) (x : t₁.2.Exhausted) : Keeps c now t₁.1 t₂.1 := by
  have none := FencingCounter.nextToken_eq_none_iff.mpr x
  intro entry h
  cases e with
  | mint | renew => exact .inl h
  | release => exact .inl (by simpa using h)
  | enqueue => exact .inl (enqueue_subset h)
  | grant _ _ _ next => simp [none] at next
  | promote _ _ _ next => simp [none] at next
  | expire =>
    by_cases live : waiterIsLive entry.2.waitExpiresMs now
    case pos => exact .inl (IndexedQueue.mem_retain.mpr ⟨h, live⟩)
    case neg => exact .inr (.inr (Bool.eq_false_iff.mpr live))
  | cancel mem cancels =>
    cases IndexedQueue.mem_remove_or_eq mem h
    case inl h => exact .inl h
    case inr h => exact .inr (.inl (h ▸ cancels))

theorem Steps.keeps (e : Steps c now t₁ t₂) (x : t₁.2.Exhausted) : Keeps c now t₁.1 t₂.1 := by
  induction e
  case refl => exact fun _ h => .inl h
  case tail es e ih =>
    intro entry h
    cases ih entry h
    case inl h => exact e.keeps ((Steps.fencing es).eq_of_exhausted x ▸ x) entry h
    case inr h => exact .inr h

end LockManager

namespace Semaphores

variable {sems sems₁ sems₂ sems₃ : Semaphores} {t₁ t₂ : Table} {c : Command} {now : Nat}

def Queued (sems : Semaphores) (key : String) (e : String × QueuedPermit) : Prop :=
  ∃ sem, sems[key]? = some sem ∧ e ∈ sem.queue.entries

def Keeps (c : Command) (now : Nat) (sems₁ sems₂ : Semaphores) : Prop :=
  ∀ key e, sems₁.Queued key e →
    sems₂.Queued key e ∨ c.CancelsPermit key e.1 e.2 ∨ waiterIsLive e.2.waitExpiresMs now = false

-- It suffices to look at the one semaphore that is replaced.
theorem Queued.insert {sem sem' : Semaphore} {key key' : String} {e : String × QueuedPermit}
    (q : sems.Queued key' e) (mem : sems[key]? = some sem)
    (h : key = key' → e ∈ sem.queue.entries →
      e ∈ sem'.queue.entries ∨ c.CancelsPermit key' e.1 e.2) :
    Queued (sems.insert key sem') key' e ∨ c.CancelsPermit key' e.1 e.2 ∨
      waiterIsLive e.2.waitExpiresMs now = false := by
  have ⟨s, hs, he⟩ := q
  by_cases hk : key = key'
  case neg => exact .inl ⟨s, by simp [hk, hs], he⟩
  case pos =>
    subst hk
    cases mem.symm.trans hs
    cases h rfl he
    case inl h => exact .inl ⟨sem', by simp, h⟩
    case inr h => exact .inr (.inl h)

theorem enqueue_subset {sem : Semaphore} :
    sem.queue.entries ⊆ (Semaphores.enqueue sem now input).queue.entries := by
  intro e h
  simp only [Semaphores.enqueue]
  split
  case isTrue => exact IndexedQueue.mem_pushBack_of_mem h
  case isFalse => exact h

theorem entry_queue {sem : Semaphore} (mem : sems[input.key]? = some sem) :
    (sems.entry input).queue = sem.queue := by
  simp only [entry, mem]
  split <;> rfl

theorem Step.keeps (e : Step c now t₁ t₂) (x : t₁.2.Exhausted) : Keeps c now t₁.1 t₂.1 := by
  have none := FencingCounter.nextToken_eq_none_iff.mpr x
  intro key entry q
  cases e with
  | mint => exact .inl q
  | renew mem => exact q.insert mem fun _ h => .inl h
  | release mem => exact q.insert mem fun _ h => .inl h
  | enqueue _ mem => exact q.insert mem fun _ h => .inl (enqueue_subset h)
  | grant _ _ _ _ _ _ next => simp [none] at next
  | promote _ _ _ _ next => simp [none] at next
  | sweep =>
    have ⟨sem, hs, he⟩ := q
    by_cases live : waiterIsLive entry.2.waitExpiresMs now
    case neg => exact .inr (.inr (Bool.eq_false_iff.mpr live))
    case pos =>
      refine .inl ⟨sem.sweep now, ?_, IndexedQueue.mem_retain.mpr ⟨he, live⟩⟩
      simp [Semaphores.sweep, hs]
  | cancel mem queued cancels =>
    refine q.insert mem fun hk h => ?_
    cases IndexedQueue.mem_remove_or_eq queued h
    case inl h => exact .inl h
    case inr h => exact .inr (hk ▸ h ▸ cancels)
  | @enter input sems _ request =>
    have ⟨sem, hs, he⟩ := q
    by_cases hk : input.key = key
    case neg => exact .inl ⟨sem, by simp [hk, hs], he⟩
    case pos => exact .inl ⟨sems.entry input, by simp [hk], entry_queue (hk ▸ hs) ▸ he⟩

theorem Steps.keeps (e : Steps c now t₁ t₂) (x : t₁.2.Exhausted) : Keeps c now t₁.1 t₂.1 := by
  induction e
  case refl => exact fun _ _ h => .inl h
  case tail es e ih =>
    intro key entry h
    cases ih key entry h
    case inl h => exact e.keeps ((Steps.fencing es).eq_of_exhausted x ▸ x) key entry h
    case inr h => exact .inr h

end Semaphores

namespace Handoffs

def Fenced (handoffs : Handoffs) : Prop :=
  ∀ (name : String) (h : HandoffRecord), handoffs[name]? = some h → h.status = .accepted →
    ∃ token, h.toToken = some token ∧ h.fromToken < token

variable {handoffs : Handoffs} {fencing : FencingCounter} {now : Nat}

theorem Fenced.insert (f : Fenced handoffs) {record : HandoffRecord}
    (h : record.status = .accepted → ∃ token, record.toToken = some token ∧ record.fromToken < token) :
    Fenced (handoffs.insert name record) := by
  intro name' r hr
  rw [HashMap.get_insert] at hr
  split at hr
  case isTrue => exact Option.some.inj hr ▸ h
  case isFalse => exact f name' r hr

theorem Fenced.applyHandoffOffer (f : Fenced handoffs) :
    Fenced (handoffs.applyHandoffOffer fencing now name resource fromOwner toOwner fromToken context
      ttlMs).1 := by
  simp only [Handoffs.applyHandoffOffer]
  split
  case isTrue => exact f
  case isFalse =>
    split
    case h_1 => exact f
    case h_2 => exact f.insert (by simp)

theorem Fenced.applyHandoffAccept (f : Fenced handoffs) :
    Fenced (handoffs.applyHandoffAccept fencing now name toOwner).1 := by
  simp only [Handoffs.applyHandoffAccept]
  split
  case h_1 => exact f
  case h_2 =>
    split
    case isTrue => exact f
    case isFalse =>
      split
      case isTrue => exact f
      case isFalse =>
        split
        case h_1 => exact f
        case h_2 token _ minted =>
          obtain ⟨_, gt, _⟩ := FencingCounter.mintTokenAbove_eq_some minted
          exact f.insert fun _ => ⟨token, rfl, gt⟩

theorem Fenced.applyHandoffReject (f : Fenced handoffs) :
    Fenced (handoffs.applyHandoffReject now name toOwner).1 := by
  simp only [Handoffs.applyHandoffReject]
  split
  case h_1 => exact f
  case h_2 =>
    split
    case isTrue => exact f
    case isFalse =>
      split
      case isTrue => exact f
      case isFalse => exact f.insert (by simp)

end Handoffs

namespace Store

variable [External] {s : Store} {o : IterOrder} {c : Command} {now revision : Nat}

omit [External] in
theorem onHandoffs_handoffs {r : Handoffs × Value} (f : r.1.Fenced) :
    (s.onHandoffs r).1.handoffs.Fenced :=
  f

theorem applyCommand_handoffs (f : s.handoffs.Fenced) :
    (s.applyCommand o revision now c).1.handoffs.Fenced := by
  cases c
  case handoffOffer => exact onHandoffs_handoffs f.applyHandoffOffer
  case handoffAccept => exact f.applyHandoffAccept
  case handoffReject => exact onHandoffs_handoffs f.applyHandoffReject
  case taskClaim =>
    simp only [applyCommand, applyTaskClaim]
    split <;> exact f
  case activateCommandProtocol =>
    simp only [applyCommand, applyActivateCommandProtocol]
    split
    case isTrue => exact f
    case isFalse => split <;> exact f
  all_goals exact f

theorem applyAt_handoffs (f : s.handoffs.Fenced) : (s.applyAt o c now).1.handoffs.Fenced := by
  refine applyCommand_handoffs ?_
  simp only [prepare]
  split <;> exact f

theorem Reachable.fenced (r : Reachable s) : s.handoffs.Fenced := by
  induction r
  case empty => simp [Store.empty, Handoffs.Fenced]
  case apply ih => exact applyAt_handoffs ih

theorem Reachable.valid (r : Reachable s) : s.fencing.Valid := by
  induction r
  case empty => exact .zero
  case apply ih => exact applyAt_steps.fencing.valid ih

end Store
