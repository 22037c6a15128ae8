import FiduciaNode.State.Theorems.Barriers
import FiduciaNode.State.Theorems.MutualExclusion

-- What a command computes from a hash map does not depend on the order in which the map is visited,
-- with the exception of the tokens that the sweep hands to the waiters of different semaphores.

namespace BarrierArrival

theorem before_iff {a₁ a₂ : BarrierArrival} :
    before a₁ a₂ ↔
    a₁.arrivedMs < a₂.arrivedMs ∨
    a₁.arrivedMs = a₂.arrivedMs ∧ a₁.participant ≤ a₂.participant := by
  simp only [before, Ordering.isLE_then_iff_or, compare_lt_iff_lt, compare_eq_iff_eq]
  rw [Ordering.isLE_iff_ne_gt, ← ne_eq, compare_le_iff_le]

theorem before_trans (a₁ a₂ a₃ : BarrierArrival) (h₁ : before a₁ a₂) (h₂ : before a₂ a₃) :
    before a₁ a₃ := by
  rw [before_iff] at *
  grind

theorem before_total (a₁ a₂ : BarrierArrival) : before a₁ a₂ || before a₂ a₁ := by
  rw [Bool.or_eq_true, before_iff, before_iff]
  grind

theorem before_antisymm {a₁ a₂ : BarrierArrival} (h₁ : before a₁ a₂) (h₂ : before a₂ a₁) :
    a₁.participant = a₂.participant := by
  rw [before_iff] at *
  grind

end BarrierArrival

namespace BarrierRecord

variable {b : BarrierRecord} {name : String} {now : Nat}

def Keyed (b : BarrierRecord) : Prop :=
  ∀ (p : String) (a : BarrierArrival), b.arrivals[p]? = some a → a.participant = p

-- No two arrivals are equal in the order of a view, so there is one way to sort them.
theorem sorted_arrivals_order (k : b.Keyed) (o₁ o₂ : IterOrder) :
    (b.arrivals.values o₁).mergeSort BarrierArrival.before =
    (b.arrivals.values o₂).mergeSort BarrierArrival.before := by
  have sorted := List.pairwise_mergeSort BarrierArrival.before_trans BarrierArrival.before_total
  refine List.Perm.eq_of_pairwise ?_ (sorted _) (sorted _) ?_
  case refine_1 =>
    intro a₁ a₂ h₁ h₂ le ge
    have ⟨p₁, h₁⟩ := HashMap.mem_values.mp (List.mem_mergeSort.mp h₁)
    have ⟨p₂, h₂⟩ := HashMap.mem_values.mp (List.mem_mergeSort.mp h₂)
    have : p₁ = p₂ := by
      rw [← k p₁ a₁ h₁, ← k p₂ a₂ h₂]
      exact BarrierArrival.before_antisymm le ge
    exact Option.some.inj (h₁.symm.trans (this ▸ h₂))
  case refine_2 =>
    exact (List.mergeSort_perm _ _).trans
      ((b.arrivals.values_perm o₁ o₂).trans (List.mergeSort_perm _ _).symm)

theorem view_order (k : b.Keyed) (o₁ o₂ : IterOrder) : b.view o₁ name now = b.view o₂ name now := by
  simp only [view, sorted_arrivals_order k o₁ o₂, status_order o₁ o₂]

end BarrierRecord

namespace Barriers

variable {barriers : Barriers} {now : Nat} {name : String}

def Keyed (barriers : Barriers) : Prop :=
  ∀ (name : String) (b : BarrierRecord), barriers[name]? = some b → b.Keyed

theorem Keyed.insert {b : BarrierRecord} (k : Keyed barriers) (h : b.Keyed) :
    Keyed (barriers.insert name b) := by
  intro name' b' hb
  rw [HashMap.get_insert] at hb
  split at hb
  case isTrue => exact Option.some.inj hb ▸ h
  case isFalse => exact k name' b' hb

-- The arrivals that a barrier is created with are those of the barrier it replaces.
theorem Keyed.create (k : Keyed barriers) :
    BarrierRecord.Keyed {
      policy, expected, deadlineMs, arrivals := barriers[name]?.map (·.arrivals) |>.getD ∅
    } := by
  intro p a h
  cases hb : barriers[name]?
  case none => simp [hb] at h
  case some b => exact k name b hb p a (by simpa [hb] using h)

theorem Keyed.arrive (k : Keyed barriers) (participant : String) (weight : Nat) (veto : Bool) :
    BarrierRecord.Keyed
      (let b := barriers[name]?.getD {
        policy := .all, expected := 1, deadlineMs := none, arrivals := ∅
      }
      { b with arrivals := b.arrivals.insert participant {
        participant, weight, veto, arrivedMs := now
      } }) := by
  intro p a h
  simp only [HashMap.get_insert] at h
  split at h
  case isTrue e => exact Option.some.inj h ▸ e
  case isFalse =>
    cases hb : barriers[name]?
    case none => simp [hb] at h
    case some b => exact k name b hb p a (by simpa [hb] using h)

theorem Keyed.applyBarrierCreate (k : Keyed barriers) (o : IterOrder) :
    Keyed (barriers.applyBarrierCreate o now name policy expected deadlineMs).1 := by
  simp only [Barriers.applyBarrierCreate]
  split
  case h_1 => exact k
  case h_2 => exact k.insert k.create

theorem Keyed.applyBarrierArrive (k : Keyed barriers) (o : IterOrder) :
    Keyed (barriers.applyBarrierArrive o now name participant weight veto).1 :=
  k.insert (k.arrive participant weight veto)

theorem applyBarrierCreate_order (k : Keyed barriers) (o₁ o₂ : IterOrder) :
    barriers.applyBarrierCreate o₁ now name policy expected deadlineMs =
    barriers.applyBarrierCreate o₂ now name policy expected deadlineMs := by
  simp only [applyBarrierCreate, BarrierRecord.status_order o₁ o₂]
  split
  case h_1 resolved h =>
    have mem : barriers[name]? = some resolved := (Option.filter_eq_some_iff.mp h).left
    rw [BarrierRecord.view_order (k name resolved mem) o₁ o₂]
  case h_2 => rw [BarrierRecord.view_order k.create o₁ o₂]

theorem applyBarrierArrive_order (k : Keyed barriers) (o₁ o₂ : IterOrder) :
    barriers.applyBarrierArrive o₁ now name participant weight veto =
    barriers.applyBarrierArrive o₂ now name participant weight veto := by
  simp only [applyBarrierArrive]
  rw [BarrierRecord.view_order (k.arrive participant weight veto) o₁ o₂]

end Barriers

namespace LockManager

variable {m : LockManager} {f : FencingCounter} {now : Nat}

theorem held_releaseGrant_eq {token : Nat} (key : String) :
    (m.releaseGrant token).held[key]? =
    if m.held[key]? = some token ∧ m.grants[token]?.any (key ∈ ·.keys) then none
    else m.held[key]? := by
  cases mem : m.grants[token]?
  case none => simp [releaseGrant, mem]
  case some grant => simp [held_releaseGrant mem, and_comm]

theorem releaseGrant_right_comm (m : LockManager) (token₁ token₂ : Nat) :
    (m.releaseGrant token₁).releaseGrant token₂ = (m.releaseGrant token₂).releaseGrant token₁ := by
  by_cases ht : token₁ = token₂
  case pos => rw [ht]
  case neg =>
    have rest (m : LockManager) (token : Nat) :
        (m.releaseGrant token).queue = m.queue ∧ (m.releaseGrant token).granted = m.granted := by
      simp only [releaseGrant]
      split <;> exact ⟨rfl, rfl⟩
    ext1
    case held =>
      refine HashMap.ext_get fun key => ?_
      simp only [held_releaseGrant_eq, grants_releaseGrant]
      grind
    case grants =>
      refine HashMap.ext_get fun token => ?_
      simp only [grants_releaseGrant]
      grind
    case queue => simp only [(rest _ _).left]
    case granted => simp only [(rest _ _).right]

theorem expireDue_order (o₁ o₂ : IterOrder) : m.expireDue o₁ f now = m.expireDue o₂ f now := by
  simp only [expireDue]
  have perm := m.grants.iter_perm o₁ o₂ |>.filter (·.2.leaseExpiresMs ≤ now) |>.map Prod.fst
  rw [perm.foldl_eq' fun _ _ _ _ m => releaseGrant_right_comm m _ _]

-- Two grants with one set of keys are one grant.
theorem WellFormed.grantOf?_order (w : WellFormed (m, f)) (o₁ o₂ : IterOrder) :
    m.grantOf? o₁ holder keys requestId = m.grantOf? o₂ holder keys requestId := by
  refine HashMap.find_values_eq o₁ o₂ fun grant₁ grant₂ h₁ h₂ p₁ p₂ => ?_
  have ⟨token₁, mem₁⟩ := HashMap.mem_values.mp h₁
  have ⟨token₂, mem₂⟩ := HashMap.mem_values.mp h₂
  simp only [Bool.and_eq_true, decide_eq_true_eq] at p₁ p₂
  by_cases ht : token₁ = token₂
  case pos => exact Option.some.inj (mem₁.symm.trans (ht ▸ mem₂))
  case neg =>
    have ⟨key, hk⟩ := List.exists_mem_of_ne_nil _ (w.grant_keys mem₁).left
    have : key ∈ grant₂.keys := p₂.1.2 ▸ p₁.1.2 ▸ hk
    exact absurd this (w.disjoint mem₁ mem₂ ht hk)

variable [External]

theorem WellFormed.applyLockCancel_order (w : WellFormed (m, f)) (o₁ o₂ : IterOrder) :
    m.applyLockCancel o₁ cancellations f revision now keys holder requestId =
    m.applyLockCancel o₂ cancellations f revision now keys holder requestId := by
  simp only [applyLockCancel, cancelQueued, w.grantOf?_order o₁ o₂]

end LockManager

namespace Semaphores

variable {sems : Semaphores} {f : FencingCounter} {now : Nat} {key : String}

-- The semaphore has a free permit and a waiter for it.
def Promotable (sems : Semaphores) (key : String) : Prop :=
  ∃ sem, sems[key]? = some sem ∧ sem.promotable

abbrev visit (now : Nat) : Table → String → Table :=
  fun (sems, f) key => ((semaphorePromote sems f key now).1, (semaphorePromote sems f key now).2.1)

theorem promoteLoop_of_not_promotable {sem : Semaphore} (h : ¬sem.promotable) :
    sem.promoteLoop f now fuel = (sem, f, []) := by
  cases fuel <;> simp [Semaphore.promoteLoop, h]

theorem promoteLoop_of_exhausted {sem : Semaphore} (h : f.nextToken = none) :
    sem.promoteLoop f now fuel = (sem, f, []) := by
  cases fuel <;> simp [Semaphore.promoteLoop, h]

theorem visit_of_not_promotable (h : ¬sems.Promotable key) : visit now (sems, f) key = (sems, f) := by
  simp only [visit, semaphorePromote]
  cases mem : sems[key]?
  case none => rfl
  case some sem =>
    have : ¬sem.promotable := fun p => h ⟨sem, mem, p⟩
    simp only [Semaphore.promote, promoteLoop_of_not_promotable this, HashMap.insert_eq_self mem]

theorem visit_of_exhausted (h : f.nextToken = none) : visit now (sems, f) key = (sems, f) := by
  simp only [visit, semaphorePromote]
  cases mem : sems[key]?
  case none => rfl
  case some sem => simp only [Semaphore.promote, promoteLoop_of_exhausted h, HashMap.insert_eq_self mem]

theorem visit_frame {key' : String} (h : key' ≠ key) :
    (visit now (sems, f) key).1[key']? = sems[key']? := by
  simp only [semaphorePromote]
  split
  case h_1 => rfl
  case h_2 => simp [h.symm]

theorem foldl_visit_of_none {keys : List String} (h : ∀ key ∈ keys, ¬sems.Promotable key) :
    keys.foldl (visit now) (sems, f) = (sems, f) := by
  induction keys
  case nil => rfl
  case cons key keys ih =>
    rw [List.foldl_cons, visit_of_not_promotable (h key List.mem_cons_self)]
    exact ih fun key h' => h key (List.mem_cons_of_mem _ h')

theorem foldl_visit_of_exhausted {keys : List String} (h : f.nextToken = none) :
    keys.foldl (visit now) (sems, f) = (sems, f) := by
  induction keys
  case nil => rfl
  case cons key keys ih => rw [List.foldl_cons, visit_of_exhausted h, ih]

-- If there is one promotable semaphore, then it is the only one that the sweep changes.
theorem foldl_visit_of_one {keys : List String} (nodup : keys.Nodup) (mem : key ∈ keys)
    (h : ∀ key', sems.Promotable key' → key' = key) :
    keys.foldl (visit now) (sems, f) = visit now (sems, f) key := by
  induction keys
  case nil => contradiction
  case cons key' keys ih =>
    have ⟨fresh, nodup⟩ := List.nodup_cons.mp nodup
    rw [List.foldl_cons]
    by_cases hk : key' = key
    case pos =>
      subst hk
      refine foldl_visit_of_none fun key'' h'' ⟨sem, hs, p⟩ => ?_
      have ne : key'' ≠ key' := fun e => fresh (e ▸ h'')
      exact ne (h key'' ⟨sem, visit_frame ne ▸ hs, p⟩)
    case neg =>
      rw [visit_of_not_promotable fun p => hk (h key' p)]
      exact ih nodup ((List.mem_cons.mp mem).resolve_left (Ne.symm hk))

-- The sweep leaves a token to be minted and more than one semaphore to mint it for.
def Contended (sems : Semaphores) (f : FencingCounter) (now : Nat) : Prop :=
  f.nextToken ≠ none ∧
  ∃ key₁ key₂, key₁ ≠ key₂ ∧ (sems.sweep now).Promotable key₁ ∧ (sems.sweep now).Promotable key₂

instance : Decidable (sems.Contended f now) :=
  decidable_of_iff (f.nextToken.isSome ∧ ∃ e₁ ∈ (sems.sweep now).toList,
      ∃ e₂ ∈ (sems.sweep now).toList, e₁.1 ≠ e₂.1 ∧ e₁.2.promotable ∧ e₂.2.promotable) <| by
    simp only [Contended, Promotable, ← HashMap.mem_toList, Option.isSome_iff_ne_none]
    grind

theorem expireDue_order (h : ¬sems.Contended f now) (o₁ o₂ : IterOrder) :
    sems.expireDue o₁ f now = sems.expireDue o₂ f now := by
  have order (o : IterOrder) :
      sems.expireDue o f now = ((sems.sweep now).keys o).foldl (visit now) (sems.sweep now, f) := rfl
  rw [order o₁, order o₂]
  by_cases hf : f.nextToken = none
  case pos => rw [foldl_visit_of_exhausted hf, foldl_visit_of_exhausted hf]
  case neg =>
    have one : ∀ key₁ key₂, (sems.sweep now).Promotable key₁ → (sems.sweep now).Promotable key₂ →
        key₁ = key₂ := by
      intro key₁ key₂ h₁ h₂
      by_contra ne
      exact h ⟨hf, key₁, key₂, ne, h₁, h₂⟩
    by_cases hp : ∃ key, (sems.sweep now).Promotable key
    case pos =>
      have ⟨key, p⟩ := hp
      have ⟨sem, hs, _⟩ := p
      have mem (o : IterOrder) : key ∈ (sems.sweep now).keys o := HashMap.mem_keys.mpr ⟨sem, hs⟩
      have visited (o : IterOrder) :
          ((sems.sweep now).keys o).foldl (visit now) (sems.sweep now, f) =
          visit now (sems.sweep now, f) key :=
        foldl_visit_of_one (HashMap.keys_nodup _ o) (mem o) fun key' p' => one key' key p' p
      rw [visited o₁, visited o₂]
    case neg =>
      have none (o : IterOrder) : ∀ key ∈ (sems.sweep now).keys o, ¬(sems.sweep now).Promotable key :=
        fun key _ p => hp ⟨key, p⟩
      rw [foldl_visit_of_none (none o₁), foldl_visit_of_none (none o₂)]

end Semaphores
