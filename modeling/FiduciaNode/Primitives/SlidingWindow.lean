import Mathlib

-- A limiter that keeps a log of the times at which something was spent, and forgets those that have left the
-- window.
namespace SlidingWindow

variable {limit window now now' cost : Nat} {times kept spent : List Nat}

-- The times that are still in the window.
def live (window now : Nat) (times : List Nat) : List Nat :=
  times.filter (now < · + window)

-- How much lies between `t` and the end of the window from there.
def inside (window : Nat) (times : List Nat) (t : Int) : Nat :=
  times.countP fun time : Nat => t ≤ time ∧ time < t + window

theorem live_live (le : now ≤ now') : live window now' (live window now times) = live window now' times := by
  simp only [live, List.filter_filter]
  refine List.filter_congr fun time _ => ?_
  simp only [Bool.and_eq_decide, decide_eq_true_eq, decide_eq_decide]
  omega

theorem live_append : live window now (times ++ kept) = live window now times ++ live window now kept :=
  List.filter_append ..

theorem live_sublist : (live window now times).Sublist times :=
  List.filter_sublist

-- In a log in order, the times that have left the window come first.
theorem dropWhile_eq_live (ordered : times.Pairwise (· ≤ ·)) (positive : ∀ time ∈ times, 1 ≤ time) :
    times.dropWhile (· ≤ now - window) = live window now times := by
  induction times
  case nil => rfl
  case cons time times ih =>
    have ⟨first, ordered⟩ := List.pairwise_cons.mp ordered
    have ⟨one, positive⟩ := List.forall_mem_cons.mp positive
    simp only [List.dropWhile_cons, decide_eq_true_eq]
    split
    case isTrue left =>
      have gone : ¬ now < time + window := by omega
      rw [ih ordered positive]
      simp [live, gone]
    case isFalse stays =>
      refine (List.filter_eq_self.mpr fun time' mem => ?_).symm
      have : time ≤ time' := by
        rcases List.mem_cons.mp mem with rfl | mem
        case inl => exact le_refl _
        case inr => exact first time' mem
      simp only [decide_eq_true_eq]
      omega

-- The log at some time, compared to everything that was ever spent.
structure Accounts (limit window now : Nat) (kept spent : List Nat) : Prop where
  ordered : spent.Pairwise (· ≤ ·)
  past    : ∀ time ∈ spent, 1 ≤ time ∧ time ≤ now
  sublist : kept.Sublist spent
  live    : ∀ now' ≥ now, live window now' kept = live window now' spent
  bound   : ∀ t, inside window spent t ≤ limit

namespace Accounts

theorem empty : Accounts limit window now [] [] :=
  ⟨.nil, nofun, .slnil, fun _ _ => rfl, fun _ => Nat.zero_le _⟩

theorem later (h : Accounts limit window now kept spent) (le : now ≤ now') : Accounts limit window now' kept spent where
  ordered := h.ordered
  past    := fun time mem => ⟨(h.past time mem).1, (h.past time mem).2.trans le⟩
  sublist := h.sublist
  live    := fun now'' le' => h.live now'' (le.trans le')
  bound   := h.bound

-- What is left after the old times are dropped is all that counts.
theorem prune (h : Accounts limit window now kept spent) :
    kept.dropWhile (· ≤ now - window) = SlidingWindow.live window now spent := by
  rw [dropWhile_eq_live (h.ordered.sublist h.sublist) fun time mem => (h.past time (h.sublist.subset mem)).1]
  exact h.live now (le_refl _)

theorem refuse (h : Accounts limit window now kept spent) :
    Accounts limit window now (SlidingWindow.live window now spent) spent where
  ordered := h.ordered
  past    := h.past
  sublist := live_sublist
  live    := fun _ le => live_live le
  bound   := h.bound

-- A window that holds the present holds nothing that has left the window that ends there.
theorem inside_le (now_mem : t ≤ (now : Int) ∧ (now : Int) < t + window) :
    inside window spent t ≤ (SlidingWindow.live window now spent).length := by
  rw [inside, SlidingWindow.live, ← List.countP_eq_length_filter]
  refine List.countP_mono_left fun time _ h => ?_
  simp only [decide_eq_true_eq] at h ⊢
  omega

-- What is in the window lies in the interval that ends at the present.
theorem live_le_inside (h : Accounts limit window now kept spent) :
    (SlidingWindow.live window now spent).length ≤ inside window spent (now - window + 1) := by
  rw [inside, SlidingWindow.live, ← List.countP_eq_length_filter]
  refine List.countP_mono_left fun time mem h' => ?_
  have := (h.past time mem).2
  simp only [decide_eq_true_eq] at h' ⊢
  omega

theorem spend (h : Accounts limit window now kept spent) (positive : 1 ≤ now)
    (fits : (SlidingWindow.live window now spent).length + cost ≤ limit) :
    Accounts limit window now (SlidingWindow.live window now spent ++ List.replicate cost now)
      (spent ++ List.replicate cost now) where
  ordered := by
    refine List.pairwise_append.mpr ⟨h.ordered, by simp [List.pairwise_replicate], fun time mem time' mem' => ?_⟩
    rw [List.eq_of_mem_replicate mem']
    exact (h.past time mem).2
  past    := by
    intro time mem
    rcases List.mem_append.mp mem with mem | mem
    case inl => exact h.past time mem
    case inr => simp [List.eq_of_mem_replicate mem, positive]
  sublist := live_sublist.append (.refl _)
  live    := fun now' le => by rw [live_append, live_append, live_live le]
  bound   := by
    intro t
    rw [inside, List.countP_append, List.countP_replicate]
    split
    case isTrue mem =>
      have mem : t ≤ now ∧ now < t + window := by simpa using mem
      have : inside window spent t ≤ (SlidingWindow.live window now spent).length := inside_le mem
      exact (Nat.add_le_add_right this cost).trans fits
    case isFalse => exact h.bound t

end Accounts

end SlidingWindow
