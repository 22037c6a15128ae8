import Mathlib

namespace Except

variable {ε α β : Type}

theorem bind_eq_ok_iff {x : Except ε α} {f : α → Except ε β} {b : β} :
    (x >>= f = .ok b) ↔ (∃ a, x = .ok a ∧ f a = .ok b) := by
  cases x
  case error | ok => simp [bind, Except.bind]

-- A check that is followed by another one.
theorem seq_eq_ok_iff {x : Except ε Unit} {y : Except ε β} {b : β} :
    ((do x; y) = .ok b) ↔ (x = .ok () ∧ y = .ok b) := by
  cases x
  case error | ok => simp [bind, Except.bind]

-- A check that is made for each element of a list.
theorem forM_eq_ok_iff {f : α → Except ε Unit} {l : List α} :
    (l.forM f = .ok ()) ↔ (∀ a ∈ l, f a = .ok ()) := by
  induction l
  case nil => simp [List.forM, pure, Except.pure]
  case cons a l ih =>
    rw [List.forall_mem_cons, ← ih]
    exact seq_eq_ok_iff

-- The results of a list of computations that all succeed.
theorem mapM_exists_iff {f : α → Except ε β} {l : List α} {bs : List β} {p : β → Prop} (h : l.mapM f = .ok bs) :
    (∃ b ∈ bs, p b) ↔ (∃ a ∈ l, ∃ b, f a = .ok b ∧ p b) := by
  induction l generalizing bs
  case nil =>
    cases h
    simp
  case cons a l ih =>
    simp only [List.mapM_cons, bind_eq_ok_iff] at h
    obtain ⟨b, first, rest, others, eq⟩ := h
    cases eq
    simp [first, ih others]

theorem exists_of_mapM {f : α → Except ε β} {l : List α} {bs : List β} {a : α} (h : l.mapM f = .ok bs)
    (mem : a ∈ l) : ∃ b, f a = .ok b := by
  induction l generalizing bs
  case nil => contradiction
  case cons a' l ih =>
    simp only [List.mapM_cons, bind_eq_ok_iff] at h
    obtain ⟨b, first, rest, others, _⟩ := h
    rcases List.mem_cons.mp mem with rfl | mem
    case inl => exact ⟨b, first⟩
    case inr => exact ih others mem

theorem ite_error_eq_ok_iff {c : Prop} [Decidable c] {e : ε} {x : Except ε α} {a : α} :
    ((if c then .error e else x) = .ok a) ↔ (¬c ∧ x = .ok a) := by
  split <;> simp_all

end Except
