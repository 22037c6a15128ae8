import Mathlib

-- A format of texts of bytes: how a value is written, and how a text is read.
structure Codec (α : Type) where
  toVec     : α → List UInt8
  fromSlice : List UInt8 → Except String α

def newline : UInt8 := 10

namespace Codec

variable {α : Type} {c : Codec α} {a : α} {l : List α} {p tail : List UInt8}

structure RoundTrips (c : Codec α) (a : α) : Prop where
  ne_nil : c.toVec a ≠ []
  decode : c.fromSlice (c.toVec a) = .ok a

-- A text that fits on a line, and that tells when it is cut off.
structure Framed (c : Codec α) (a : α) : Prop extends RoundTrips c a where
  newline : newline ∉ c.toVec a
  torn    : ∀ p, p <+: c.toVec a → p ≠ c.toVec a → ∃ e, c.fromSlice p = .error e

-- One text a line, and each line is terminated.
def lines (c : Codec α) (l : List α) : List UInt8 :=
  l.flatMap fun a => c.toVec a ++ [newline]

@[simp]
theorem lines_nil : c.lines [] = [] :=
  rfl

theorem lines_cons : c.lines (a :: l) = c.toVec a ++ newline :: c.lines l := by
  simp [lines]

theorem lines_append {l₁ l₂ : List α} : c.lines (l₁ ++ l₂) = c.lines l₁ ++ c.lines l₂ := by
  simp [lines]

-- A text of terminated lines ends where its last line does.
theorem getLast_lines (h : l ≠ []) : (c.lines l).getLast? = some newline := by
  have ⟨before, a, ha⟩ := List.eq_nil_or_concat l |>.resolve_left h
  simp [ha, lines]

theorem splitOn_append_newline {line rest : List UInt8} (h : newline ∉ line) :
    (line ++ newline :: rest).splitOn newline = line :: rest.splitOn newline := by
  rw [List.splitOn_eq_splitOnP]
  refine List.splitOnP_append_cons_of_forall_mem (fun b hb => ?_) newline (by simp) rest
  exact beq_eq_false_iff_ne.mpr fun eq => h (eq ▸ hb)

-- The lines of a text, the last of which is not terminated.
theorem splitOn_lines (h : ∀ a ∈ l, newline ∉ c.toVec a) (ht : newline ∉ tail) :
    (c.lines l ++ tail).splitOn newline = l.map c.toVec ++ [tail] := by
  induction l
  case nil =>
    refine List.splitOnP_eq_singleton fun b hb => ?_
    exact beq_eq_false_iff_ne.mpr fun eq => ht (eq ▸ hb)
  case cons a l ih =>
    have ⟨ha, hl⟩ := List.forall_mem_cons.mp h
    rw [lines_cons, List.append_assoc, List.cons_append, splitOn_append_newline ha, ih hl]
    rfl

-- Where a text of lines can be cut: between two lines, or within the text of one of them.
theorem prefix_lines (h : p <+: c.lines l) :
    ∃ k tail, k ≤ l.length ∧ p = c.lines (l.take k) ++ tail ∧
      (tail = [] ∨ ∃ a, l[k]? = some a ∧ tail <+: c.toVec a) := by
  induction l generalizing p
  case nil => exact ⟨0, [], Nat.le_refl _, by simpa using h, .inl rfl⟩
  case cons a l ih =>
    have whole : c.lines (a :: l) = (c.toVec a ++ [newline]) ++ c.lines l := by simp [lines]
    rcases Nat.lt_or_ge p.length (c.toVec a ++ [newline]).length with lt | ge
    case inl =>
      have within : p <+: c.toVec a := by
        refine List.prefix_of_prefix_length_le h ?_ (by simpa [Nat.lt_succ_iff] using lt)
        exact lines_cons ▸ List.prefix_append _ _
      exact ⟨0, p, Nat.zero_le _, by simp, .inr ⟨a, rfl, within⟩⟩
    case inr =>
      have ⟨rest, hr⟩ := List.prefix_of_prefix_length_le (whole ▸ List.prefix_append _ _) h ge
      have cut : rest <+: c.lines l := by
        rw [← hr, whole] at h
        exact (List.prefix_append_right_inj _).mp h
      have ⟨k, tail, le, eq, ht⟩ := ih cut
      refine ⟨k + 1, tail, Nat.succ_le_succ le, ?_, by simpa using ht⟩
      rw [← hr, eq, List.take_succ_cons, lines_cons]
      simp

end Codec
