import Mathlib

namespace Raft

-- Logs are lists of entries that carry the term of the leader that created them. Positions start at
-- one, so a log up to position `i` is its prefix of length `i`.
class Entry (ε : Type) where
  term : ε → ℕ

export Entry (term)

variable {ε : Type} [Entry ε]

-- The term of the entry at a position, where the position before the first one has term zero.
def termAt (l : List ε) (i : ℕ) : ℕ :=
  if i = 0 then 0 else l[i - 1]?.elim 0 term

-- Entries of one term at one position have the same entries before them.
def Matching (l₁ l₂ : List ε) : Prop :=
  ∀ i e₁ e₂, l₁[i]? = some e₁ → l₂[i]? = some e₂ → term e₁ = term e₂ →
    l₁.take (i + 1) = l₂.take (i + 1)

-- Stores entries from a position on, replacing everything from the first conflict on.
def merge (l : List ε) : ℕ → List ε → List ε
  | _, [] => l
  | i, e :: es =>
    match l[i]? with
    | none => merge (l ++ [e]) (i + 1) es
    | some e' => if term e' = term e then merge l (i + 1) es else merge (l.take i ++ [e]) (i + 1) es

variable {l l₁ l₂ ll : List ε} {i k n : ℕ}

theorem termAt_succ : termAt l (i + 1) = l[i]?.elim 0 term :=
  rfl

theorem termAt_of_take_eq (h : l₁.take n = l₂.take n) (hi : i ≤ n) : termAt l₁ i = termAt l₂ i := by
  cases i
  case zero => rfl
  case succ i =>
    have : l₁[i]? = l₂[i]? := by
      rw [← List.getElem?_take_of_lt (by omega : i < n), h, List.getElem?_take_of_lt (by omega)]
    rw [termAt_succ, termAt_succ, this]

omit [Entry ε] in
theorem take_eq_of_take_eq (h : l₁.take n = l₂.take n) (hi : i ≤ n) : l₁.take i = l₂.take i := by
  have := congrArg (List.take i) h
  simpa [List.take_take, Nat.min_eq_left hi] using this

omit [Entry ε] in
theorem take_succ_of_drop {e : ε} {es : List ε} (h : e :: es = (ll.drop i).take n) :
    ll.take (i + 1) = ll.take i ++ [e] ∧ es = (ll.drop (i + 1)).take (n - 1) := by
  cases n
  case zero => simp at h
  case succ n =>
    have hi : i < ll.length := by
      by_contra hi
      simp [List.drop_eq_nil_of_le (not_lt.mp hi)] at h
    rw [List.drop_eq_getElem_cons hi, List.take_succ_cons] at h
    injection h with h₁ h₂
    exact ⟨by rw [List.take_succ_eq_append_getElem hi, h₁], by simpa using h₂⟩

-- Storing a slice of a log into a prefix of it that reaches up to the slice extends the prefix.
theorem merge_take {es : List ε} (h : es = (ll.drop i).take n) (hi : i ≤ ll.length) :
    merge (ll.take i) i es = ll.take (i + es.length) := by
  induction es generalizing i n
  case nil => simp [merge]
  case cons e es ih =>
    have ⟨hl, hs⟩ := take_succ_of_drop h
    have hn : (ll.take i)[i]? = none := by simp
    have hi' : i + 1 ≤ ll.length := by
      have := congrArg List.length hl
      simp at this
      omega
    rw [merge, hn, ← hl]
    simp only [ih hs hi', List.length_cons]
    congr 1
    omega

-- Storing a slice of a log into one that matches it either changes nothing or makes it a prefix of
-- the log that the slice is from.
theorem merge_eq {es : List ε} (m : Matching l ll) (h : es = (ll.drop i).take n)
    (hi : i ≤ ll.length) (agree : l.take i = ll.take i) :
    merge l i es = l ∧ l.take (i + es.length) = ll.take (i + es.length) ∨
    merge l i es = ll.take (i + es.length) ∧
      l.take (i + es.length) ≠ ll.take (i + es.length) := by
  induction es generalizing l i n
  case nil => exact .inl ⟨rfl, agree⟩
  case cons e es ih =>
    have ⟨hl, hs⟩ := take_succ_of_drop h
    have len : (ll.take (i + 1)).length = i + 1 := by
      rw [hl, List.length_append, List.length_take, Nat.min_eq_left hi]
      rfl
    have hi' : i + 1 ≤ ll.length := by simpa using len
    have he : ll[i]? = some e := by
      have := congrArg (·[i]?) hl
      simpa [List.getElem?_take_of_lt, hi] using this
    have rest : i + (e :: es).length = i + 1 + es.length := by
      rw [List.length_cons]
      omega
    rw [rest]
    -- If the logs differ at the position, then the rest of the slice is stored into a prefix.
    have differ (hne : l.take (i + 1) ≠ ll.take (i + 1)) :
        l.take (i + 1 + es.length) ≠ ll.take (i + 1 + es.length) :=
      fun h' => hne (take_eq_of_take_eq h' (by omega))
    cases hx : l[i]?
    case none =>
      have short : l.length ≤ i := List.getElem?_eq_none_iff.mp hx
      have hl' : l ++ [e] = ll.take (i + 1) := by rw [hl, ← agree, List.take_of_length_le short]
      refine .inr ⟨?_, differ fun h' => ?_⟩
      case refine_1 =>
        rw [merge, hx]
        simp only [hl']
        exact merge_take hs hi'
      case refine_2 =>
        have := congrArg List.length h'
        simp only [len, List.length_take] at this
        omega
    case some x =>
      by_cases ht : term x = term e
      case pos =>
        rw [merge, hx]
        simp only [if_pos ht]
        exact ih m hs hi' (m i x e hx he ht)
      case neg =>
        refine .inr ⟨?_, differ fun h' => ?_⟩
        case refine_1 =>
          rw [merge, hx]
          simp only [if_neg ht, agree, ← hl]
          exact merge_take hs hi'
        case refine_2 =>
          have : l[i]? = ll[i]? := by
            rw [← List.getElem?_take_of_lt (by omega : i < i + 1), h',
              List.getElem?_take_of_lt (by omega)]
          rw [hx, he] at this
          exact ht (congrArg term (Option.some.inj this))

-- The slice is held afterwards.
theorem le_length_merge {es : List ε} (m : Matching l ll) (h : es = (ll.drop i).take n)
    (hi : i ≤ ll.length) (agree : l.take i = ll.take i) : i + es.length ≤ (merge l i es).length := by
  have len := congrArg List.length h
  simp only [List.length_take, List.length_drop] at len
  rcases merge_eq m h hi agree with ⟨same, all⟩ | ⟨taken, _⟩
  case inl =>
    have := congrArg List.length all
    simp only [List.length_take] at this
    rw [same]
    omega
  case inr =>
    rw [taken, List.length_take]
    omega

end Raft
