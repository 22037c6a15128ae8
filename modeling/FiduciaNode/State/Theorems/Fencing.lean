import FiduciaNode.State.Fencing

namespace FencingCounter

-- The only thing that ever happens to the counter: a token above all earlier ones is minted.
inductive Step : FencingCounter → FencingCounter → Prop
  | mint (gt : c.nextFencingToken < token) (le : token ≤ maxFencingToken) : Step c (c.mint token)

abbrev Steps := Relation.ReflTransGen Step

structure Valid (c : FencingCounter) : Prop where
  sorted  : c.minted.Pairwise (· > ·)
  le_next : ∀ t ∈ c.minted, t ≤ c.nextFencingToken
  le_max  : c.nextFencingToken ≤ maxFencingToken

def Exhausted (c : FencingCounter) : Prop :=
  maxFencingToken ≤ c.nextFencingToken

variable {c c₁ c₂ : FencingCounter} {token floor : Nat}

theorem maxFencingToken_lt_max : maxFencingToken < U64.max := by
  decide

theorem nextToken_eq_some_iff :
    (c.nextToken = some (token, c₂)) ↔
    (token = c.nextFencingToken + 1 ∧ token ≤ maxFencingToken ∧ c₂ = c.mint token) := by
  have := maxFencingToken_lt_max
  simp only [nextToken, U64.checkedAdd, Option.bind_eq_bind]
  grind

theorem mintTokenAbove_eq_some :
    (c.mintTokenAbove floor = some (token, c₂)) →
    (c.nextFencingToken < token ∧ floor < token ∧ token ≤ maxFencingToken ∧ c₂ = c.mint token) := by
  simp only [mintTokenAbove, U64.checkedAdd, Option.bind_eq_bind]
  grind

theorem nextToken_eq_none_iff : c.nextToken = none ↔ c.Exhausted := by
  have := maxFencingToken_lt_max
  simp only [nextToken, U64.checkedAdd, Option.bind_eq_bind, Exhausted]
  grind

theorem Exhausted.mintTokenAbove (h : c.Exhausted) : c.mintTokenAbove floor = none := by
  simp only [FencingCounter.mintTokenAbove, U64.checkedAdd, Option.bind_eq_bind, Exhausted] at *
  grind

theorem nextToken_ne (h : c.nextToken = some (token, c₂)) : c₂ ≠ c := by
  have ⟨ht, _, hc⟩ := nextToken_eq_some_iff.mp h
  intro same
  have := congrArg nextFencingToken (hc.symm.trans same)
  simp only [mint] at this
  omega

theorem nextToken_step (h : c.nextToken = some (token, c₂)) : Step c c₂ := by
  have ⟨ht, hm, hc⟩ := nextToken_eq_some_iff.mp h
  exact hc ▸ .mint (by omega) hm

theorem mintTokenAbove_step (h : c.mintTokenAbove floor = some (token, c₂)) : Step c c₂ := by
  have ⟨ht, _, hm, hc⟩ := mintTokenAbove_eq_some h
  exact hc ▸ .mint ht hm

theorem Valid.zero : Valid .zero where
  sorted  := .nil
  le_next := by simp [FencingCounter.zero]
  le_max  := by decide

theorem Step.valid (e : Step c₁ c₂) (v : Valid c₁) : Valid c₂ := by
  obtain ⟨gt, le⟩ := e
  exact {
    sorted  := List.pairwise_cons.mpr ⟨fun t h => Nat.lt_of_le_of_lt (v.le_next t h) gt, v.sorted⟩
    le_next := by
      intro t ht
      cases List.mem_cons.mp ht
      case inl h => exact h ▸ Nat.le_refl _
      case inr h => exact Nat.le_of_lt (Nat.lt_of_le_of_lt (v.le_next t h) gt)
    le_max  := le
  }

theorem Step.not_exhausted (e : Step c₁ c₂) : ¬c₁.Exhausted := by
  obtain ⟨gt, le⟩ := e
  exact fun h => Nat.not_le.mpr gt (Nat.le_trans le h)

namespace Steps

theorem valid (e : Steps c₁ c₂) (v : Valid c₁) : Valid c₂ := by
  induction e
  case refl => exact v
  case tail e ih => exact e.valid ih

theorem eq_of_exhausted (e : Steps c₁ c₂) (h : c₁.Exhausted) : c₂ = c₁ := by
  cases e.cases_head
  case inl h => exact h.symm
  case inr h' =>
    have ⟨_, e, _⟩ := h'
    exact e.not_exhausted h |>.elim

theorem le (e : Steps c₁ c₂) : c₁.nextFencingToken ≤ c₂.nextFencingToken := by
  induction e
  case refl => exact Nat.le_refl _
  case tail e ih =>
    obtain ⟨gt, _⟩ := e
    exact Nat.le_trans ih (Nat.le_of_lt gt)

-- Whatever is minted on the way is above the counter that the way starts from.
theorem minted (e : Steps c₁ c₂) :
    ∀ t ∈ c₂.minted, t ∈ c₁.minted ∨ c₁.nextFencingToken < t := by
  induction e
  case refl => exact fun _ h => .inl h
  case tail e₁ e ih =>
    obtain ⟨gt, _⟩ := e
    intro t h
    cases List.mem_cons.mp h
    case inl h => exact .inr (h ▸ Nat.lt_of_le_of_lt (le e₁) gt)
    case inr h => exact ih t h

end Steps

end FencingCounter
