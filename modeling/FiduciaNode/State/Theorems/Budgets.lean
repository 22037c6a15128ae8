import FiduciaNode.State.Theorems.Frames

namespace BudgetAmount

def axes : List (BudgetAmount → Option Nat) := [usdMicros, tokens, toolCalls]

theorem ofAxes_axis {axis : BudgetAmount → Option Nat} (h : axis ∈ axes)
    (f : (BudgetAmount → Option Nat) → Option Nat) : axis (ofAxes f) = f axis := by
  simp only [axes, List.mem_cons, List.not_mem_nil, or_false] at h
  rcases h with rfl | rfl | rfl <;> rfl

end BudgetAmount

namespace BudgetRecord

open BudgetAmount

-- What is consumed on an axis, without saturation.
def exactlyConsumed (b : BudgetRecord) (axis : BudgetAmount → Option Nat) : Nat :=
  HashMap.total (·.consumedOn axis) b.reservations

-- No limited axis is oversubscribed.
def Within (b : BudgetRecord) : Prop :=
  ∀ axis ∈ axes, ∀ cap ∈ axis b.limit, b.exactlyConsumed axis ≤ cap

instance : DecidablePred Within :=
  fun b => inferInstanceAs (Decidable (∀ axis ∈ axes, ∀ cap ∈ axis b.limit, b.exactlyConsumed axis ≤ cap))

variable {b : BudgetRecord} {axis : BudgetAmount → Option Nat} {amount : BudgetAmount} {cap : Nat}

theorem consumed_axis (h : axis ∈ axes) :
    axis b.consumed = some (min (b.exactlyConsumed axis) U64.max) := by
  rw [consumed, ofAxes_axis h, U64.foldl_saturatingAdd _ _ (Nat.zero_le _), Nat.zero_add,
    HashMap.sum_sorted_values]
  rfl

theorem fits_axis (h : b.fits amount) (mem : axis ∈ axes) (limited : axis b.limit = some cap) :
    U64.saturatingAdd (min (b.exactlyConsumed axis) U64.max) ((axis amount).getD 0) ≤ cap := by
  have ok : fits.axisOk b amount axis := by
    simp only [fits, Bool.and_eq_true] at h
    simp only [axes, List.mem_cons, List.not_mem_nil, or_false] at mem
    rcases mem with rfl | rfl | rfl
    case inl => exact h.1.1
    case inr.inl => exact h.1.2
    case inr.inr => exact h.2
  simpa [fits.axisOk, limited, consumed_axis mem] using ok

-- A reservation fits as it should unless the limit is so high that the sum saturates below it.
theorem le_of_fits (h : b.fits amount) (mem : axis ∈ axes) (limited : axis b.limit = some cap)
    (exact : U64.max ≤ cap → b.exactlyConsumed axis + (axis amount).getD 0 ≤ cap) :
    b.exactlyConsumed axis + (axis amount).getD 0 ≤ cap := by
  have fits := fits_axis h mem limited
  by_cases high : U64.max ≤ cap
  case pos => exact exact high
  case neg =>
    rw [U64.saturatingAdd] at fits
    omega

end BudgetRecord

namespace BudgetRecord

open BudgetAmount

-- The record with one of its reservations replaced.
def put (b : BudgetRecord) (id : String) (r : ReservationRecord) : BudgetRecord :=
  { b with reservations := b.reservations.insert id r, generation := b.generation + 1 }

-- What a command can do to the budget of a name.
inductive Step (name : String) : Command → Option BudgetRecord → Option BudgetRecord → Prop
  | keep : Step name c r r
  | set (ceiling : BudgetAmount) : Step name (.budgetSet name ceiling) r r'
  | reserve (new : b.reservations[key]? = none) (fits : b.fits amount) :
    Step name (.budgetReserve name key holder amount) (some b)
      (some (b.put key { holder, reserved := amount, spent := .zero, status := .held }))
  | commit (mem : b.reservations[key]? = some r) (held : r.status = .held) :
    Step name (.budgetCommit name key actual) (some b)
      (some (b.put key { r with
        spent := .ofAxes fun axis => Budgets.cap (axis actual) (axis r.reserved), status := .committed }))
  | release (mem : b.reservations[key]? = some r) (isOpen : r.status ≠ .committed) :
    Step name (.budgetRelease name key) (some b) (some (b.put key { r with status := .released }))

variable {b b' : BudgetRecord} {r : ReservationRecord} {axis : BudgetAmount → Option Nat} {key name : String}
  {c : Command}

theorem exactlyConsumed_put (b : BudgetRecord) (key : String) (r : ReservationRecord)
    (axis : BudgetAmount → Option Nat) :
    (b.put key r).exactlyConsumed axis + b.reservations[key]?.elim 0 (·.consumedOn axis) =
      b.exactlyConsumed axis + r.consumedOn axis := by
  have inserted := HashMap.total_insert (f := (·.consumedOn axis)) b.reservations key r
  have erased := HashMap.total_erase (f := (·.consumedOn axis)) b.reservations key
  simp only [put, exactlyConsumed]
  omega

theorem within_put (le : ∀ axis ∈ axes, ∀ cap, axis b.limit = some cap →
      b.exactlyConsumed axis + r.consumedOn axis ≤
        cap + b.reservations[key]?.elim 0 (·.consumedOn axis)) :
    (b.put key r).Within := by
  intro axis mem cap limited
  have := le axis mem cap limited
  have := exactlyConsumed_put b key r axis
  omega

-- The command does not overrun the budget where the code does not look: a reservation under a limit
-- that saturated sums never exceed still fits, and so does what is spent on an axis without having
-- been reserved on it.
def Affordable (name : String) (b : BudgetRecord) : Command → Prop
  | .budgetReserve name' _ _ amount => name' = name → ∀ axis ∈ axes, ∀ cap, axis b.limit = some cap →
    U64.max ≤ cap → b.exactlyConsumed axis + (axis amount).getD 0 ≤ cap
  | .budgetCommit name' key actual => name' = name → ∀ r, b.reservations[key]? = some r → r.status = .held →
    ∀ axis ∈ axes, ∀ cap, axis b.limit = some cap → axis r.reserved = none →
      b.exactlyConsumed axis + (axis actual).getD 0 ≤ cap
  | _ => True

theorem consumedOn_commit (mem : axis ∈ axes) (actual : BudgetAmount) :
    ({ r with
      spent := .ofAxes fun axis => Budgets.cap (axis actual) (axis r.reserved), status := .committed
    } : ReservationRecord).consumedOn axis = (Budgets.cap (axis actual) (axis r.reserved)).getD 0 := by
  simp only [ReservationRecord.consumedOn, ofAxes_axis mem]

theorem Step.within (t : Step name c (some b) (some b')) (h : b.Within) (set : ∀ ceiling, c ≠ .budgetSet name ceiling)
    (affordable : b.Affordable name c) : b'.Within := by
  cases t
  case keep => exact h
  case set ceiling => exact absurd rfl (set ceiling)
  case reserve key amount holder new fits =>
    refine within_put fun axis mem cap limited => ?_
    rw [new]
    exact le_of_fits fits mem limited (affordable rfl axis mem cap limited)
  case commit key r actual held stored =>
    refine within_put fun axis mem cap limited => ?_
    have within := h axis mem cap limited
    rw [stored, consumedOn_commit mem]
    simp only [Option.elim_some, ReservationRecord.consumedOn, held]
    cases reserved : axis r.reserved
    case none =>
      have := affordable rfl r stored held axis mem cap limited reserved
      cases spent : axis actual
      all_goals
        simp only [spent, Option.getD_none, Option.getD_some] at this
        simp only [Budgets.cap, Option.getD_none, Option.getD_some]
        omega
    case some amount =>
      cases axis actual
      all_goals
        simp only [Budgets.cap, Option.getD_some]
        omega
  case release key r isOpen stored =>
    refine within_put fun axis mem cap limited => ?_
    have within := h axis mem cap limited
    rw [stored]
    simp only [ReservationRecord.consumedOn]
    omega

end BudgetRecord

namespace Budgets

variable {budgets : Budgets} {name name' key holder : String} {c : Command}

theorem step_insert {record : BudgetRecord}
    (h : BudgetRecord.Step name c budgets[name]? (some record)) :
    BudgetRecord.Step name' c budgets[name']? (budgets.insert name record)[name']? := by
  rw [HashMap.get_insert]
  split
  case isTrue same => exact same ▸ h
  case isFalse => exact .keep

theorem applyBudgetReserve_step (amount : BudgetAmount) :
    BudgetRecord.Step name' (.budgetReserve name key holder amount) budgets[name']?
      (budgets.applyBudgetReserve name key holder amount).1[name']? := by
  simp only [applyBudgetReserve]
  split
  case h_1 => exact .keep
  case h_2 record mem =>
    split
    case isTrue => exact .keep
    case isFalse new =>
      split
      case isTrue => exact .keep
      case isFalse fits =>
        refine step_insert (mem ▸ .reserve ?_ (by simpa using fits))
        exact HashMap.contains_eq_false_iff.mp (Bool.eq_false_iff.mpr new)

theorem applyBudgetCommit_step (actual : BudgetAmount) :
    BudgetRecord.Step name' (.budgetCommit name key actual) budgets[name']?
      (budgets.applyBudgetCommit name key actual).1[name']? := by
  simp only [applyBudgetCommit]
  split
  case h_1 => exact .keep
  case h_2 record mem =>
    split
    case h_1 => exact .keep
    case h_2 r stored =>
      split
      case h_1 | h_2 => exact .keep
      case h_3 held => exact step_insert (mem ▸ .commit stored held)

theorem applyBudgetRelease_step :
    BudgetRecord.Step name' (.budgetRelease name key) budgets[name']?
      (budgets.applyBudgetRelease name key).1[name']? := by
  simp only [applyBudgetRelease]
  split
  case h_1 => exact .keep
  case h_2 record mem =>
    split
    case h_1 => exact .keep
    case h_2 r stored =>
      split
      case isTrue => exact .keep
      case isFalse isOpen => exact step_insert (mem ▸ .release stored isOpen)

theorem applyBudgetSet_step (ceiling : BudgetAmount) :
    BudgetRecord.Step name' (.budgetSet name ceiling) budgets[name']?
      (budgets.applyBudgetSet name ceiling).1[name']? :=
  step_insert (.set ceiling)

-- A positive answer is about the reservation that was there, or else about a new one.
theorem applyBudgetReserve_ok {amount : BudgetAmount}
    (ok : (budgets.applyBudgetReserve name key holder amount).2.flag "ok" = some true) :
    ∃ b b', budgets[name]? = some b ∧ (budgets.applyBudgetReserve name key holder amount).1[name]? = some b' ∧
      b'.reservations[key]? =
        some (b.reservations[key]?.getD { holder, reserved := amount, spent := .zero, status := .held }) := by
  simp only [applyBudgetReserve] at ok ⊢
  split at ok
  case h_1 => cases ok
  case h_2 b mem =>
    by_cases present : b.reservations.contains key
    case pos =>
      have ⟨r, stored⟩ := Option.isSome_iff_exists.mp (Std.ExtTreeMap.isSome_getElem?_eq_contains.trans present)
      refine ⟨b, b, mem, ?_, ?_⟩
      · rw [if_pos present, mem]
      · rw [stored, Option.getD_some]
    case neg =>
      have new := HashMap.contains_eq_false_iff.mp (Bool.eq_false_iff.mpr present)
      rw [if_neg present] at ok ⊢
      split at ok
      case isTrue => cases ok
      case isFalse fits =>
        refine ⟨b, b.put key { holder, reserved := amount, spent := .zero, status := .held }, mem, ?_, ?_⟩
        · rw [if_neg fits, HashMap.get_insert, if_pos rfl, BudgetRecord.put]
        · rw [new, BudgetRecord.put, HashMap.get_insert, if_pos rfl, Option.getD_none]

theorem applyBudgetCommit_ok_iff {actual : BudgetAmount} :
    (budgets.applyBudgetCommit name key actual).2.flag "ok" = some true ↔
      ∃ b, budgets[name]? = some b ∧ ∃ r, b.reservations[key]? = some r ∧ r.status ≠ .released := by
  simp only [applyBudgetCommit]
  split
  case h_1 missing => exact iff_of_false (by rintro ⟨⟩) (by simp [missing])
  case h_2 b mem =>
    split
    case h_1 missing => exact iff_of_false (by rintro ⟨⟩) (by simp [mem, missing])
    case h_2 r stored =>
      split
      case h_1 committed => exact iff_of_true rfl ⟨b, mem, r, stored, by simp [committed]⟩
      case h_2 released => exact iff_of_false (by rintro ⟨⟩) (by simp [mem, stored, released])
      case h_3 held => exact iff_of_true rfl ⟨b, mem, r, stored, by simp [held]⟩

end Budgets

namespace Store

variable [External] {s s' : Store} {o : IterOrder} {c : Command} {revision now : Nat} {name : String}

theorem applyCommand_budgets :
    BudgetRecord.Step name c s.budgets[name]? (s.applyCommand o revision now c).1.budgets[name]? := by
  by_cases h : c.part = .budgets
  case neg =>
    have same : (s.applyCommand o revision now c).1.budgets = s.budgets :=
      applyCommand_touches.frame .budgets (Ne.symm h)
    exact same ▸ .keep
  case pos =>
    cases c <;> try contradiction
    case budgetSet => exact Budgets.applyBudgetSet_step _
    case budgetReserve => exact Budgets.applyBudgetReserve_step _
    case budgetCommit => exact Budgets.applyBudgetCommit_step _
    case budgetRelease => exact Budgets.applyBudgetRelease_step

theorem applyAt_budgets :
    BudgetRecord.Step name c s.budgets[name]? (s.applyAt o c now).1.budgets[name]? := by
  have same : (s.prepare o c now).budgets = s.budgets := prepare_frame .budgets rfl
  exact same ▸ applyCommand_budgets

section Reservations

variable {key holder : String} {amount : BudgetAmount}

-- The reservation is held or committed, it belongs to the holder, and it can be committed.
structure Honours (s : Store) (name key holder : String) : Prop where
  live    : ∃ b ∈ s.budgets[name]?, ∃ r ∈ b.reservations[key]?,
    r.holder = holder ∧ (r.status = .held ∨ r.status = .committed)
  commits : ∀ (o : IterOrder) (actual : BudgetAmount) (now : Nat),
    (s.applyAt o (.budgetCommit name key actual) now).2.output.flag "ok" = some true

-- Any reservation under the id belongs to the holder and has not been released.
def Reservable (s : Store) (name key holder : String) : Prop :=
  ∀ b ∈ s.budgets[name]?, ∀ r ∈ b.reservations[key]?, r.holder = holder ∧ r.status ≠ .released

instance (s : Store) (name key holder : String) : Decidable (s.Reservable name key holder) :=
  inferInstanceAs (Decidable (∀ b ∈ s.budgets[name]?, ∀ r ∈ b.reservations[key]?,
    r.holder = holder ∧ r.status ≠ .released))

theorem honours_iff :
    s.Honours name key holder ↔ ∃ b, s.budgets[name]? = some b ∧ ∃ r, b.reservations[key]? = some r ∧
      r.holder = holder ∧ r.status ≠ .released := by
  have live (status : ReservationStatus) : status ≠ .released ↔ status = .held ∨ status = .committed := by
    cases status <;> decide
  constructor
  case mp =>
    intro ⟨⟨b, mem, r, stored, same, status⟩, _⟩
    exact ⟨b, mem, r, stored, same, (live _).mpr status⟩
  case mpr =>
    intro ⟨b, mem, r, stored, same, status⟩
    refine ⟨⟨b, mem, r, stored, same, (live _).mp status⟩, fun o actual now => ?_⟩
    have budgets : (s.prepare o (.budgetCommit name key actual) now).budgets = s.budgets :=
      prepare_frame .budgets rfl
    exact Budgets.applyBudgetCommit_ok_iff.mpr ⟨b, budgets ▸ mem, r, stored, status⟩

theorem reservation_honoured_iff
    (ok : (s.applyAt o (.budgetReserve name key holder amount) now).2.output.flag "ok" = some true) :
    (s.applyAt o (.budgetReserve name key holder amount) now).1.Honours name key holder ↔
      s.Reservable name key holder := by
  have budgets : (s.prepare o (.budgetReserve name key holder amount) now).budgets = s.budgets :=
    prepare_frame .budgets rfl
  have ⟨b, b', mem, mem', stored⟩ := Budgets.applyBudgetReserve_ok ok
  have after : (s.applyAt o (.budgetReserve name key holder amount) now).1.budgets[name]? = some b' := mem'
  rw [budgets] at mem
  rw [honours_iff, after]
  simp only [Reservable, mem, Option.mem_some_iff, Option.some.injEq, exists_eq_left', forall_eq', stored]
  cases b.reservations[key]?
  case none => simp
  case some r => simp

end Reservations

-- The budget is there and within its limits.
def BudgetWithin (s : Store) (name : String) : Prop :=
  ∃ b ∈ s.budgets[name]?, b.Within

instance (s : Store) (name : String) : Decidable (s.BudgetWithin name) :=
  inferInstanceAs (Decidable (∃ b ∈ s.budgets[name]?, b.Within))

-- The command neither sets the limits of the budget nor overruns them.
def WithinMeans (name : String) (s : Store) (_ : IterOrder) (c : Command) (_now : Nat) : Prop :=
  (∀ ceiling, c ≠ .budgetSet name ceiling) ∧
  ∀ b, s.budgets[name]? = some b → b.Affordable name c

theorem BudgetWithin.step (h : s.BudgetWithin name) (means : WithinMeans name s o c now) :
    (s.applyAt o c now).1.BudgetWithin name := by
  have ⟨b, mem, within⟩ := h
  have t : BudgetRecord.Step name c (some b) (s.applyAt o c now).1.budgets[name]? := mem ▸ applyAt_budgets
  have ⟨b', mem'⟩ : ∃ b', (s.applyAt o c now).1.budgets[name]? = some b' := by
    generalize (s.applyAt o c now).1.budgets[name]? = r at t
    cases t
    case set ceiling => exact absurd rfl (means.1 ceiling)
    all_goals exact ⟨_, rfl⟩
  exact ⟨b', mem', (mem' ▸ t).within within means.1 (means.2 b mem)⟩

theorem budget_never_oversubscribed (start : s.BudgetWithin name) (r : Runs (WithinMeans name) s s') :
    s'.BudgetWithin name := by
  induction r
  case refl => exact start
  case apply means _ ih => exact ih.step means

section Overrun

def dollars (amount : Option Nat) : BudgetAmount where
  usdMicros := amount
  tokens    := none
  toolCalls := none

-- The budget after it was set to a limit and some commands were applied.
def spend (limit : Nat) (commands : List Command) : Store :=
  letI := External.fixed
  (.budgetSet "b" (dollars (some limit)) :: commands).foldl (fun s c => (s.applyAt .sorted c 0).1) .empty

-- The answer of the budget to one more command, and the status of its reservation.
def answers (commands : List Command) (c : Command) : Option Bool × Option ReservationStatus :=
  letI := External.fixed
  let (s, result) := (spend 10 commands).applyAt .sorted c 0
  (result.output.flag "ok", s.budgets["b"]?.bind (·.reservations["r"]?.map (·.status)))

-- A reservation that was released is confirmed to its holder once more, and one that is held by another
-- holder as well.
omit [External] in
theorem released_reservation_confirmed :
    let reserve (holder : String) := Command.budgetReserve "b" "r" holder (dollars (some 4))
    let released := [reserve "h", .budgetRelease "b" "r"]
    answers released (reserve "h") = (some true, some .released) ∧
    answers (released ++ [reserve "h"]) (.budgetCommit "b" "r" (dollars (some 4))) =
      (some false, some .released) ∧
    answers [reserve "h"] (reserve "h'") = (some true, some .held) ∧
    ¬(spend 10 [reserve "h"]).Reservable "b" "r" "h'" := by
  decide +kernel

omit [External] in
theorem held_reservation_honoured :
    letI := External.fixed
    ((spend 10 [.budgetReserve "b" "r" "h" (dollars (some 4))]).applyAt .sorted
      (.budgetReserve "b" "r" "h" (dollars (some 4))) 0).1.Honours "b" "r" "h" := by
  let := External.fixed
  exact (reservation_honoured_iff (by decide +kernel)).mpr (by decide +kernel)

-- What is spent on an axis is not capped if nothing was reserved on it, and reservations under the
-- highest limit are never refused.
omit [External] in
theorem budget_overrun :
    let commit := [
      .budgetReserve "b" "r" "h" (dollars none), .budgetCommit "b" "r" (dollars (some 100))
    ]
    let reserve := [
      .budgetReserve "b" "r" "h" (dollars (some U64.max)), .budgetReserve "b" "r'" "h" (dollars (some 1))
    ]
    (spend 10 []).BudgetWithin "b" ∧ ¬(spend 10 commit).BudgetWithin "b" ∧
    (spend U64.max []).BudgetWithin "b" ∧ ¬(spend U64.max reserve).BudgetWithin "b" := by
  decide +kernel

-- A reservation for four dollars caps what is spent.
omit [External] in
theorem budget_capped :
    (spend 10 [
      .budgetReserve "b" "r" "h" (dollars (some 4)), .budgetCommit "b" "r" (dollars (some 100))
    ]).BudgetWithin "b" := by
  let := External.fixed
  let s := spend 10 []
  let s₁ := (s.applyAt .sorted (.budgetReserve "b" "r" "h" (dollars (some 4))) 0).1
  have low : ∀ b ∈ s.budgets["b"]?, ∀ axis ∈ BudgetAmount.axes, ∀ cap ∈ axis b.limit, ¬U64.max ≤ cap := by
    decide +kernel
  have reserved : ∀ b ∈ s₁.budgets["b"]?, ∀ r ∈ b.reservations["r"]?, ∀ axis ∈ BudgetAmount.axes,
      ∀ cap ∈ axis b.limit, axis r.reserved ≠ none := by
    decide +kernel
  have r : Runs (WithinMeans "b") s (s₁.applyAt .sorted (.budgetCommit "b" "r" (dollars (some 100))) 0).1 := by
    refine .apply ⟨nofun, ?commit⟩ (.apply ⟨nofun, ?reserve⟩ .refl)
    case commit =>
      exact fun b mem _ r stored _ axis axes cap limited none =>
        absurd none (reserved b mem r stored axis axes cap limited)
    case reserve =>
      exact fun b mem _ axis axes cap limited high => absurd high (low b mem axis axes cap limited)
  exact budget_never_oversubscribed (by decide +kernel) r

end Overrun

end Store
