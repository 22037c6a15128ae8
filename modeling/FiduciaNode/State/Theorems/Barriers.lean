import FiduciaNode.State.Theorems.Frames

namespace BarrierArrival

-- What an arrival adds to the tallies.
def vetoes (a : BarrierArrival) : Nat :=
  if a.veto then 1 else 0

def counted (a : BarrierArrival) : Nat :=
  if a.veto then 0 else 1

def weighed (a : BarrierArrival) : Nat :=
  if a.veto then 0 else a.weight

end BarrierArrival

namespace BarrierRecord

open BarrierArrival

abbrev Arrivals := HashMap String BarrierArrival

-- An arrival can veto the barrier.
def isVetoable (b : BarrierRecord) : Bool :=
  b.policy matches .anyVeto

def passed (b : BarrierRecord) (now : Nat) : Bool :=
  b.deadlineMs.any (· ≤ now)

-- Arrivals of this number and this weight meet the policy.
def meets (b : BarrierRecord) (now count weight : Nat) : Bool :=
  match b.policy with
  | .all | .anyVeto => decide (count ≥ b.expected)
  | .quorum required => decide (count ≥ required)
  | .firstSuccess => decide (count ≥ 1)
  | .weightedQuorum requiredWeight => decide (min weight U64.max ≥ requiredWeight)
  | .bestByDeadline => b.passed now && decide (count ≥ 1)

variable {b : BarrierRecord} {o : IterOrder} {now : Nat} {arrivals : Arrivals}

section Tally

theorem any_veto (l : List BarrierArrival) : l.any (·.veto) = decide (0 < (l.map vetoes).sum) := by
  induction l
  case nil => rfl
  case cons a l ih =>
    rw [List.any_cons, ih, List.map_cons, List.sum_cons, vetoes]
    cases a.veto <;> simp

theorem length_filter (l : List BarrierArrival) : (l.filter (!·.veto)).length = (l.map counted).sum := by
  induction l
  case nil => rfl
  case cons a l ih =>
    rw [List.map_cons, List.sum_cons, counted, List.filter_cons, ← ih]
    cases a.veto <;> simp [Nat.add_comm]

theorem sum_filter (l : List BarrierArrival) :
    ((l.filter (!·.veto)).map (·.weight)).sum = (l.map weighed).sum := by
  induction l
  case nil => rfl
  case cons a l ih =>
    rw [List.map_cons, List.sum_cons, weighed, List.filter_cons, ← ih]
    cases a.veto <;> simp

end Tally

-- The status is a verdict on the tallies.
theorem status_eq :
    b.status o now =
      if b.isVetoable && decide (0 < HashMap.total vetoes b.arrivals) then .vetoed
      else if b.meets now (HashMap.total counted b.arrivals) (HashMap.total weighed b.arrivals) then .satisfied
      else if b.passed now then .timedOut
      else .pending := by
  simp only [status, any_veto, length_filter, U64.foldl_saturatingAdd _ _ (Nat.zero_le _), Nat.zero_add,
    sum_filter, HashMap.sum_values]
  rfl

theorem status_order (o₁ o₂ : IterOrder) : b.status o₁ now = b.status o₂ now :=
  status_eq.trans status_eq.symm

theorem status_eq_vetoed_iff :
    b.status o now = .vetoed ↔ b.isVetoable ∧ 0 < HashMap.total vetoes b.arrivals := by
  rw [status_eq]
  grind

theorem status_eq_satisfied_iff :
    b.status o now = .satisfied ↔ ¬(b.isVetoable ∧ 0 < HashMap.total vetoes b.arrivals) ∧
      b.meets now (HashMap.total counted b.arrivals) (HashMap.total weighed b.arrivals) := by
  rw [status_eq]
  grind

theorem status_eq_timedOut_iff :
    b.status o now = .timedOut ↔ ¬(b.isVetoable ∧ 0 < HashMap.total vetoes b.arrivals) ∧
      b.meets now (HashMap.total counted b.arrivals) (HashMap.total weighed b.arrivals) = false ∧
      b.passed now := by
  rw [status_eq]
  grind

section View

variable {name : String}

-- The weight that the status is decided by.
def statusWeight (o : IterOrder) (b : BarrierRecord) : Nat :=
  b.arrivals.values o |>.filter (!·.veto) |>.foldl (fun acc a => U64.saturatingAdd acc a.weight) 0

-- The weight in the view, as far as its sum does not overflow.
def checkedWeight (o : IterOrder) (b : BarrierRecord) : Option Nat :=
  (b.arrivals.values o).mergeSort before |>.filter (!·.veto)
    |>.foldlM (fun acc a => U64.checkedAdd acc a.weight) 0

structure TalliesAgree (o : IterOrder) (b : BarrierRecord) (name : String) (now : Nat) : Prop where
  noOverflow : (b.checkedWeight o).isSome
  weight     : (b.view o name now).arrivedWeight = b.statusWeight o
  verdict    : ∀ requiredWeight, b.policy = .weightedQuorum requiredWeight →
    ((b.view o name now).status = .satisfied ↔ requiredWeight ≤ (b.view o name now).arrivedWeight)

theorem statusWeight_eq : b.statusWeight o = min (HashMap.total weighed b.arrivals) U64.max := by
  rw [statusWeight, U64.foldl_saturatingAdd _ _ (Nat.zero_le _), Nat.zero_add, sum_filter, HashMap.sum_values]

theorem sum_view :
    ((((b.arrivals.values o).mergeSort before).filter (!·.veto)).map (·.weight)).sum =
      HashMap.total weighed b.arrivals := by
  rw [sum_filter, ((List.mergeSort_perm _ _).map _).sum_eq, HashMap.sum_values]

theorem checkedWeight_isSome : (b.checkedWeight o).isSome ↔ HashMap.total weighed b.arrivals ≤ U64.max := by
  rw [checkedWeight, U64.foldlM_checkedAdd _ _ (Nat.zero_le _), Nat.zero_add, sum_view]
  split
  case isTrue fits => simpa using fits
  case isFalse exceeds => simpa using exceeds

theorem arrivedWeight_eq :
    (b.view o name now).arrivedWeight = HashMap.total weighed b.arrivals % 2 ^ 64 := by
  rw [view, U64.foldl_wrappingAdd _ _ (by decide), Nat.zero_add, sum_view]

theorem satisfied_iff_statusWeight {requiredWeight : Nat} (policy : b.policy = .weightedQuorum requiredWeight) :
    b.status o now = .satisfied ↔ requiredWeight ≤ b.statusWeight o := by
  rw [status_eq_satisfied_iff, statusWeight_eq, isVetoable, meets, policy]
  simp

-- The view of a barrier is right about its weight as long as the weights add up to a machine integer.
theorem tallies_agree_iff (o : IterOrder) (b : BarrierRecord) (name : String) (now : Nat) :
    TalliesAgree o b name now ↔ HashMap.total weighed b.arrivals ≤ U64.max := by
  constructor
  case mp => exact fun agree => checkedWeight_isSome.mp agree.noOverflow
  case mpr =>
    intro fits
    have weight : (b.view o name now).arrivedWeight = b.statusWeight o := by
      have lt : HashMap.total weighed b.arrivals < 2 ^ 64 := Nat.lt_of_le_pred (by decide) fits
      rw [arrivedWeight_eq, statusWeight_eq, Nat.mod_eq_of_lt lt, Nat.min_eq_left fits]
    exact ⟨checkedWeight_isSome.mpr fits, weight, fun _ policy => weight ▸ satisfied_iff_statusWeight policy⟩

-- Two participants whose weights exceed the largest machine integer.
def heavy : BarrierRecord where
  policy     := .weightedQuorum 1
  expected   := 2
  deadlineMs := none
  arrivals   := (∅ : Arrivals) |>.insert "p" ⟨"p", U64.max, false, 0⟩ |>.insert "q" ⟨"q", 1, false, 0⟩

-- The barrier is satisfied by them, and its view says that nothing has arrived.
theorem heavy_view :
    heavy.checkedWeight .sorted = none ∧ heavy.statusWeight .sorted = U64.max ∧
    (heavy.view .sorted "b" 0).status = .satisfied ∧ (heavy.view .sorted "b" 0).arrivedWeight = 0 := by
  have total : HashMap.total weighed heavy.arrivals = U64.max + 1 := by decide +kernel
  have exceeds : ¬(heavy.checkedWeight .sorted).isSome := by
    rw [checkedWeight_isSome, total]
    decide
  have saturated : heavy.statusWeight .sorted = U64.max := by
    rw [statusWeight_eq, total]
    decide
  have wrapped : (heavy.view .sorted "b" 0).arrivedWeight = 0 := by
    rw [arrivedWeight_eq, total]
    decide
  have satisfied : heavy.status .sorted 0 = .satisfied := by
    rw [satisfied_iff_statusWeight (rfl : heavy.policy = .weightedQuorum 1), saturated]
    decide
  exact ⟨Option.not_isSome_iff_eq_none.mp exceeds, saturated, satisfied, wrapped⟩

end View

theorem passed_later {later : Nat} (le : now ≤ later) (h : b.passed now) : b.passed later := by
  unfold passed at h ⊢
  cases deadline : b.deadlineMs
  case none => simp [deadline] at h
  case some =>
    simp only [deadline, Option.any_some, decide_eq_true_eq] at h ⊢
    exact h.trans le

theorem meets_later {later count weight : Nat} (le : now ≤ later) (h : b.meets now count weight) :
    b.meets later count weight := by
  have passed := passed_later (b := b) le
  unfold meets at h ⊢
  split at h <;> simp_all

theorem meets_passed {later count weight : Nat} (le : now ≤ later) (h : b.passed now) :
    b.meets later count weight = b.meets now count weight := by
  simp only [meets, h, passed_later le h]

-- Time alone changes nothing about a verdict.
theorem status_later {later : Nat} (le : now ≤ later) (resolved : (b.status o now).isTerminal) :
    b.status o later = b.status o now := by
  cases status : b.status o now
  case pending =>
    rw [status] at resolved
    contradiction
  case vetoed => exact status_eq_vetoed_iff.mpr (status_eq_vetoed_iff.mp status)
  case satisfied =>
    have ⟨free, met⟩ := status_eq_satisfied_iff.mp status
    exact status_eq_satisfied_iff.mpr ⟨free, meets_later le met⟩
  case timedOut =>
    have ⟨free, unmet, passed⟩ := status_eq_timedOut_iff.mp status
    exact status_eq_timedOut_iff.mpr ⟨free, (meets_passed le passed).trans unmet, passed_later le passed⟩

section Arrive

variable {participant : String} {a : BarrierArrival}

def arrive (b : BarrierRecord) (participant : String) (a : BarrierArrival) : BarrierRecord :=
  { b with arrivals := b.arrivals.insert participant a }

-- An arrival leaves the verdict on the barrier as it is, given the arrivals of all others.
def isUnmoved (b : BarrierRecord) (now : Nat) (participant : String) (a : BarrierArrival) : Bool :=
  let others := b.arrivals.erase participant
  let met := b.meets now (HashMap.total counted others + a.counted) (HashMap.total weighed others + a.weighed)
  match b.status .sorted now with
  | .pending => true
  | .vetoed => a.veto || decide (0 < HashMap.total vetoes others)
  | .satisfied => !(b.isVetoable && a.veto) && met
  | .timedOut => !(b.isVetoable && a.veto) && !met

theorem arrive_status_iff (resolved : (b.status o now).isTerminal) :
    (b.arrive participant a).status o now = b.status o now ↔ b.isUnmoved now participant a := by
  have vetoed : HashMap.total vetoes (b.arrive participant a).arrivals =
      HashMap.total vetoes (b.arrivals.erase participant) + a.vetoes := HashMap.total_insert _ _ _
  have count : HashMap.total counted (b.arrive participant a).arrivals =
      HashMap.total counted (b.arrivals.erase participant) + a.counted := HashMap.total_insert _ _ _
  have weight : HashMap.total weighed (b.arrive participant a).arrivals =
      HashMap.total weighed (b.arrivals.erase participant) + a.weighed := HashMap.total_insert _ _ _
  have before := HashMap.total_erase (f := vetoes) b.arrivals participant
  have veto : 0 < a.vetoes ↔ a.veto := by
    unfold BarrierArrival.vetoes
    cases a.veto <;> simp
  rw [isUnmoved, status_order .sorted o]
  cases status : b.status o now
  case pending =>
    rw [status] at resolved
    contradiction
  case vetoed =>
    have ⟨vetoable, _⟩ := status_eq_vetoed_iff.mp status
    simp only [Bool.or_eq_true, decide_eq_true_eq]
    rw [status_eq_vetoed_iff, vetoed, ← veto]
    refine (and_iff_right vetoable).trans ?_
    omega
  case satisfied =>
    obtain ⟨free, _⟩ := status_eq_satisfied_iff.mp status
    simp only [Bool.and_eq_true, Bool.not_eq_true', ← Bool.not_eq_true]
    rw [status_eq_satisfied_iff, vetoed, count, weight, ← veto]
    refine and_congr (not_congr (and_congr_right fun vetoable => ?_)) .rfl
    have : ¬0 < HashMap.total vetoes b.arrivals := fun h => free ⟨vetoable, h⟩
    omega
  case timedOut =>
    obtain ⟨free, _, passed⟩ := status_eq_timedOut_iff.mp status
    simp only [Bool.and_eq_true, Bool.not_eq_true', ← Bool.not_eq_true]
    rw [status_eq_timedOut_iff, vetoed, count, weight, ← veto]
    refine and_congr (not_congr (and_congr_right fun vetoable => ?_)) ((and_iff_left passed).trans (Bool.not_eq_true _).symm.to_iff)
    have : ¬0 < HashMap.total vetoes b.arrivals := fun h => free ⟨vetoable, h⟩
    omega

end Arrive

-- What a command can do to the barrier of a name.
inductive Step (name : String) (now : Nat) : Command → Option BarrierRecord → Option BarrierRecord → Prop
  | keep : Step name now c r r
  | create (order : IterOrder) (policy : BarrierPolicy) (expected : Nat) (deadlineMs : Option Nat)
    (isOpen : ∀ record, r = some record → (record.status order now).isTerminal = false) :
    Step name now (.barrierCreate name policy expected deadlineMs) r (some b')
  | first (participant : String) (weight : Nat) (veto : Bool) :
    Step name now (.barrierArrive name participant weight veto) none (some b')
  | arrive (participant : String) (weight : Nat) (veto : Bool) :
    Step name now (.barrierArrive name participant weight veto) (some record)
      (some (record.arrive participant { participant, weight, veto, arrivedMs := now }))

-- A command that leaves the verdict on a resolved barrier as it is.
theorem Step.final {name : String} {c : Command} {r : Option BarrierRecord} (t : Step name now c (some b) r)
    (resolved : (b.status o now).isTerminal) (undisturbed : ∀ participant weight veto,
      c = .barrierArrive name participant weight veto →
      b.isUnmoved now participant { participant, weight, veto, arrivedMs := now }) :
    ∃ b', r = some b' ∧ b'.status o now = b.status o now := by
  cases t
  case keep => exact ⟨b, rfl, rfl⟩
  case create b' order _ _ _ isOpen =>
    have := isOpen b rfl
    rw [status_order order o, resolved] at this
    contradiction
  case arrive participant weight veto =>
    exact ⟨_, rfl, (arrive_status_iff resolved).mpr (undisturbed _ _ _ rfl)⟩

end BarrierRecord

namespace Barriers

variable {barriers : Barriers} {o : IterOrder} {now : Nat} {name name' : String}

theorem applyBarrierCreate_step (policy : BarrierPolicy) (expected : Nat) (deadlineMs : Option Nat) :
    BarrierRecord.Step name' now (.barrierCreate name policy expected deadlineMs) barriers[name']?
      (barriers.applyBarrierCreate o now name policy expected deadlineMs).1[name']? := by
  simp only [applyBarrierCreate]
  split
  case h_1 => exact .keep
  case h_2 isOpen =>
    rw [HashMap.get_insert]
    split
    case isFalse => exact .keep
    case isTrue same =>
      subst same
      refine .create o policy expected deadlineMs fun b mem => ?_
      simpa [mem] using isOpen

theorem applyBarrierArrive_step (o : IterOrder) (participant : String) (weight : Nat) (veto : Bool) :
    BarrierRecord.Step name' now (.barrierArrive name participant weight veto) barriers[name']?
      (barriers.applyBarrierArrive o now name participant weight veto).1[name']? := by
  simp only [applyBarrierArrive, HashMap.get_insert]
  split
  case isFalse => exact .keep
  case isTrue same =>
    subst same
    cases barriers[name]?
    case none => exact .first participant weight veto
    case some b => exact .arrive participant weight veto

end Barriers

namespace Store

variable [External] {s s' : Store} {o : IterOrder} {c : Command} {revision now t t' : Nat} {name : String}
  {b : BarrierRecord}

theorem applyCommand_barriers :
    BarrierRecord.Step name now c s.barriers[name]? (s.applyCommand o revision now c).1.barriers[name]? := by
  by_cases h : c.part = .barriers
  case neg =>
    have same : (s.applyCommand o revision now c).1.barriers = s.barriers :=
      applyCommand_touches.frame .barriers (Ne.symm h)
    exact same ▸ .keep
  case pos =>
    cases c <;> try contradiction
    case barrierCreate => exact Barriers.applyBarrierCreate_step _ _ _
    case barrierArrive => exact Barriers.applyBarrierArrive_step o _ _ _

theorem applyAt_barriers :
    BarrierRecord.Step name now c s.barriers[name]? (s.applyAt o c now).1.barriers[name]? := by
  have same : (s.prepare o c now).barriers = s.barriers := prepare_frame .barriers rfl
  exact same ▸ applyCommand_barriers

-- An arrival at the barrier leaves the verdict on it as it is.
def Undisturbed (name : String) (s : Store) (c : Command) (now : Nat) : Prop :=
  ∀ participant weight veto, c = .barrierArrive name participant weight veto →
  ∀ b, s.barriers[name]? = some b →
    b.isUnmoved now participant { participant, weight, veto, arrivedMs := now }

theorem Advances.barrier_status (r : Advances (Undisturbed name) s t s' t')
    (mem : s.barriers[name]? = some b) (resolved : (b.status o t).isTerminal) :
    ∃ b', s'.barriers[name]? = some b' ∧ b'.status o t' = b.status o t := by
  induction r
  case refl => exact ⟨b, mem, rfl⟩
  case wait later _ ih =>
    have ⟨b', mem', same⟩ := ih
    exact ⟨b', mem', (BarrierRecord.status_later later (same ▸ resolved)).trans same⟩
  case apply s₁ t₁ o₁ c now undisturbed later _ ih =>
    have ⟨b₁, mem₁, same⟩ := ih
    have resolved₁ : (b₁.status o t₁).isTerminal := same ▸ resolved
    have same : b₁.status o now = b.status o t := (BarrierRecord.status_later later resolved₁).trans same
    have step : BarrierRecord.Step name now c (some b₁) (s₁.applyAt o₁ c now).1.barriers[name]? :=
      mem₁ ▸ applyAt_barriers
    have ⟨b', mem', same'⟩ := step.final (same ▸ resolved) fun p w v command => undisturbed p w v command b₁ mem₁
    exact ⟨b', mem', same'.trans same⟩

section Reopened

-- A barrier with these arrivals, each of them at its time.
def gathered (policy : BarrierPolicy) (arrivals : List (Nat × String × Bool)) : Store :=
  letI := External.fixed
  let created := (Store.empty.applyAt .sorted (.barrierCreate "b" policy 1 (some 5)) 0).1
  arrivals.foldl (fun s (now, participant, veto) =>
    (s.applyAt .sorted (.barrierArrive "b" participant 1 veto) now).1) created

def statusAt (s : Store) (now : Nat) : Option BarrierStatus :=
  s.barriers["b"]?.map (·.status .sorted now)

end Reopened

end Store
