import FiduciaNode.Cron.Theorems.Search
import FiduciaNode.Cron.Theorems.Text
import FiduciaNode.Primitives.Result

namespace Cron

-- What a token says: a number, or the name of one.
inductive Names.Spells (names : Names) (t : Text) : Nat → Prop
  | number (h : Numeral t n) : Spells names t n
  | name (h : (toAsciiLowercase t, n) ∈ names) : Spells names t n

def Names.Says (names : Names) (t : Text) (n : Nat) : Prop :=
  names.Spells (trim t) n

-- What stands before the step of a part.
inductive Shape
  | whole
  | value (a : Nat)
  | span (a b : Nat)

inductive Shape.Written (names : Names) : Text → Shape → Prop
  | whole : Written names ['*'] .whole
  | value (h : names.Says t a) : Written names t (.value a)
  | span (h₁ : names.Says t₁ a) (h₂ : names.Says t₂ b) : Written names (t₁ ++ '-' :: t₂) (.span a b)

-- A part is a shape, and it may have a step.
inductive Written (names : Names) : Text → Shape → Option Nat → Prop
  | plain (h : Shape.Written names t x) : Written names t x none
  | stepped (h : Shape.Written names t x) (step : Numeral s n) : Written names (t ++ '/' :: s) x (some n)

-- A single value that has a step starts a range, which goes on to the maximum of the field.
def Shape.bounds (min max : Nat) (step : Option Nat) : Shape → Nat × Nat
  | whole => (min, max)
  | value a => (a, if step.isSome then max else a)
  | span a b => (a, b)

-- The values that a part stands for by the documentation.
def Shape.values (min max : Nat) (x : Shape) (step : Option Nat) : Set Nat :=
  let (lo, hi) := x.bounds min max step
  { v | v ≤ hi ∧ ∃ k, v = lo + step.getD 1 * k }

-- The texts of names are told apart by their letters, and no number is a name.
structure Names.Plain (names : Names) : Prop where
  nodup   : (names.map Prod.fst).Nodup
  letters : ∀ p ∈ names, ∀ c ∈ p.1, c.isLower
  ne_nil  : ∀ p ∈ names, p.1 ≠ []

theorem plain_nil : Names.Plain [] := by
  constructor <;> simp

theorem plain_months : months.Plain := by
  constructor <;> simp [months]

theorem plain_days : days.Plain := by
  constructor <;> simp [days]

section Part

variable {names : Names} {t part : Text} {n m min max : Nat} {x : Shape} {step : Option Nat} {values : List Nat}

theorem Names.Plain.isAlpha (plain : names.Plain) (h : (toAsciiLowercase t, n) ∈ names) :
    ∀ c ∈ t, c.isAlpha := by
  intro c mem
  have lower := plain.letters _ h _ (List.mem_map_of_mem mem)
  split at lower
  case isTrue upper => simp [Char.isAlpha, Char.isUpper, Char.le_def] at upper ⊢; exact .inl upper
  case isFalse => simp [Char.isAlpha, lower]

-- A token consists of digits, letters and signs.
theorem Names.Spells.chars (plain : names.Plain) (h : names.Spells t n) :
    ∀ c ∈ t, c.isDigit ∨ c.isAlpha ∨ c = '+' := by
  intro c mem
  cases h
  case name h => exact .inr (.inl (plain.isAlpha h c mem))
  case number h =>
    have digits := (numeral_iff.mp h).2.1
    rcases unsigned_spec t with eq | eq
    case inl => exact .inl (digits c (eq ▸ mem))
    case inr =>
      rw [eq] at mem
      rcases List.mem_cons.mp mem with plus | mem
      case inl => exact .inr (.inr plus)
      case inr => exact .inl (digits c mem)

theorem Names.Spells.unique (plain : names.Plain) (h₁ : names.Spells t n) (h₂ : names.Spells t m) : n = m := by
  have disjoint {n m : Nat} (number : Numeral t n) (name : (toAsciiLowercase t, m) ∈ names) : False := by
    have ⟨ne, digits, _⟩ := numeral_iff.mp number
    have ⟨c, mem⟩ := List.exists_mem_of_ne_nil _ ne
    have mem' : c ∈ t := by
      rcases unsigned_spec t with eq | eq
      case inl => exact eq ▸ mem
      case inr => exact eq ▸ List.mem_cons_of_mem _ mem
    have digit := digits c mem
    have alpha := plain.isAlpha name c mem'
    simp [Char.isDigit, Char.isAlpha, Char.isUpper, Char.isLower, UInt32.le_iff_toNat_le] at digit alpha
    omega
  cases h₁ <;> cases h₂
  case number.number h₁ h₂ => exact h₁.unique h₂
  case number.name number name => exact (disjoint number name).elim
  case name.number name number => exact (disjoint number name).elim
  case name.name h₁ h₂ => exact congrArg Prod.snd (List.inj_on_of_nodup_map plain.nodup h₁ h₂ rfl)

theorem Names.Says.notMem (plain : names.Plain) (h : names.Says t n) {c : Char}
    (other : ¬ (c.isDigit ∨ c.isAlpha ∨ c = '+' ∨ isWhitespace c)) : c ∉ t := by
  intro mem
  have chars := Names.Spells.chars plain h c
  rcases mem_trim_or mem with mem | white
  case inl => exact other (by have := chars mem; tauto)
  case inr => exact other (by tauto)

theorem Shape.Written.notMem (plain : names.Plain) (h : Shape.Written names t x) : '/' ∉ t := by
  cases h
  case whole => decide
  case value h => exact h.notMem plain (by decide)
  case span h₁ h₂ =>
    have := h₁.notMem plain (c := '/') (by decide)
    have := h₂.notMem plain (c := '/') (by decide)
    simp_all

-- A text can be read in one way.
theorem Shape.Written.unique {x₁ x₂ : Shape} (plain : names.Plain) (h₁ : Shape.Written names t x₁)
    (h₂ : Shape.Written names t x₂) : x₁ = x₂ := by
  have hyphen {t : Text} {n : Nat} (h : names.Says t n) : '-' ∉ t := h.notMem plain (by decide)
  generalize eq : t = t' at h₂
  cases h₁ <;> cases h₂
  case whole.whole => rfl
  case whole.value h => exact absurd (eq ▸ List.mem_singleton_self '*') (h.notMem plain (by decide))
  case whole.span h₁ h₂ => exact absurd (show '-' ∈ ['*'] by simp [eq]) (by decide)
  case value.whole h => exact absurd (eq ▸ List.mem_singleton_self '*') (h.notMem plain (by decide))
  case value.value h₁ _ h₂ => rw [Names.Spells.unique plain h₁ (eq ▸ h₂)]
  case value.span h _ _ _ _ _ _ => exact absurd (by simp [eq]) (hyphen h)
  case span.whole h₁ h₂ => exact absurd (show '-' ∈ ['*'] by simp [← eq]) (by decide)
  case span.value h => exact absurd (by simp [← eq]) (hyphen h)
  case span.span h₁ h₂ _ _ _ _ h₃ h₄ =>
    have split := splitOnce_append (hyphen h₁) ▸ eq ▸ splitOnce_append (hyphen h₃)
    obtain ⟨rfl, rfl⟩ := Prod.mk.inj (Option.some.inj split)
    rw [Names.Spells.unique plain h₁ h₃, Names.Spells.unique plain h₂ h₄]

theorem Written.unique {x₁ x₂ : Shape} {s₁ s₂ : Option Nat} (plain : names.Plain) (h₁ : Written names part x₁ s₁)
    (h₂ : Written names part x₂ s₂) : x₁ = x₂ ∧ s₁ = s₂ := by
  generalize eq : part = part' at h₂
  cases h₁ <;> cases h₂
  case plain.plain h₁ h₂ => exact ⟨h₁.unique plain (eq ▸ h₂), rfl⟩
  case plain.stepped h _ _ _ _ _ => exact absurd (by simp [eq]) (h.notMem plain)
  case stepped.plain h => exact absurd (by simp [← eq]) (h.notMem plain)
  case stepped.stepped n₁ h₁ _ _ _ n₂ h₂ =>
    have split := splitOnce_append (h₁.notMem plain) ▸ eq ▸ splitOnce_append (h₂.notMem plain)
    obtain ⟨rfl, rfl⟩ := Prod.mk.inj (Option.some.inj split)
    exact ⟨h₁.unique plain h₂, by rw [n₁.unique n₂]⟩

theorem says_of_parseValue (h : parseValue t names = .ok n) : names.Says t n := by
  simp only [parseValue] at h
  split at h
  case h_1 number =>
    cases h
    exact .number (parseU32_eq_some_iff.mp number).1
  case h_2 =>
    split at h
    case h_2 => cases h
    case h_1 text v found =>
      cases h
      have eq : text = toAsciiLowercase (trim t) := by simpa using List.find?_some found
      exact .name (eq ▸ List.mem_of_find?_eq_some found)

-- The two halves of the parser of a part: its step and its range.
def stepOf (part : Text) : Except Text (Text × Nat) :=
  match splitOnce '/' part with
  | some (r, s) =>
    match parseU32 s with
    | none => .error ("bad step '".toList ++ s ++ "'".toList)
    | some 0 => .error "step must be >= 1".toList
    | some step => .ok (r, step)
  | none => .ok (part, 1)

def boundsOf (range : Text) (step min max : Nat) (names : Names) : Except Text (Nat × Nat) :=
  if range = ['*'] then .ok (min, max) else
    match splitOnce '-' range with
    | some (a, b) => do
      let lo ← parseValue a names
      let hi ← parseValue b names
      .ok (lo, hi)
    | none => do
      let v ← parseValue range names
      .ok (v, if step > 1 then max else v)

theorem parsePart_eq : parsePart part min max names = stepOf part >>= fun r => boundsOf r.1 r.2 min max names >>=
    fun b => if b.1 < min || b.2 > max || b.1 > b.2
      then .error ("value out of range [".toList ++ min.repr.toList ++ [','] ++ max.repr.toList ++
        "] in '".toList ++ part ++ "'".toList)
      else .ok (steps b.1 b.2 r.2) := by
  have ok {α β : Type} (a : α) (f : α → Except Text β) : (Except.ok a >>= f) = f a := rfl
  have bounds (range : Text) (step : Nat) (f : Nat × Nat → Except Text (List Nat)) :
      boundsOf range step min max names >>= f =
        if range = ['*'] then .ok (min, max) >>= f else
          match splitOnce '-' range with
          | some (a, b) => parseValue a names >>= fun lo => parseValue b names >>= fun hi => .ok (lo, hi) >>= f
          | none => parseValue range names >>= fun v => .ok (v, if step > 1 then max else v) >>= f := by
    simp only [boundsOf]
    split
    case isTrue => rfl
    case isFalse => split <;> simp only [bind_assoc]
  simp only [parsePart, stepOf]
  rcases splitOnce '/' part with _ | ⟨r, s⟩
  case none =>
    simp only [ok, bounds] <;> rfl
  case some =>
    dsimp only
    rcases parseU32 s with _ | _ | step
    case none | some.zero => rfl
    case some.succ =>
      simp only [ok, bounds] <;> rfl

theorem stepOf_ok {range : Text} (h : stepOf part = .ok (range, n)) :
    ∃ step : Option Nat, step ≠ some 0 ∧ step.getD 1 = n ∧
      ∀ {x}, Shape.Written names range x → Written names part x step := by
  simp only [stepOf] at h
  split at h
  case h_2 =>
    cases h
    exact ⟨none, by simp, rfl, .plain⟩
  case h_1 r s split =>
    split at h
    case h_1 | h_2 => cases h
    case h_3 step nonzero number =>
      cases h
      have eq := splitOnce_eq_some split
      refine ⟨some n, fun zero => nonzero (Option.some.inj zero), rfl, fun h => eq ▸ .stepped h ?_⟩
      exact (parseU32_eq_some_iff.mp number).1

theorem boundsOf_ok {range : Text} {lo hi : Nat} (h : boundsOf range (step.getD 1) min max names = .ok (lo, hi)) :
    ∃ x, Shape.Written names range x ∧ x.bounds min max (step.filter (1 < ·)) = (lo, hi) := by
  simp only [boundsOf] at h
  split at h
  case isTrue eq =>
    cases h
    exact ⟨.whole, eq ▸ .whole, rfl⟩
  case isFalse =>
    split at h
    case h_1 a b split =>
      simp only [Except.bind_eq_ok_iff] at h
      obtain ⟨_, first, _, last, eq⟩ := h
      cases eq
      exact ⟨.span lo hi, splitOnce_eq_some split ▸ .span (says_of_parseValue first) (says_of_parseValue last), rfl⟩
    case h_2 =>
      obtain ⟨v, value, eq⟩ := Except.bind_eq_ok_iff.mp h
      cases eq
      refine ⟨.value lo, .value (says_of_parseValue value), ?_⟩
      cases step
      case none => rfl
      case some n => by_cases h : 1 < n <;> simp [Shape.bounds, Option.filter, h]

theorem parsePart_ok (h : parsePart part min max names = .ok values) :
    ∃ x step lo hi, Written names part x step ∧ step ≠ some 0 ∧
      x.bounds min max (step.filter (1 < ·)) = (lo, hi) ∧ min ≤ lo ∧ lo ≤ hi ∧ hi ≤ max ∧
      values = steps lo hi (step.getD 1) := by
  simp only [parsePart_eq, Except.bind_eq_ok_iff, Except.ite_error_eq_ok_iff] at h
  obtain ⟨⟨range, n⟩, stepped, ⟨lo, hi⟩, bounded, within, eq⟩ := h
  cases eq
  obtain ⟨step, nonzero, rfl, written⟩ := stepOf_ok stepped
  have ⟨x, shape, bounds⟩ := boundsOf_ok bounded
  simp only [Bool.or_eq_true, decide_eq_true_eq, not_or, not_lt, gt_iff_lt] at within
  exact ⟨x, step, lo, hi, written shape, nonzero, bounds, within.1.1, within.2, within.1.2, rfl⟩

theorem mem_steps {lo hi n v : Nat} (pos : 0 < n) (le : lo ≤ hi) :
    v ∈ steps lo hi n ↔ v ≤ hi ∧ ∃ k, v = lo + n * k := by
  simp only [steps, if_pos le, List.mem_map, List.mem_range]
  constructor
  case mp =>
    rintro ⟨k, lt, rfl⟩
    have : n * k ≤ hi - lo := (Nat.mul_le_mul_left n (Nat.le_of_lt_succ lt)).trans (Nat.mul_div_le ..)
    exact ⟨by omega, k, rfl⟩
  case mpr =>
    rintro ⟨le, k, rfl⟩
    refine ⟨k, Nat.lt_succ_of_le ((Nat.le_div_iff_mul_le pos).mpr ?_), rfl⟩
    rw [Nat.mul_comm]
    omega

theorem pos_of_nonzero (nonzero : step ≠ some 0) : 0 < step.getD 1 := by
  cases step
  case none => decide
  case some n => exact Nat.pos_of_ne_zero fun zero => nonzero (zero ▸ rfl)

-- A step of one is taken for no step at all.
theorem mem_parsePart (plain : names.Plain) (h : parsePart part min max names = .ok values) {v : Nat} :
    v ∈ values ↔ ∃ x step, Written names part x step ∧ v ∈ x.values min max (step.filter (1 < ·)) := by
  obtain ⟨x, step, lo, hi, written, nonzero, bounds, _, le, _, rfl⟩ := parsePart_ok h
  have pos : 0 < step.getD 1 := pos_of_nonzero nonzero
  have same : (step.filter (1 < ·)).getD 1 = step.getD 1 := by
    cases step
    case none => rfl
    case some n =>
      by_cases one : 1 < n
      case pos => simp [Option.filter, one]
      case neg =>
        simp only [Option.getD_some] at pos
        simp [Option.filter, one]
        omega
  have values : v ∈ x.values min max (step.filter (1 < ·)) ↔ v ∈ steps lo hi (step.getD 1) := by
    simp only [Shape.values, bounds, Set.mem_ofPred_eq, same, mem_steps pos le]
  rw [← values]
  constructor
  case mp => exact fun mem => ⟨x, step, written, mem⟩
  case mpr =>
    intro ⟨x', step', written', mem⟩
    obtain ⟨rfl, rfl⟩ := written.unique plain written'
    exact mem

-- Only after a single value is it a difference that a step of one is ignored.
theorem mem_values (plain : names.Plain) (h : parsePart part min max names = .ok values)
    (written : Written names part x step) {v : Nat} :
    v ∈ x.values min max step ↔
      v ∈ x.values min max (step.filter (1 < ·)) ∨ ∃ a, x = .value a ∧ step = some 1 ∧ a < v ∧ v ≤ max := by
  obtain ⟨x', step', lo, hi, written', nonzero, bounds, _, le, le', _⟩ := parsePart_ok h
  obtain ⟨rfl, rfl⟩ := written.unique plain written'
  rcases step with _ | _ | _ | n
  case none => simp
  case some.zero => contradiction
  case some.succ.zero =>
    have ignored : (some (0 + 1)).filter (1 < ·) = (none : Option Nat) := rfl
    rw [ignored] at bounds ⊢
    cases x
    case value a =>
      cases bounds
      simp only [Shape.values, Shape.bounds, Set.mem_ofPred_eq, Option.isSome_some, Option.isSome_none, if_true,
        Bool.false_eq_true, if_false, Option.getD_some, Option.getD_none, Nat.zero_add, Nat.one_mul]
      constructor
      case mp =>
        rintro ⟨le, k, rfl⟩
        rcases Nat.eq_zero_or_pos k with rfl | pos
        case inl => exact .inl ⟨le_refl _, 0, rfl⟩
        case inr => exact .inr ⟨_, rfl, trivial, by omega, le⟩
      case mpr =>
        rintro (⟨le, k, rfl⟩ | ⟨a, eq, _, lt, le⟩)
        case inl => exact ⟨by omega, k, rfl⟩
        case inr =>
          cases eq
          exact ⟨le, v - lo, by omega⟩
    all_goals simp [Shape.values, Shape.bounds]
  case some.succ.succ => simp [Option.filter]

theorem parsePart_values (h : parsePart part min max names = .ok values) :
    (∃ v, v ∈ values) ∧ ∀ v ∈ values, min ≤ v ∧ v ≤ max := by
  obtain ⟨x, step, lo, hi, _, nonzero, _, le, le', le'', rfl⟩ := parsePart_ok h
  have pos : 0 < step.getD 1 := pos_of_nonzero nonzero
  refine ⟨⟨lo, (mem_steps pos le').mpr ⟨le', 0, rfl⟩⟩, fun v mem => ?_⟩
  have ⟨_, k, eq⟩ := (mem_steps pos le').mp mem
  omega

theorem steps_of_lt {lo hi n : Nat} (lt : hi < lo) : steps lo hi n = [] :=
  if_neg (by omega)

theorem steps_cons {lo hi n : Nat} (pos : 0 < n) (le : lo ≤ hi) : steps lo hi n = lo :: steps (lo + n) hi n := by
  rw [steps, if_pos le, List.range_succ_eq_map, List.map_cons, Nat.mul_zero, Nat.add_zero, List.map_map]
  congr 1
  by_cases next : lo + n ≤ hi
  case pos =>
    have count : (hi - lo) / n = (hi - (lo + n)) / n + 1 := by
      rw [← Nat.add_div_right _ pos]
      congr 1
      omega
    rw [steps, if_pos next, count]
    refine List.map_congr_left fun k _ => ?_
    simp only [Function.comp_apply, Nat.succ_eq_add_one, Nat.mul_add]
    omega
  case neg =>
    rw [steps_of_lt (by omega), Nat.div_eq_of_lt (by omega)]
    rfl

-- The loop ends for every step, as the cursor either grows or leaves its range.
theorem stepLoop_eq {hi n v rounds : Nat} (pos : 0 < n) (fits : hi < 2 ^ 32) (enough : hi < v + rounds) :
    stepLoop hi n (rounds + 1) v = some (steps v hi n) := by
  induction rounds generalizing v
  case zero => rw [stepLoop, if_neg (by omega), steps_of_lt (by omega)]
  case succ rounds ih =>
    rw [stepLoop]
    split
    case isFalse => rw [steps_of_lt (by omega)]
    case isTrue le =>
      rw [steps_cons pos le]
      split
      case isTrue => rw [ih (by omega), Option.map_some]
      case isFalse => rw [steps_of_lt (by omega)]

end Part

inductive Field
  | minute
  | hour
  | dom
  | month
  | dow

namespace Field

def min : Field → Nat
  | minute | hour | dow => 0
  | dom | month => 1

def max : Field → Nat
  | minute => 59
  | hour => 23
  | dom => 31
  | month => 12
  | dow => 7

def names : Field → Names
  | month => months
  | dow => days
  | _ => []

-- Sunday is both 0 and 7.
def fold : Field → Nat → Nat
  | dow => (· % 7)
  | _ => id

-- What the text of a field says: the union of what its parts say.
def Meaning (f : Field) (spec : Text) : Set Nat :=
  { v | ∃ part ∈ spec.splitOn ',', ∃ x step, Written f.names part x step ∧
    ∃ w ∈ x.values f.min f.max step, f.fold w = v }

-- The same, with a step of one ignored.
def Named (f : Field) (spec : Text) : Set Nat :=
  { v | ∃ part ∈ spec.splitOn ',', ∃ x step, Written f.names part x step ∧
    ∃ w ∈ x.values f.min f.max (step.filter (1 < ·)), f.fold w = v }

-- What a value with a step of one reaches is also named in another way.
def Covered (f : Field) (spec : Text) : Prop :=
  ∀ part ∈ spec.splitOn ',', ∀ a, Written f.names part (.value a) (some 1) →
    ∀ w, a < w → w ≤ f.max → f.fold w ∈ f.Named spec

theorem plain (f : Field) : f.names.Plain := by
  cases f
  case month => exact plain_months
  case dow => exact plain_days
  all_goals exact plain_nil

variable {f : Field} {spec : Text} {values : List Nat} {restricted : Bool} {v : Nat}

theorem mem_parseField (h : parseField spec f.min f.max f.names = .ok (values, restricted)) :
    v ∈ values.map f.fold ↔ v ∈ f.Named spec := by
  simp only [parseField, Except.bind_eq_ok_iff] at h
  obtain ⟨parts, parsed, eq⟩ := h
  cases eq
  have parts_iff : v ∈ parts.flatten.map f.fold ↔ ∃ values ∈ parts, ∃ w ∈ values, f.fold w = v := by
    simp only [List.mem_map, List.mem_flatten]
    tauto
  rw [parts_iff, Except.mapM_exists_iff parsed]
  constructor
  case mp =>
    intro ⟨part, mem, values, parsed, w, wmem, eq⟩
    have ⟨x, step, written, wmem⟩ := (mem_parsePart f.plain parsed).mp wmem
    exact ⟨part, mem, x, step, written, w, wmem, eq⟩
  case mpr =>
    intro ⟨part, mem, x, step, written, w, wmem, eq⟩
    have ⟨values, parsed⟩ := Except.exists_of_mapM parsed mem
    exact ⟨part, mem, values, parsed, w, (mem_parsePart f.plain parsed).mpr ⟨x, step, written, wmem⟩, eq⟩

-- There is at least one value, and all of them are within the range of the field.
theorem values_of_parseField (h : parseField spec f.min f.max f.names = .ok (values, restricted)) :
    values ≠ [] ∧ ∀ v ∈ values, f.min ≤ v ∧ v ≤ f.max := by
  simp only [parseField, Except.bind_eq_ok_iff] at h
  obtain ⟨parts, parsed, eq⟩ := h
  cases eq
  constructor
  case left =>
    have ⟨part, mem⟩ := List.exists_mem_of_ne_nil _ (List.splitOn_ne_nil ',' spec)
    have ⟨values, ok⟩ := Except.exists_of_mapM parsed mem
    have ⟨⟨v, vmem⟩, _⟩ := parsePart_values ok
    have ⟨values, mem, vmem⟩ := (Except.mapM_exists_iff parsed).mpr ⟨part, mem, values, ok, vmem⟩
    exact List.ne_nil_of_mem (List.mem_flatten.mpr ⟨values, mem, vmem⟩)
  case right =>
    intro v mem
    have ⟨values, mem, vmem⟩ := List.mem_flatten.mp mem
    have ⟨_, _, values, ok, vmem⟩ := (Except.mapM_exists_iff parsed).mp ⟨values, mem, vmem⟩
    exact (parsePart_values ok).2 v vmem

theorem meaning_iff (h : parseField spec f.min f.max f.names = .ok (values, restricted)) :
    (∀ v, v ∈ values.map f.fold ↔ v ∈ f.Meaning spec) ↔ f.Covered spec := by
  simp only [mem_parseField h]
  simp only [parseField, Except.bind_eq_ok_iff] at h
  obtain ⟨parts, parsed, _⟩ := h
  constructor
  case mp =>
    intro same part mem a written w lt le
    have ⟨_, parsed⟩ := Except.exists_of_mapM parsed mem
    refine (same _).mpr ⟨part, mem, _, _, written, w, ?_, rfl⟩
    exact (mem_values f.plain parsed written).mpr (.inr ⟨a, rfl, rfl, lt, le⟩)
  case mpr =>
    intro covered v
    constructor
    case mp =>
      intro ⟨part, mem, x, step, written, w, wmem, eq⟩
      have ⟨_, parsed⟩ := Except.exists_of_mapM parsed mem
      exact ⟨part, mem, x, step, written, w, (mem_values f.plain parsed written).mpr (.inl wmem), eq⟩
    case mpr =>
      intro ⟨part, mem, x, step, written, w, wmem, eq⟩
      have ⟨_, parsed⟩ := Except.exists_of_mapM parsed mem
      rcases (mem_values f.plain parsed written).mp wmem with wmem | ⟨a, rfl, rfl, lt, le⟩
      case inl => exact ⟨part, mem, x, step, written, w, wmem, eq⟩
      case inr => exact eq ▸ covered part mem a written w lt le

end Field

end Cron

open Cron

namespace CronSchedule

variable {expr : String} {c : CronSchedule}

def values (c : CronSchedule) : Field → List Nat
  | .minute => c.minute
  | .hour => c.hour
  | .dom => c.dom
  | .month => c.month
  | .dow => c.dow

-- An expression consists of five fields. Whether the days are restricted is read off their texts.
theorem parse_ok (h : parse expr = .ok c) : ∃ spec : Field → Text,
    splitWhitespace expr.toList = [spec .minute, spec .hour, spec .dom, spec .month, spec .dow] ∧
    (∀ f, ∃ values restricted, parseField (spec f) f.min f.max f.names = .ok (values, restricted) ∧
      c.values f = values.map f.fold) ∧
    (c.domRestricted ↔ spec .dom ≠ ['*']) ∧ (c.dowRestricted ↔ spec .dow ≠ ['*']) := by
  simp only [parse] at h
  split at h
  case h_2 => cases h
  case h_1 f₀ f₁ f₂ f₃ f₄ split =>
    simp only [Except.bind_eq_ok_iff] at h
    obtain ⟨⟨minute, r₀⟩, h₀, ⟨hour, r₁⟩, h₁, ⟨dom, r₂⟩, h₂, ⟨month, r₃⟩, h₃, ⟨dow, r₄⟩, h₄, eq⟩ := h
    cases eq
    have restricted {spec : Text} {min max : Nat} {names : Names} {values : List Nat} {r : Bool}
        (h : parseField spec min max names = .ok (values, r)) : r ↔ spec ≠ ['*'] := by
      simp only [parseField, Except.bind_eq_ok_iff] at h
      obtain ⟨_, _, eq⟩ := h
      cases eq
      simp
    let spec : Field → Text
      | .minute => f₀
      | .hour => f₁
      | .dom => f₂
      | .month => f₃
      | .dow => f₄
    refine ⟨spec, split, fun f => ?_, restricted h₂, restricted h₄⟩
    cases f
    case minute => exact ⟨_, _, h₀, (List.map_id _).symm⟩
    case hour => exact ⟨_, _, h₁, (List.map_id _).symm⟩
    case dom => exact ⟨_, _, h₂, (List.map_id _).symm⟩
    case month => exact ⟨_, _, h₃, (List.map_id _).symm⟩
    case dow => exact ⟨_, _, h₄, rfl⟩

-- A field is the set that its text describes unless a single value has the step one and nothing else in the field
-- names what follows it. The days are matched by the documented rule, and the loop over a range always ends.
theorem fields_mean_iff (h : parse expr = .ok c) : ∃ spec : Field → Text,
    splitWhitespace expr.toList = [spec .minute, spec .hour, spec .dom, spec .month, spec .dow] ∧
    (∀ f, (∀ v, v ∈ c.values f ↔ v ∈ f.Meaning (spec f)) ↔ f.Covered (spec f)) ∧
    (∀ parts : DateParts, c.matchesParts parts ↔
      parts.minute ∈ c.minute ∧ parts.hour ∈ c.hour ∧ parts.month ∈ c.month ∧
      if spec .dom ≠ ['*'] ∧ spec .dow ≠ ['*']
      then parts.day ∈ c.dom ∨ parts.dow ∈ c.dow
      else (spec .dom ≠ ['*'] → parts.day ∈ c.dom) ∧ (spec .dow ≠ ['*'] → parts.dow ∈ c.dow)) ∧
    ∀ lo hi step, 1 ≤ step → hi < 2 ^ 32 → ∃ rounds, stepLoop hi step rounds lo = some (steps lo hi step) := by
  have ⟨spec, split, fields, dom, dow⟩ := parse_ok h
  refine ⟨spec, split, fun f => ?_, fun parts => ?_, fun lo hi step pos fits => ?_⟩
  · have ⟨values, _, parsed, eq⟩ := fields f
    rw [eq]
    exact f.meaning_iff parsed
  · simp only [matchesParts_iff, ← dom, ← dow]
    exact ⟨fun h => ⟨h.minute, h.hour, h.month, h.day⟩, fun ⟨minute, hour, month, day⟩ => ⟨minute, hour, month, day⟩⟩
  · exact ⟨hi + 1 + 1, stepLoop_eq pos fits (by omega)⟩

-- From the fifth minute on, so the text says, but only the fifth minute matches.
theorem step_of_one_ignored :
    (parse "5/1 * * * *").toOption.map CronSchedule.minute = some [5] ∧
    splitWhitespace "5/1 * * * *".toList = [['5', '/', '1'], ['*'], ['*'], ['*'], ['*']] ∧
    6 ∈ Field.minute.Meaning ['5', '/', '1'] := by
  have five : Numeral ['5'] 5 := ⟨['5'], .inl rfl, by simp, by simp, by decide⟩
  have one : Numeral ['1'] 1 := ⟨['1'], .inl rfl, by simp, by simp, by decide⟩
  have written : Written [] ['5', '/', '1'] (.value 5) (some 1) := .stepped (t := ['5']) (.value (.number five)) one
  exact ⟨by decide +kernel, by decide +kernel, _, by decide, _, _, written, 6, ⟨by decide, 1, rfl⟩, rfl⟩

theorem fields_mean_weekdays :
    let c : CronSchedule := ⟨[0, 15, 30, 45], [9], List.range' 1 31, List.range' 1 12, [1, 2, 3, 4, 5], false, true⟩
    parse "*/15 9 * * mon-fri" = .ok c ∧ ∃ spec : Field → Text,
      splitWhitespace "*/15 9 * * mon-fri".toList =
        [spec .minute, spec .hour, spec .dom, spec .month, spec .dow] ∧
      ∀ f, (∀ v, v ∈ c.values f ↔ v ∈ f.Meaning (spec f)) ↔ f.Covered (spec f) := by
  intro c
  have parsed : parse "*/15 9 * * mon-fri" = .ok c := rfl
  have ⟨spec, split, fields, _⟩ := fields_mean_iff parsed
  exact ⟨parsed, spec, split, fields⟩

end CronSchedule
