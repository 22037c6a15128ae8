import Mathlib

-- A day of the proleptic Gregorian calendar.
structure Date where
  year  : Nat
  month : Nat
  day   : Nat
  deriving DecidableEq

namespace Date

def isLeap (year : Nat) : Bool :=
  year % 4 = 0 && (year % 100 ≠ 0 || year % 400 = 0)

def monthLength (year : Nat) : (month : Nat) → Nat
  | 2 => if isLeap year then 29 else 28
  | 4 | 6 | 9 | 11 => 30
  | _ => 31

structure Valid (d : Date) : Prop where
  month : 1 ≤ d.month ∧ d.month ≤ 12
  day   : 1 ≤ d.day ∧ d.day ≤ monthLength d.year d.month

def next (d : Date) : Date :=
  if d.day < monthLength d.year d.month then { d with day := d.day + 1 }
  else if d.month < 12 then ⟨d.year, d.month + 1, 1⟩
  else ⟨d.year + 1, 1, 1⟩

-- The days are counted from 1970-01-01, which was a Thursday. Sunday is 0.
def ofDays : Nat → Date
  | 0 => ⟨1970, 1, 1⟩
  | n + 1 => (ofDays n).next

def weekday : Nat → Nat
  | 0 => 4
  | n + 1 => (weekday n + 1) % 7

-- The leap day ends the year if years start in March. The days before a year then only depend on how
-- many years there were, and those before a month on how many months.
def marchYear (d : Date) : Nat :=
  if d.month ≤ 2 then d.year - 1 else d.year

def daysBeforeYear (year : Nat) : Nat :=
  365 * year + year / 4 - year / 100 + year / 400

def dayOfYear (d : Date) : Nat :=
  (153 * ((d.month + 9) % 12) + 2) / 5 + d.day - 1

-- The number of days since the first of March of the year 0.
def number (d : Date) : Nat :=
  daysBeforeYear d.marchYear + d.dayOfYear

variable {d : Date} {n : Nat}

theorem isLeap_iff {year : Nat} : isLeap year ↔ year % 4 = 0 ∧ (year % 100 ≠ 0 ∨ year % 400 = 0) := by
  simp [isLeap]

theorem daysBeforeYear_succ (year : Nat) :
    daysBeforeYear (year + 1) = daysBeforeYear year + if isLeap (year + 1) then 366 else 365 := by
  have le : year / 100 ≤ year := Nat.div_le_self ..
  simp only [daysBeforeYear, Nat.succ_div, isLeap_iff, ← Nat.dvd_iff_mod_eq_zero, ne_eq]
  generalize year / 4 = a
  generalize year / 100 = b at le ⊢
  generalize year / 400 = c
  split_ifs <;> omega

theorem Valid.next (v : d.Valid) : d.next.Valid := by
  obtain ⟨year, month, day⟩ := d
  obtain ⟨m, d⟩ := v
  simp only at m d
  simp only [Date.next]
  split
  case isTrue h => exact ⟨m, by simp only; omega⟩
  case isFalse h =>
    have first (year month : Nat) : 1 ≤ monthLength year month := by
      simp only [monthLength]
      split <;> (try split) <;> omega
    split
    case isTrue => exact ⟨by simp only; omega, by simp [first]⟩
    case isFalse => exact ⟨by simp, by simp [first]⟩

theorem number_next (v : d.Valid) (pos : 1 ≤ d.year) : d.next.number = d.number + 1 := by
  obtain ⟨year, month, day⟩ := d
  obtain ⟨m, d⟩ := v
  simp only at m d pos
  have leap := daysBeforeYear_succ (year - 1)
  rw [Nat.sub_add_cancel pos] at leap
  simp only [Date.next, number, marchYear, dayOfYear]
  obtain ⟨lo, hi⟩ := m
  by_cases february : month = 2
  case pos =>
    subst february
    cases h : isLeap year <;> simp [monthLength, h] at d leap ⊢ <;> split <;> simp <;> omega
  case neg =>
    interval_cases month <;> first | contradiction | skip
    all_goals
      simp [monthLength] at d ⊢
      split <;> simp <;> omega

theorem ofDays_valid (n : Nat) : (ofDays n).Valid ∧ 1970 ≤ (ofDays n).year := by
  induction n
  case zero => exact ⟨⟨by decide, by decide⟩, by decide⟩
  case succ n ih =>
    refine ⟨ih.1.next, le_trans ih.2 ?_⟩
    simp only [ofDays, Date.next]
    split <;> (try split) <;> simp

@[simp]
theorem number_ofDays (n : Nat) : (ofDays n).number = n + 719468 := by
  induction n
  case zero => simp [ofDays, number, marchYear, dayOfYear, daysBeforeYear]
  case succ n ih =>
    have ⟨valid, year⟩ := ofDays_valid n
    have step := number_next valid (by omega)
    rw [ofDays]
    omega

theorem weekday_eq (n : Nat) : weekday n = (n + 4) % 7 := by
  induction n
  case zero => rfl
  case succ n ih =>
    rw [weekday, ih]
    omega

theorem daysBeforeYear_strictMono : StrictMono daysBeforeYear := by
  refine strictMono_nat_of_lt_succ fun year => ?_
  rw [daysBeforeYear_succ]
  split <;> omega

theorem Valid.march_month (v : d.Valid) : (5 * d.dayOfYear + 2) / 153 = (d.month + 9) % 12 := by
  obtain ⟨year, month, day⟩ := d
  obtain ⟨⟨lo, hi⟩, d⟩ := v
  simp only at lo hi d
  simp only [dayOfYear]
  by_cases february : month = 2
  case pos =>
    subst february
    cases h : isLeap year <;> simp [monthLength, h] at d ⊢ <;> omega
  case neg =>
    interval_cases month <;> first | contradiction | skip
    all_goals
      simp [monthLength] at d ⊢
      omega

theorem Valid.number_lt (v : d.Valid) (pos : 1 ≤ d.year) : d.number < daysBeforeYear (d.marchYear + 1) := by
  obtain ⟨year, month, day⟩ := d
  obtain ⟨⟨lo, hi⟩, d⟩ := v
  simp only at lo hi d pos
  rw [daysBeforeYear_succ, number]
  refine Nat.add_lt_add_left ?_ _
  simp only [dayOfYear, marchYear]
  by_cases february : month = 2
  case pos =>
    subst february
    simp only [le_refl, if_true, Nat.sub_add_cancel pos]
    cases h : isLeap year <;> simp [monthLength, h] at d ⊢ <;> omega
  case neg =>
    interval_cases month <;> first | contradiction | skip
    all_goals
      simp [monthLength] at d ⊢
      split <;> omega

theorem number_inj {d₁ d₂ : Date} (v₁ : d₁.Valid) (v₂ : d₂.Valid) (p₁ : 1 ≤ d₁.year) (p₂ : 1 ≤ d₂.year)
    (eq : d₁.number = d₂.number) : d₁ = d₂ := by
  have year : d₁.marchYear = d₂.marchYear := by
    have h₁ := v₁.number_lt p₁
    have h₂ := v₂.number_lt p₂
    have l₁ : daysBeforeYear d₁.marchYear ≤ d₁.number := Nat.le_add_right ..
    have l₂ : daysBeforeYear d₂.marchYear ≤ d₂.number := Nat.le_add_right ..
    have := daysBeforeYear_strictMono.lt_iff_lt.mp (lt_of_le_of_lt (eq ▸ l₁) h₂)
    have := daysBeforeYear_strictMono.lt_iff_lt.mp (lt_of_le_of_lt (eq ▸ l₂) h₁)
    omega
  have day : d₁.dayOfYear = d₂.dayOfYear := by
    rw [number, number, year] at eq
    exact Nat.add_left_cancel eq
  have month : d₁.month = d₂.month := by
    have m₁ := v₁.march_month
    have m₂ := v₂.march_month
    have := v₁.month
    have := v₂.month
    rw [day] at m₁
    omega
  obtain ⟨y₁, m₁, d₁⟩ := d₁
  obtain ⟨y₂, m₂, d₂⟩ := d₂
  obtain rfl : m₁ = m₂ := month
  have l₁ := v₁.day.1
  have l₂ := v₂.day.1
  simp only [marchYear, dayOfYear] at p₁ p₂ l₁ l₂ year day
  simp only [mk.injEq, true_and]
  split at year <;> omega

-- A date is the day with its number.
theorem ofDays_eq_iff (v : d.Valid) (pos : 1 ≤ d.year) : ofDays n = d ↔ d.number = n + 719468 := by
  constructor
  case mp =>
    intro eq
    rw [← eq, number_ofDays]
  case mpr =>
    intro eq
    have ⟨valid, year⟩ := ofDays_valid n
    exact number_inj valid v (by omega) pos (by rw [number_ofDays, eq])

theorem number_newYear {year : Nat} : number ⟨year, 1, 1⟩ = daysBeforeYear (year - 1) + 306 := by
  simp [number, marchYear, dayOfYear]

theorem daysBeforeYear_pred {year : Nat} (pos : 1 ≤ year) :
    daysBeforeYear (year - 1) + 365 ≤ daysBeforeYear year ∧
    daysBeforeYear year ≤ daysBeforeYear (year - 1) + 366 := by
  have succ := daysBeforeYear_succ (year - 1)
  rw [Nat.sub_add_cancel pos] at succ
  rw [succ]
  split <;> omega

-- The days of a year lie between its first day and the first day of the next year.
theorem Valid.number_year (v : d.Valid) (pos : 1 ≤ d.year) :
    number ⟨d.year, 1, 1⟩ ≤ d.number ∧ d.number < number ⟨d.year + 1, 1, 1⟩ := by
  have lt := v.number_lt pos
  have year := daysBeforeYear_pred pos
  have month := v.march_month
  have ⟨lo, hi⟩ := v.month
  simp only [number_newYear, Nat.add_sub_cancel]
  simp only [number, marchYear] at lt ⊢
  split at lt
  case isTrue early =>
    rw [if_pos early]
    rw [Nat.sub_add_cancel pos] at lt
    rw [Nat.mod_eq_of_lt (by omega)] at month
    omega
  case isFalse late =>
    rw [if_neg late]
    omega

theorem number_newYear_mono {year year' : Nat} (le : year ≤ year') : number ⟨year, 1, 1⟩ ≤ number ⟨year', 1, 1⟩ := by
  simp only [number_newYear]
  exact Nat.add_le_add_right (daysBeforeYear_strictMono.monotone (by omega)) _

theorem number_newYear_add (year k : Nat) (pos : 1 ≤ year) :
    number ⟨year + k, 1, 1⟩ ≤ number ⟨year, 1, 1⟩ + 366 * k := by
  induction k
  case zero => exact le_refl _
  case succ k ih =>
    have next := (daysBeforeYear_pred (show 1 ≤ year + k by omega)).2
    simp only [number_newYear] at ih ⊢
    rw [show year + (k + 1) - 1 = year + k by omega]
    omega

theorem lt_of_year_lt {n n' : Nat} (lt : (ofDays n).year < (ofDays n').year) : n < n' := by
  have ⟨v, y⟩ := ofDays_valid n
  have ⟨v', y'⟩ := ofDays_valid n'
  have before := (v.number_year (by omega)).2
  have after := (v'.number_year (by omega)).1
  have between : number ⟨(ofDays n).year + 1, 1, 1⟩ ≤ number ⟨(ofDays n').year, 1, 1⟩ := number_newYear_mono lt
  simp only [number_ofDays] at before after
  omega

theorem lt_of_year_le_add {n n' k : Nat} (le : (ofDays n').year ≤ (ofDays n).year + k) : n' < n + 366 * (k + 1) := by
  have ⟨v, y⟩ := ofDays_valid n
  have ⟨v', y'⟩ := ofDays_valid n'
  have after := (v.number_year (by omega)).1
  have before := (v'.number_year (by omega)).2
  have between := number_newYear_add (ofDays n).year (k + 1) (by omega)
  have mono : number ⟨(ofDays n').year + 1, 1, 1⟩ ≤ number ⟨(ofDays n).year + (k + 1), 1, 1⟩ :=
    number_newYear_mono (by omega)
  simp only [number_ofDays] at before after
  omega

theorem monthLength_ge (year month : Nat) : 28 ≤ monthLength year month := by
  simp only [monthLength]
  split <;> (try split) <;> omega

theorem monthLength_le (year month : Nat) : monthLength year month ≤ monthLength 2000 month := by
  simp only [monthLength]
  split <;> (try split) <;> decide

theorem isLeap_of_valid {year : Nat} (v : Valid ⟨year, 2, 29⟩) : isLeap year := by
  by_contra common
  have := v.day.2
  simp [monthLength, common] at this

theorem monthLength_eq {year year' month : Nat} (ne : month ≠ 2) :
    monthLength year month = monthLength year' month := by
  simp only [monthLength]
  split <;> simp_all

end Date
