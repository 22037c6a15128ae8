import FiduciaNode.Cron
import FiduciaNode.Primitives.Calendar

open Cron Date

namespace Cron

variable {d : Date} {n : Nat}

-- The parts of a minute counted from the start of 1970, by the calendar.
def DateParts.ofCalendar (minute : Nat) : DateParts where
  minute := minute % 60
  hour   := minute / 60 % 24
  day    := (ofDays (minute / 1440)).day
  month  := (ofDays (minute / 1440)).month
  dow    := weekday (minute / 1440)

-- A day of an era of 400 years, less the leap days before it.
def leapless (doe : Nat) : Nat :=
  doe - doe / 1460 + doe / 36524 - doe / 146096

theorem leapless_mono : Monotone leapless := by
  refine monotone_nat_of_le_succ fun doe => ?_
  have h₁ : doe / 1460 ≤ doe := Nat.div_le_self ..
  have h₂ : doe / 146096 ≤ doe / 36524 := Nat.div_le_div_left (by decide) (by decide)
  have h₃ : 146096 ∣ doe + 1 → 36524 ∣ doe + 1 := Dvd.dvd.trans (by decide)
  simp only [leapless, Nat.succ_div]
  generalize doe / 1460 = a at *
  generalize doe / 36524 = b at *
  generalize doe / 146096 = c at *
  split_ifs <;> omega

-- It suffices to look at the first and at the last day of each year.
theorem leapless_year : ∀ year < 400, 365 * year ≤ leapless (daysBeforeYear year) ∧
    leapless (daysBeforeYear (year + 1) - 1) < 365 * (year + 1) := by
  decide +kernel

theorem yearOfEra_eq {year doe : Nat} (h : year < 400) (lo : daysBeforeYear year ≤ doe)
    (hi : doe < daysBeforeYear (year + 1)) : leapless doe / 365 = year := by
  have ⟨first, last⟩ := leapless_year year h
  have := leapless_mono lo
  have := leapless_mono (Nat.le_sub_one_of_lt hi)
  omega

theorem daysBeforeYear_era (era year : Nat) :
    daysBeforeYear (400 * era + year) = 146097 * era + daysBeforeYear year := by
  have h₄ : (400 * era + year) / 4 = 100 * era + year / 4 := by omega
  have h₁ : (400 * era + year) / 100 = 4 * era + year / 100 := by omega
  have h₂ : (400 * era + year) / 400 = era + year / 400 := by omega
  have : year / 100 ≤ year := Nat.div_le_self ..
  simp only [daysBeforeYear, h₄, h₁, h₂]
  omega

theorem civilFromDays_number (v : d.Valid) (pos : 1 ≤ d.year) (number : d.number = n + 719468) :
    civilFromDays n = (d.month, d.day) := by
  have lt := v.number_lt pos
  have month := v.march_month
  have ⟨lo, hi⟩ := v.month
  have day := v.day.1
  have split : d.number = daysBeforeYear d.marchYear + d.dayOfYear := rfl
  have ofYear : d.dayOfYear = (153 * ((d.month + 9) % 12) + 2) / 5 + d.day - 1 := rfl
  generalize d.marchYear = year, d.dayOfYear = doy at *
  obtain ⟨era, year, rfl, lt'⟩ : ∃ era rest, year = 400 * era + rest ∧ rest < 400 :=
    ⟨year / 400, year % 400, by omega, by omega⟩
  rw [add_assoc, daysBeforeYear_era] at lt
  rw [daysBeforeYear_era] at split
  have within : daysBeforeYear year + doy < daysBeforeYear (year + 1) := by omega
  have le : daysBeforeYear (year + 1) ≤ 146097 :=
    (daysBeforeYear_strictMono.monotone lt' : _ ≤ daysBeforeYear 400)
  have z : n + 719468 = daysBeforeYear year + doy + 146097 * era := by omega
  have before : daysBeforeYear year = 365 * year + year / 4 - year / 100 := by
    simp [daysBeforeYear, Nat.div_eq_of_lt lt']
  have era_eq : (daysBeforeYear year + doy + 146097 * era) / 146097 = era := by omega
  have doe_eq : daysBeforeYear year + doy + 146097 * era - era * 146097 = daysBeforeYear year + doy := by omega
  have year_eq := yearOfEra_eq lt' (Nat.le_add_right ..) within
  have doy_eq : daysBeforeYear year + doy - daysBeforeYear year = doy := Nat.add_sub_cancel_left ..
  simp only [leapless] at year_eq
  simp only [civilFromDays, z, era_eq, doe_eq, year_eq, ← before, doy_eq, month]
  simp only [Prod.mk.injEq]
  constructor
  · split <;> omega
  · omega

theorem civilFromDays_eq (n : Nat) : civilFromDays n = ((ofDays n).month, (ofDays n).day) := by
  have ⟨valid, year⟩ := ofDays_valid n
  exact civilFromDays_number valid (by omega) (number_ofDays n)

theorem fromEpochMinute_eq (minute : Nat) : DateParts.fromEpochMinute minute = .ofCalendar minute := by
  simp only [DateParts.fromEpochMinute, DateParts.ofCalendar, civilFromDays_eq, weekday_eq, DateParts.mk.injEq,
    true_and]
  omega

end Cron

namespace CronSchedule

variable {c : CronSchedule} {parts : DateParts} {minute fuel after t : Nat}

-- If both days are restricted either of them may match, and otherwise the one that is restricted has to.
def AcceptsDay (c : CronSchedule) (parts : DateParts) : Prop :=
  if c.domRestricted ∧ c.dowRestricted
  then parts.day ∈ c.dom ∨ parts.dow ∈ c.dow
  else (c.domRestricted → parts.day ∈ c.dom) ∧ (c.dowRestricted → parts.dow ∈ c.dow)

structure Accepts (c : CronSchedule) (parts : DateParts) : Prop where
  minute : parts.minute ∈ c.minute
  hour   : parts.hour ∈ c.hour
  month  : parts.month ∈ c.month
  day    : c.AcceptsDay parts

theorem matchesParts_iff : c.matchesParts parts ↔ c.Accepts parts := by
  have parts_iff : c.matchesParts parts ↔ parts.minute ∈ c.minute ∧ parts.hour ∈ c.hour ∧
      parts.month ∈ c.month ∧ c.AcceptsDay parts := by
    cases h₁ : c.domRestricted <;> cases h₂ : c.dowRestricted <;>
      simp [matchesParts, AcceptsDay, h₁, h₂, and_assoc]
  rw [parts_iff]
  exact ⟨fun ⟨minute, hour, month, day⟩ => ⟨minute, hour, month, day⟩,
    fun h => ⟨h.minute, h.hour, h.month, h.day⟩⟩

-- The schedule fires at whole minutes.
def FiresIn (c : CronSchedule) (minute : Nat) : Prop :=
  c.Accepts (.ofCalendar minute)

theorem search_succ_of_fires (h : c.FiresIn minute) :
    c.search minute (fuel + 1) = some (minute * 60000 % 2 ^ 64) := by
  rw [search, fromEpochMinute_eq, if_pos (matchesParts_iff.mpr h)]

theorem search_succ_of_not_fires (h : ¬ c.FiresIn minute) :
    c.search minute (fuel + 1) = c.search (minute + 1) fuel := by
  rw [search, fromEpochMinute_eq, if_neg (matchesParts_iff.not.mpr h)]

-- The search ends at the first minute that matches.
theorem search_cases (c : CronSchedule) (minute fuel : Nat) :
    c.search minute fuel = none ∧ (∀ m, minute ≤ m → m < minute + fuel → ¬ c.FiresIn m) ∨
    ∃ m, minute ≤ m ∧ m < minute + fuel ∧ c.FiresIn m ∧ (∀ m', minute ≤ m' → c.FiresIn m' → m ≤ m') ∧
      c.search minute fuel = some (m * 60000 % 2 ^ 64) := by
  induction fuel generalizing minute
  case zero => exact .inl ⟨rfl, by omega⟩
  case succ fuel ih =>
    by_cases fires : c.FiresIn minute
    case pos =>
      exact .inr ⟨minute, le_refl _, by omega, fires, fun _ le _ => le, search_succ_of_fires fires⟩
    case neg =>
      rw [search_succ_of_not_fires fires]
      have later {m : Nat} (le : minute ≤ m) (h : c.FiresIn m) : minute + 1 ≤ m := by
        rcases Nat.eq_or_lt_of_le le with eq | lt
        case inl => exact absurd (eq ▸ h) fires
        case inr => exact lt
      rcases ih (minute + 1) with ⟨eq, none⟩ | ⟨m, le, lt, h, least, eq⟩
      case inl => exact .inl ⟨eq, fun m le lt h => none m (later le h) (by omega) h⟩
      case inr => exact .inr ⟨m, by omega, by omega, h, fun m' le h => least m' (later le h) h, eq⟩

def Fires (c : CronSchedule) (t : Nat) : Prop :=
  60000 ∣ t ∧ c.FiresIn (t / 60000)

-- The last minute that the search looks at.
def lastMinute (after : Nat) : Nat :=
  after / 60000 + maxSearchMinutes

theorem fires_iff_of_lt (lt : after < t) :
    c.Fires t ↔ ∃ m, after / 60000 + 1 ≤ m ∧ c.FiresIn m ∧ t = m * 60000 := by
  constructor
  case mp =>
    intro ⟨⟨m, eq⟩, fires⟩
    rw [eq, Nat.mul_div_cancel_left _ (by decide)] at fires
    exact ⟨m, by omega, fires, by omega⟩
  case mpr =>
    rintro ⟨m, _, fires, rfl⟩
    exact ⟨Nat.dvd_mul_left .., by rwa [Nat.mul_div_cancel _ (by decide)]⟩

theorem isLeast_iff {m : Nat} (fires : c.FiresIn m) (later : after / 60000 + 1 ≤ m)
    (least : ∀ m', after / 60000 + 1 ≤ m' → c.FiresIn m' → m ≤ m') :
    IsLeast { t | c.Fires t ∧ after < t } t ↔ t = m * 60000 := by
  have isLeast : IsLeast { t | c.Fires t ∧ after < t } (m * 60000) := by
    have lt : after < m * 60000 := by omega
    refine ⟨⟨(fires_iff_of_lt lt).mpr ⟨m, later, fires, rfl⟩, lt⟩, ?_⟩
    intro t ⟨fires, lt⟩
    have ⟨m', le, fires, eq⟩ := (fires_iff_of_lt lt).mp fires
    have := least m' le fires
    omega
  exact ⟨fun h => h.unique isLeast, fun eq => eq ▸ isLeast⟩

-- The next fire is the least one by the calendar, as long as it is within the horizon of the search and its time
-- fits into 64 bits.
theorem next_after_least (c : CronSchedule) (after : Nat)
    (fits : ∀ t, IsLeast { t | c.Fires t ∧ after < t } t → t / 60000 ≤ lastMinute after → t < 2 ^ 64) :
    (∀ t, c.nextAfter after = some t ↔
      IsLeast { t | c.Fires t ∧ after < t } t ∧ t / 60000 ≤ lastMinute after) ∧
    (c.nextAfter after = none ↔ ∀ t, c.Fires t → after < t → lastMinute after < t / 60000) := by
  have none_iff : (∀ m, after / 60000 + 1 ≤ m → m < after / 60000 + 1 + maxSearchMinutes → ¬ c.FiresIn m) ↔
      ∀ t, c.Fires t → after < t → lastMinute after < t / 60000 := by
    constructor
    case mp =>
      intro none t fires lt
      have ⟨m, le, fires, eq⟩ := (fires_iff_of_lt lt).mp fires
      by_contra within
      refine none m le ?_ fires
      simp only [lastMinute] at within
      omega
    case mpr =>
      intro none m le lt fires
      have later : after < m * 60000 := by omega
      have := none _ ((fires_iff_of_lt later).mpr ⟨m, le, fires, rfl⟩) later
      simp only [lastMinute] at this
      omega
  rw [nextAfter, ← none_iff]
  rcases c.search_cases (after / 60000 + 1) maxSearchMinutes with ⟨eq, none⟩ | ⟨m, le, lt, fires, least, eq⟩
  case inl =>
    refine ⟨fun t => ?_, iff_of_true eq none⟩
    simp only [eq, reduceCtorEq, false_iff, not_and]
    intro ⟨⟨fires, later⟩, _⟩ within
    have := none_iff.mp none t fires later
    omega
  case inr =>
    have isLeast {t : Nat} := isLeast_iff (t := t) fires le least
    have within : m * 60000 / 60000 ≤ lastMinute after := by
      simp only [lastMinute]
      omega
    have := fits _ (isLeast.mpr rfl) within
    refine ⟨fun t => ?_, ?_⟩
    · rw [eq, Nat.mod_eq_of_lt this, isLeast]
      simp only [Option.some.injEq]
      exact ⟨fun h => ⟨h.symm, h ▸ within⟩, fun h => h.1.symm⟩
    · simp only [eq, reduceCtorEq, false_iff]
      exact fun none => none m le lt fires

theorem next_after_least_quarter :
    let c : CronSchedule :=
      ⟨[0, 15, 30, 45], List.range 24, List.range' 1 31, List.range' 1 12, [0, 1, 2, 3, 4, 5, 6, 0], false, false⟩
    parse "*/15 * * * *" = .ok c ∧
      ∀ t, c.nextAfter 1860000 = some t ↔
        IsLeast { t | c.Fires t ∧ 1860000 < t } t ∧ t / 60000 ≤ lastMinute 1860000 := by
  intro c
  have fires : c.FiresIn 45 := by
    rw [FiresIn, ← matchesParts_iff, ← fromEpochMinute_eq]
    rfl
  refine ⟨rfl, (next_after_least c 1860000 fun t least _ => ?_).1⟩
  exact (least.2 ⟨⟨⟨45, rfl⟩, fires⟩, by decide⟩).trans_lt (by decide)

end CronSchedule
