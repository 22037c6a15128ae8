import FiduciaNode.Cron.Theorems.Fields

open Cron Date

namespace CronSchedule

variable {c : CronSchedule} {expr : String} {m n year after : Nat}

-- There is a minute and an hour to fire at, and the days of each field are days.
structure WellFormed (c : CronSchedule) : Prop where
  minute : c.minute ≠ [] ∧ ∀ v ∈ c.minute, v < 60
  hour   : c.hour ≠ [] ∧ ∀ v ∈ c.hour, v < 24
  dom    : ∀ v ∈ c.dom, 1 ≤ v
  month  : ∀ v ∈ c.month, 1 ≤ v ∧ v ≤ 12
  dow    : c.dow ≠ [] ∧ ∀ v ∈ c.dow, v < 7

theorem parse_wellFormed (h : parse expr = .ok c) : c.WellFormed := by
  have ⟨spec, _, fields, _⟩ := parse_ok h
  have values (f : Field) : c.values f ≠ [] ∧ ∀ v ∈ c.values f, ∃ w, f.fold w = v ∧ f.min ≤ w ∧ w ≤ f.max := by
    have ⟨values, _, parsed, eq⟩ := fields f
    have ⟨ne, within⟩ := f.values_of_parseField parsed
    rw [eq]
    refine ⟨by simpa using ne, fun v mem => ?_⟩
    have ⟨w, mem, eq⟩ := List.mem_map.mp mem
    exact ⟨w, eq, within w mem⟩
  constructor
  case minute =>
    refine ⟨(values .minute).1, fun v mem => ?_⟩
    obtain ⟨w, rfl, _, le⟩ := (values .minute).2 v mem
    exact Nat.lt_succ_of_le le
  case hour =>
    refine ⟨(values .hour).1, fun v mem => ?_⟩
    obtain ⟨w, rfl, _, le⟩ := (values .hour).2 v mem
    exact Nat.lt_succ_of_le le
  case dom =>
    intro v mem
    obtain ⟨w, rfl, le, _⟩ := (values .dom).2 v mem
    exact le
  case month =>
    intro v mem
    obtain ⟨w, rfl, le⟩ := (values .month).2 v mem
    exact le
  case dow =>
    refine ⟨(values .dow).1, fun v mem => ?_⟩
    obtain ⟨w, rfl, _⟩ := (values .dow).2 v mem
    exact Nat.mod_lt _ (by decide)

-- The schedule fires on a day, at the hours and minutes that it has.
def FiresOn (c : CronSchedule) (n : Nat) : Prop :=
  (ofDays n).month ∈ c.month ∧ c.AcceptsDay (.ofCalendar (n * 1440))

theorem firesOn_iff : c.FiresOn n ↔ (ofDays n).month ∈ c.month ∧
    if c.domRestricted ∧ c.dowRestricted then (ofDays n).day ∈ c.dom ∨ weekday n ∈ c.dow
    else (c.domRestricted → (ofDays n).day ∈ c.dom) ∧ (c.dowRestricted → weekday n ∈ c.dow) := by
  have day : n * 1440 / 1440 = n := Nat.mul_div_cancel _ (by decide)
  simp only [FiresOn, AcceptsDay, DateParts.ofCalendar, day]

theorem firesIn_iff : c.FiresIn m ↔ m % 60 ∈ c.minute ∧ m / 60 % 24 ∈ c.hour ∧ c.FiresOn (m / 1440) := by
  have day : m / 1440 * 1440 / 1440 = m / 1440 := Nat.mul_div_cancel _ (by decide)
  simp only [FiresIn, FiresOn]
  constructor
  case mp =>
    intro h
    refine ⟨h.minute, h.hour, h.month, ?_⟩
    simpa only [AcceptsDay, DateParts.ofCalendar, day] using h.day
  case mpr =>
    rintro ⟨minute, hour, month, h⟩
    refine ⟨minute, hour, month, ?_⟩
    simpa only [AcceptsDay, DateParts.ofCalendar, day] using h

-- Whatever the year, only the 29th of February matches.
structure LeapDayOnly (c : CronSchedule) : Prop where
  dom   : c.domRestricted
  dow   : ¬ c.dowRestricted
  dates : ∀ month ∈ c.month, ∀ day ∈ c.dom, day ≤ monthLength 2000 month → month = 2 ∧ day = 29

-- The count of the leap day of a year.
def leapDay (year : Nat) : Nat :=
  number ⟨year, 2, 29⟩ - 719468

-- All fires of a leap day are over and the next leap day is eight years later, beyond the horizon.
def InGap (c : CronSchedule) (after : Nat) : Prop :=
  ∃ century, 2000 < century ∧ century % 100 = 0 ∧ century % 400 ≠ 0 ∧
    ∀ hour ∈ c.hour, ∀ minute ∈ c.minute,
      leapDay (century - 4) * 1440 + hour * 60 + minute ≤ after / 60000 ∧
      lastMinute after < leapDay (century + 4) * 1440 + hour * 60 + minute

section Yearly

theorem ofDays_date (month day : Nat) (year_le : 1970 ≤ year) (m : 1 ≤ month ∧ month ≤ 12)
    (d : 1 ≤ day ∧ day ≤ monthLength year month) :
    ∃ n, ofDays n = ⟨year, month, day⟩ := by
  have valid : Valid ⟨year, month, day⟩ := ⟨m, d⟩
  have le : 719468 ≤ number ⟨year, month, day⟩ := by
    have := (valid.number_year (by simp only; omega)).1
    have := number_newYear_mono year_le
    have : number ⟨1970, 1, 1⟩ = 719468 := by simp [number_newYear, daysBeforeYear]
    simp only at *
    omega
  refine ⟨number ⟨year, month, day⟩ - 719468, (ofDays_eq_iff valid (by simp only; omega)).mpr ?_⟩
  omega

-- Any seven days in a row have all weekdays.
theorem ofDays_weekday {month w : Nat} (year_le : 1970 ≤ year) (m : 1 ≤ month ∧ month ≤ 12) (lt : w < 7) :
    ∃ n, (ofDays n).year = year ∧ (ofDays n).month = month ∧ weekday n = w := by
  have length := monthLength_ge year month
  have ⟨first, date⟩ := ofDays_date month 1 year_le m ⟨le_refl _, by omega⟩
  let i := (w + 7 - (first + 4) % 7) % 7
  have valid : Valid ⟨year, month, 1 + i⟩ := ⟨m, by simp only [i]; omega⟩
  have date' : ofDays (first + i) = ⟨year, month, 1 + i⟩ := by
    have number := number_ofDays first
    rw [ofDays_eq_iff valid (by simp only; omega)]
    simp only [date, Date.number, marchYear, dayOfYear] at number ⊢
    omega
  refine ⟨first + i, by rw [date'], by rw [date'], ?_⟩
  rw [weekday_eq]
  omega

-- If the schedule fires on any other day than a leap day then it fires every year.
theorem firesOn_year (wf : c.WellFormed) (fires : c.FiresOn n) (other : ¬ c.LeapDayOnly) (year_le : 1970 ≤ year) :
    ∃ n, c.FiresOn n ∧ (ofDays n).year = year := by
  have month := wf.month _ fires.1
  by_cases dow : c.dowRestricted
  case pos =>
    have ⟨w, mem⟩ := List.exists_mem_of_ne_nil _ wf.dow.1
    have ⟨n', year_eq, month_eq, dow_eq⟩ := ofDays_weekday year_le month (wf.dow.2 w mem)
    refine ⟨n', firesOn_iff.mpr ⟨month_eq ▸ fires.1, ?_⟩, year_eq⟩
    rw [dow_eq]
    split
    case isTrue => exact .inr mem
    case isFalse dom => exact ⟨fun h => absurd ⟨h, dow⟩ dom, fun _ => mem⟩
  case neg =>
    by_cases dom : c.domRestricted
    case neg =>
      have ⟨n', date⟩ := ofDays_date _ 1 year_le month ⟨le_refl _, (monthLength_ge ..).trans' (by decide)⟩
      refine ⟨n', firesOn_iff.mpr ⟨by rw [date]; exact fires.1, ?_⟩, by rw [date]⟩
      simp [dom, dow]
    case pos =>
      have ⟨m, mem, d, mem', le, ne⟩ : ∃ m ∈ c.month, ∃ d ∈ c.dom, d ≤ monthLength 2000 m ∧ ¬ (m = 2 ∧ d = 29) := by
        by_contra none
        push Not at none
        exact other ⟨dom, dow, none⟩
      have length : d ≤ monthLength year m := by
        by_cases february : m = 2
        case pos =>
          subst february
          have : monthLength 2000 2 = 29 := by decide
          have := monthLength_ge year 2
          omega
        case neg => rwa [monthLength_eq february]
      have ⟨n', date⟩ := ofDays_date m d year_le (wf.month m mem) ⟨wf.dom d mem', length⟩
      refine ⟨n', firesOn_iff.mpr ⟨by rw [date]; exact mem, ?_⟩, by rw [date]⟩
      simp [dom, dow, date, mem']

end Yearly

section Window

theorem isSome_nextAfter_iff :
    (c.nextAfter after).isSome ↔ ∃ m, after / 60000 < m ∧ m ≤ lastMinute after ∧ c.FiresIn m := by
  rw [nextAfter]
  rcases c.search_cases (after / 60000 + 1) maxSearchMinutes with ⟨eq, none⟩ | ⟨m, le, lt, fires, _, eq⟩
  case inl =>
    simp only [eq, Option.isSome_none, Bool.false_eq_true, false_iff]
    rintro ⟨m, lt, le, fires⟩
    refine none m lt ?_ fires
    simp only [lastMinute] at le
    omega
  case inr =>
    simp only [eq, Option.isSome_some, true_iff]
    refine ⟨m, le, ?_, fires⟩
    simp only [lastMinute]
    omega

theorem firesIn_of_firesOn (wf : c.WellFormed) {hour minute : Nat} (h : hour ∈ c.hour) (m : minute ∈ c.minute)
    (fires : c.FiresOn n) : c.FiresIn (n * 1440 + hour * 60 + minute) := by
  have := wf.hour.2 hour h
  have := wf.minute.2 minute m
  rw [firesIn_iff]
  rw [show (n * 1440 + hour * 60 + minute) % 60 = minute by omega,
    show (n * 1440 + hour * 60 + minute) / 60 % 24 = hour by omega,
    show (n * 1440 + hour * 60 + minute) / 1440 = n by omega]
  exact ⟨m, h, fires⟩

-- The horizon is almost five years ahead, so what fires every year fires within it.
theorem exists_in_window (wf : c.WellFormed) (yearly : ∀ year, 1970 ≤ year → ∃ n, c.FiresOn n ∧ (ofDays n).year = year) :
    ∃ m, after / 60000 < m ∧ m ≤ lastMinute after ∧ c.FiresIn m := by
  have ⟨hour, h⟩ := List.exists_mem_of_ne_nil _ wf.hour.1
  have ⟨minute, m⟩ := List.exists_mem_of_ne_nil _ wf.minute.1
  have := wf.hour.2 hour h
  have := wf.minute.2 minute m
  let today := after / 60000 / 1440
  have ⟨n, fires, year⟩ := yearly ((ofDays today).year + 1) ((ofDays_valid today).2.trans (Nat.le_succ _))
  have lt : today < n := lt_of_year_lt (by omega)
  have lt' : n < today + 366 * (1 + 1) := lt_of_year_le_add (by omega)
  refine ⟨_, ?_, ?_, firesIn_of_firesOn wf h m fires⟩
  · omega
  · simp only [lastMinute, maxSearchMinutes]
    omega

end Window

section Gap

theorem LeapDayOnly.firesOn_iff (leap : c.LeapDayOnly) :
    c.FiresOn n ↔ (ofDays n).month ∈ c.month ∧ (ofDays n).day ∈ c.dom := by
  simp [CronSchedule.firesOn_iff, leap.dom, leap.dow]

theorem LeapDayOnly.date (leap : c.LeapDayOnly) (fires : c.FiresOn n) : ∃ year, isLeap year ∧ ofDays n = ⟨year, 2, 29⟩ := by
  have ⟨valid, _⟩ := ofDays_valid n
  have ⟨month, day⟩ := leap.firesOn_iff.mp fires
  have ⟨m, d⟩ := leap.dates _ month _ day (valid.day.2.trans (monthLength_le ..))
  generalize ofDays n = date at *
  obtain ⟨year, _, _⟩ := date
  cases m
  cases d
  exact ⟨year, isLeap_of_valid valid, rfl⟩

theorem number_leapDay (year : Nat) : number ⟨year, 2, 29⟩ = daysBeforeYear (year - 1) + 365 := by
  simp [number, marchYear, dayOfYear]

theorem leapDay_mono {year year' : Nat} (le : year ≤ year') : leapDay year ≤ leapDay year' := by
  have mono : number ⟨year, 2, 29⟩ ≤ number ⟨year', 2, 29⟩ := by
    rw [number_leapDay, number_leapDay]
    exact Nat.add_le_add_right (daysBeforeYear_strictMono.monotone (Nat.sub_le_sub_right le 1)) _
  exact Nat.sub_le_sub_right mono _

theorem leapDay_eq {year : Nat} (date : ofDays n = ⟨year, 2, 29⟩) : leapDay year = n := by
  have eq := number_ofDays n
  rw [date] at eq
  exact Nat.sub_eq_of_eq_add eq

theorem leapDay_spec {year : Nat} (leap : isLeap year) (le : 1970 ≤ year) : ofDays (leapDay year) = ⟨year, 2, 29⟩ := by
  have ⟨n, date⟩ := ofDays_date 2 29 le (by decide) (by simp [monthLength, leap])
  rw [leapDay_eq date, date]

theorem LeapDayOnly.firesOn_leapDay (leap : c.LeapDayOnly) (fires : c.FiresOn n) (h : isLeap year) (le : 1970 ≤ year) :
    c.FiresOn (leapDay year) := by
  have ⟨_, _, date⟩ := leap.date fires
  rw [leap.firesOn_iff, leapDay_spec h le]
  rw [leap.firesOn_iff, date] at fires
  exact fires

theorem not_in_window (leap : c.LeapDayOnly) (gap : c.InGap after) :
    ¬ ∃ m, after / 60000 < m ∧ m ≤ lastMinute after ∧ c.FiresIn m := by
  intro ⟨m, lt, le, fires⟩
  have ⟨century, late, hundred, fourth, gap⟩ := gap
  have ⟨minute, hour, day⟩ := firesIn_iff.mp fires
  have ⟨before, behind⟩ := gap _ hour _ minute
  have ⟨year, leapYear, date⟩ := leap.date day
  have ⟨_, year_le⟩ := ofDays_valid (m / 1440)
  rw [date] at year_le
  have day_eq := leapDay_eq date
  have split : m = leapDay year * 1440 + m / 60 % 24 * 60 + m % 60 := by omega
  -- The century itself is no leap year, so this one is at least four years off.
  rw [isLeap_iff] at leapYear
  have apart : year ≤ century - 4 ∨ century + 4 ≤ year := by omega
  rcases apart with early | late
  case inl =>
    have := leapDay_mono early
    omega
  case inr =>
    have := leapDay_mono late
    omega

theorem inGap (wf : c.WellFormed) (leap : c.LeapDayOnly) (fires : c.FiresOn n)
    (none : ¬ ∃ m, after / 60000 < m ∧ m ≤ lastMinute after ∧ c.FiresIn m) : c.InGap after := by
  let today := after / 60000 / 1440
  have year_le := (ofDays_valid today).2
  -- The next year that four divides would be in the window if it was a leap year.
  let century := (ofDays today).year / 4 * 4 + 4
  have skip (year hour minute : Nat) (h : isLeap year) (le : 1970 ≤ year) (hour_mem : hour ∈ c.hour)
      (minute_mem : minute ∈ c.minute) :
      ¬ (after / 60000 < leapDay year * 1440 + hour * 60 + minute ∧
        leapDay year * 1440 + hour * 60 + minute ≤ lastMinute after) := by
    intro ⟨lt, le'⟩
    exact none ⟨_, lt, le', firesIn_of_firesOn wf hour_mem minute_mem (leap.firesOn_leapDay fires h le)⟩
  have later (year : Nat) (h : isLeap year) (le : 1970 ≤ year) (lt : (ofDays today).year < year) :
      today < leapDay year := lt_of_year_lt (by rwa [leapDay_spec h le])
  have within (year k : Nat) (h : isLeap year) (le : 1970 ≤ year) (le' : year ≤ (ofDays today).year + k) :
      leapDay year < today + 366 * (k + 1) := lt_of_year_le_add (by rwa [leapDay_spec h le])
  have common : ¬ isLeap century := by
    intro h
    have ⟨hour, hour_mem⟩ := List.exists_mem_of_ne_nil _ wf.hour.1
    have ⟨minute, minute_mem⟩ := List.exists_mem_of_ne_nil _ wf.minute.1
    have := wf.hour.2 hour hour_mem
    have := wf.minute.2 minute minute_mem
    have lt := later century h (by omega) (by omega)
    have lt' := within century 4 h (by omega) (by omega)
    refine skip century hour minute h (by omega) hour_mem minute_mem ⟨by omega, ?_⟩
    simp only [lastMinute, maxSearchMinutes]
    omega
  have before : isLeap (century - 4) := by
    rw [isLeap_iff] at common ⊢
    omega
  have behind : isLeap (century + 4) := by
    rw [isLeap_iff] at common ⊢
    omega
  rw [isLeap_iff] at common
  refine ⟨century, by omega, by omega, by omega, fun hour hour_mem minute minute_mem => ?_⟩
  have := wf.hour.2 hour hour_mem
  have := wf.minute.2 minute minute_mem
  constructor
  case left =>
    have lt := within (century - 4) 0 before (by omega) (by omega)
    have := skip _ hour minute before (by omega) hour_mem minute_mem
    simp only [lastMinute, maxSearchMinutes] at this
    omega
  case right =>
    have lt := later (century + 4) behind (by omega) (by omega)
    have := skip _ hour minute behind (by omega) hour_mem minute_mem
    omega

-- The search gives up on a schedule that fires again in one case only: if it fires on leap days and the century that
-- comes next has none.
theorem isSome_nextAfter_iff_not_inGap (wf : c.WellFormed) (live : ∃ m, after / 60000 < m ∧ c.FiresIn m) :
    (c.nextAfter after).isSome ↔ ¬ (c.LeapDayOnly ∧ c.InGap after) := by
  have ⟨m, _, fires⟩ := live
  have day := (firesIn_iff.mp fires).2.2
  rw [isSome_nextAfter_iff]
  constructor
  case mp => exact fun some ⟨leap, gap⟩ => not_in_window leap gap some
  case mpr =>
    intro no
    by_cases leap : c.LeapDayOnly
    case pos =>
      by_contra none
      exact no ⟨leap, inGap wf leap day none⟩
    case neg => exact exists_in_window wf fun year le => firesOn_year wf day leap le

end Gap

end CronSchedule
