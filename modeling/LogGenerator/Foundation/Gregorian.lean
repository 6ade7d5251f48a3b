import Mathlib.Tactic

/-!
# The proleptic Gregorian calendar

Dates and their numbers of days since 1970-01-01, before and after it, days counted
from March on, where the leap day ends the year, and dates with a time of the day.
-/

namespace LogGenerator
namespace Gregorian

def isLeap (year : ℤ) : Bool := year % 4 = 0 && (year % 100 ≠ 0 || year % 400 = 0)

def daysInMonth (year month : ℤ) : ℤ :=
  if month = 2 then if isLeap year then 29 else 28
  else if month ∈ [4, 6, 9, 11] then 30
  else 31

/-- A month of the year and a day of the month. -/
structure IsDate (year month day : ℤ) : Prop where
  month_mem : 1 ≤ month ∧ month ≤ 12
  day_mem : 1 ≤ day ∧ day ≤ daysInMonth year month

instance (year month day : ℤ) : Decidable (IsDate year month day) :=
  decidable_of_iff ((1 ≤ month ∧ month ≤ 12) ∧ 1 ≤ day ∧ day ≤ daysInMonth year month)
    ⟨fun h => ⟨h.1, h.2⟩, fun h => ⟨h.month_mem, h.day_mem⟩⟩

/-- The days from the first of January of the year 0 to that of the year. -/
def daysBeforeYear (year : ℤ) : ℤ :=
  365 * year + (year - 1) / 4 - (year - 1) / 100 + (year - 1) / 400 + 1

def daysBeforeMonth (year month : ℤ) : ℤ :=
  ([0, 31, 59, 90, 120, 151, 181, 212, 243, 273, 304, 334].getD (month - 1).toNat 0) +
    if 2 < month ∧ isLeap year = true then 1 else 0

/-- The number of the day, from zero on the first of January 1970. -/
def dayNumber (year month day : ℤ) : ℤ :=
  daysBeforeYear year + daysBeforeMonth year month + (day - 1) - daysBeforeYear 1970

example : dayNumber 1970 1 1 = 0 ∧ dayNumber 1969 12 31 = -1 ∧ dayNumber 2024 2 29 = 19782 := by
  decide

theorem isLeap_iff {year : ℤ} :
    isLeap year = true ↔ year % 4 = 0 ∧ (year % 100 ≠ 0 ∨ year % 400 = 0) := by
  simp [isLeap]

theorem daysBeforeYear_succ (year : ℤ) :
    daysBeforeYear (year + 1) = daysBeforeYear year + if isLeap year then 366 else 365 := by
  have hleap : isLeap year = true ↔ _ := isLeap_iff
  unfold daysBeforeYear
  split_ifs with h
  · obtain ⟨hfour, hcentury⟩ := hleap.mp h
    omega
  · rw [hleap] at h
    omega

/-- A day of four centuries: whole centuries, whole cycles of four years in the rest, whole
years in what is left, and the day of the year. -/
structure EraDay (dayOfEra century cycle year day : ℤ) : Prop where
  sum : dayOfEra = 36524 * century + 1461 * cycle + 365 * year + day
  century_mem : 0 ≤ century ∧ century ≤ 3
  cycle_mem : 0 ≤ cycle ∧ cycle ≤ 24
  year_mem : 0 ≤ year ∧ year ≤ 3
  day_mem : 0 ≤ day ∧ day ≤ 365
  leap : day = 365 → year = 3 ∧ (cycle < 24 ∨ century = 3)

theorem exists_eraDay {dayOfEra : ℤ} (h : 0 ≤ dayOfEra ∧ dayOfEra < 146097) :
    ∃ century cycle year day, EraDay dayOfEra century cycle year day := by
  have hyear (cycle rest : ℤ) (hrest : 0 ≤ rest ∧ rest < 1461) : ∃ year day,
      rest = 365 * year + day ∧ (0 ≤ year ∧ year ≤ 3) ∧ (0 ≤ day ∧ day ≤ 365) ∧
        (day = 365 → year = 3 ∧ rest = 1460) := by
    refine ⟨min 3 (rest / 365), rest - 365 * min 3 (rest / 365), ?_, ?_, ?_, ?_⟩
    all_goals omega
  obtain ⟨century, rest, hsum, hcentury, hrest⟩ : ∃ century rest,
      dayOfEra = 36524 * century + rest ∧ (0 ≤ century ∧ century ≤ 3) ∧
        (0 ≤ rest ∧ (rest < 36524 ∨ century = 3 ∧ rest = 36524)) := by
    refine ⟨min 3 (dayOfEra / 36524), dayOfEra - 36524 * min 3 (dayOfEra / 36524), ?_, ?_, ?_⟩
    all_goals omega
  obtain ⟨year, day, hday, hyears, hdays, hleap⟩ :=
    hyear (rest / 1461) (rest % 1461) (by omega)
  exact ⟨century, rest / 1461, year, day, by omega, hcentury, by omega, hyears, hdays, by omega⟩

variable {dayOfEra century cycle year day : ℤ}

/-- The year of the day, as it is computed without a search. -/
theorem EraDay.year_eq (h : EraDay dayOfEra century cycle year day) :
    (dayOfEra - dayOfEra / 1460 + dayOfEra / 36524 - dayOfEra / 146096) / 365 =
      100 * century + 4 * cycle + year := by
  obtain ⟨hsum, hcentury, hcycle, hyear, hday, hleap⟩ := h
  have hcenturies : dayOfEra / 36524 - dayOfEra / 146096 = century := by
    -- only the last day of the fourth century lies behind as many days as four centuries have
    by_cases hlast : dayOfEra = 146096
    · omega
    · have hwithin : dayOfEra < 36524 * century + 36524 := by omega
      omega
  have hfour : dayOfEra / 1460 =
      25 * century + cycle + (24 * century + cycle + 365 * year + day) / 1460 := by
    omega
  omega

theorem EraDay.day_eq (h : EraDay dayOfEra century cycle year day) {yearOfEra : ℤ}
    (hyearOfEra : yearOfEra = 100 * century + 4 * cycle + year) :
    dayOfEra - (365 * yearOfEra + yearOfEra / 4 - yearOfEra / 100) = day := by
  obtain ⟨hsum, hcentury, hcycle, hyear, hday, hleap⟩ := h
  have hfour : yearOfEra / 4 = 25 * century + cycle := by omega
  have hcenturies : yearOfEra / 100 = century := by omega
  omega

/-- The month of the calendar for the months counted from March. -/
def marchMonth (index : ℤ) : ℤ := if index < 10 then index + 3 else index - 9

/-- The days before the month of a year that begins in March. -/
def marchDays (index : ℤ) : ℤ := (153 * index + 2) / 5

section

variable {index : ℤ}

theorem marchMonth_mem (h : 0 ≤ index ∧ index ≤ 11) :
    1 ≤ marchMonth index ∧ marchMonth index ≤ 12 := by
  unfold marchMonth
  split_ifs <;> omega

theorem daysInMonth_marchMonth (year : ℤ) (h : 0 ≤ index ∧ index ≤ 11) :
    daysInMonth year (marchMonth index) =
      if index = 11 then if isLeap year then 29 else 28
      else marchDays (index + 1) - marchDays index := by
  obtain ⟨hlow, hhigh⟩ := h
  interval_cases index
  all_goals rfl

theorem daysBeforeMonth_marchMonth (year : ℤ) (h : 0 ≤ index ∧ index ≤ 11) :
    daysBeforeMonth year (marchMonth index) =
      if index < 10 then marchDays index + if isLeap year then 60 else 59
      else marchDays index - 306 := by
  obtain ⟨hlow, hhigh⟩ := h
  interval_cases index
  all_goals cases hleap : isLeap year <;> simp [daysBeforeMonth, marchMonth, marchDays, hleap]

end

/-- The year, month and day of a day of the year that begins in March. -/
def fromMarch (year dayOfYear : ℤ) : ℤ × ℤ × ℤ :=
  let index := (5 * dayOfYear + 2) / 153
  (year + if marchMonth index ≤ 2 then 1 else 0, marchMonth index,
    dayOfYear - marchDays index + 1)

theorem fromMarch_spec {year dayOfYear : ℤ} (hday : 0 ≤ dayOfYear ∧ dayOfYear ≤ 365)
    (hleap : dayOfYear = 365 → isLeap (year + 1) = true) :
    let date := fromMarch year dayOfYear
    IsDate date.1 date.2.1 date.2.2 ∧ dayNumber date.1 date.2.1 date.2.2 =
      daysBeforeYear (year + 1) - 306 + dayOfYear - daysBeforeYear 1970 := by
  intro date
  obtain ⟨index, hindex⟩ : ∃ index, index = (5 * dayOfYear + 2) / 153 := ⟨_, rfl⟩
  have hmem : 0 ≤ index ∧ index ≤ 11 := by omega
  have hlow : marchDays index ≤ dayOfYear := by
    unfold marchDays
    omega
  have hhigh : dayOfYear < marchDays (index + 1) := by
    unfold marchDays
    omega
  have hdate : date = (year + if index < 10 then 0 else 1, marchMonth index,
      dayOfYear - marchDays index + 1) := by
    have hyear : (if marchMonth index ≤ 2 then (1 : ℤ) else 0) = if index < 10 then 0 else 1 := by
      unfold marchMonth
      split_ifs <;> omega
    simp only [date, fromMarch, ← hindex, hyear]
  have hsucc := daysBeforeYear_succ year
  rw [hdate]
  refine ⟨⟨marchMonth_mem hmem, ?_, ?_⟩, ?_⟩
  · exact Int.le_add_of_nonneg_left (Int.sub_nonneg_of_le hlow)
  · simp only [daysInMonth_marchMonth _ hmem]
    by_cases hfebruary : index = 11
    · subst hfebruary
      simp only [marchDays] at *
      norm_num
      split_ifs with hyear
      · omega
      · have hshort : dayOfYear ≠ 365 := fun h => hyear (hleap h)
        omega
    · rw [if_neg hfebruary]
      omega
  · simp only [dayNumber, daysBeforeMonth_marchMonth _ hmem]
    by_cases hyear : index < 10
    · simp only [hyear, ↓reduceIte, add_zero]
      split_ifs at hsucc ⊢ <;> omega
    · simp only [hyear, ↓reduceIte]
      omega

/-- The date of a day, from its place in an era of four centuries; the eras begin with the
first of March of the years that 400 divides. -/
theorem EraDay.fromMarch_spec (h : EraDay dayOfEra century cycle year day) {days era : ℤ}
    (hdays : days + 719468 = 146097 * era + dayOfEra) :
    let date := fromMarch (100 * century + 4 * cycle + year + era * 400) day
    IsDate date.1 date.2.1 date.2.2 ∧ dayNumber date.1 date.2.1 date.2.2 = days := by
  obtain ⟨hsum, hcentury, hcycle, hyear, hday, hleap⟩ := h
  obtain ⟨marchYear, hmarch⟩ : ∃ marchYear,
      marchYear = 100 * century + 4 * cycle + year + era * 400 := ⟨_, rfl⟩
  have hleap' : day = 365 → isLeap (marchYear + 1) = true := by
    intro hlast
    obtain ⟨hthird, hcenturies⟩ := hleap hlast
    rw [isLeap_iff]
    omega
  have hbefore : daysBeforeYear (marchYear + 1) =
      146097 * era + 36524 * century + 1461 * cycle + 365 * year + 366 := by
    unfold daysBeforeYear
    omega
  have hepoch : daysBeforeYear 1970 = 719528 := by decide
  obtain ⟨hdate, hnumber⟩ := Gregorian.fromMarch_spec hday hleap'
  rw [← hmarch]
  exact ⟨hdate, by rw [hnumber, hbefore, hepoch]; omega⟩

/-- The days of a year follow those before it and precede those of the next. -/
theorem IsDate.dayNumber_mem {year month day : ℤ} (h : IsDate year month day) :
    daysBeforeYear year ≤ dayNumber year month day + daysBeforeYear 1970 ∧
      dayNumber year month day + daysBeforeYear 1970 < daysBeforeYear (year + 1) := by
  obtain ⟨⟨hlow, hhigh⟩, hday⟩ := h
  have hmonth : 0 ≤ daysBeforeMonth year month ∧ daysBeforeMonth year month +
      daysInMonth year month ≤ if isLeap year then 366 else 365 := by
    clear hday
    unfold daysBeforeMonth daysInMonth
    interval_cases month
    all_goals cases isLeap year <;> decide
  have hsucc := daysBeforeYear_succ year
  unfold dayNumber
  omega

theorem daysBeforeYear_mono : Monotone daysBeforeYear := by
  apply monotone_int_of_le_succ
  intro year
  rw [daysBeforeYear_succ]
  split_ifs <;> omega

theorem daysBeforeMonth_mono (year : ℤ) {month month' : ℤ} (hmonth : 1 ≤ month ∧ month < month')
    (hmonth' : month' ≤ 12) :
    daysBeforeMonth year month + daysInMonth year month ≤ daysBeforeMonth year month' := by
  obtain ⟨hlow, hlt⟩ := hmonth
  have hhigh : month < 12 := by omega
  have hlow' : 2 ≤ month' := by omega
  unfold daysBeforeMonth daysInMonth
  interval_cases month
  all_goals interval_cases month'
  all_goals first | omega | (cases isLeap year <;> decide)

/-- A day has one date. -/
theorem IsDate.unique {year month day year' month' day' : ℤ} (h : IsDate year month day)
    (h' : IsDate year' month' day') (heq : dayNumber year month day = dayNumber year' month' day') :
    year = year' ∧ month = month' ∧ day = day' := by
  have hyear : year = year' := by
    have hmem := h.dayNumber_mem
    have hmem' := h'.dayNumber_mem
    rw [heq] at hmem
    rcases lt_trichotomy year year' with hlt | rfl | hlt
    · have hmono := daysBeforeYear_mono (show year + 1 ≤ year' from hlt)
      omega
    · rfl
    · have hmono := daysBeforeYear_mono (show year' + 1 ≤ year from hlt)
      omega
  subst hyear
  obtain ⟨hmonth, hday⟩ := h
  obtain ⟨hmonth', hday'⟩ := h'
  unfold dayNumber at heq
  rcases lt_trichotomy month month' with hlt | rfl | hlt
  · have hmono := daysBeforeMonth_mono year ⟨hmonth.1, hlt⟩ hmonth'.2
    omega
  · exact ⟨rfl, rfl, by omega⟩
  · have hmono := daysBeforeMonth_mono year ⟨hmonth'.1, hlt⟩ hmonth.2
    omega

/-- A date with a time of the day. -/
structure CivilTime where
  year : ℤ
  month : ℤ
  day : ℤ
  hour : ℤ
  minute : ℤ
  second : ℤ
  date : IsDate year month day
  hour_mem : 0 ≤ hour ∧ hour < 24
  minute_mem : 0 ≤ minute ∧ minute < 60
  second_mem : 0 ≤ second ∧ second < 60

namespace CivilTime

/-- The days since 1970-01-01. -/
def days (c : CivilTime) : ℤ := dayNumber c.year c.month c.day

/-- The seconds since the first of January 1970. -/
def seconds (c : CivilTime) : ℤ := c.days * 86400 + c.hour * 3600 + c.minute * 60 + c.second

/-- The day of the week, from zero on Sundays; the first of January 1970 was a Thursday. -/
def weekday (c : CivilTime) : ℤ := (c.days + 4) % 7

theorem weekday_mem (c : CivilTime) : 0 ≤ c.weekday ∧ c.weekday < 7 :=
  ⟨Int.emod_nonneg _ (by decide), Int.emod_lt_of_pos _ (by decide)⟩

theorem day_mem (c : CivilTime) : 1 ≤ c.day ∧ c.day ≤ 31 := by
  obtain ⟨hlow, hhigh⟩ := c.date.day_mem
  unfold daysInMonth at hhigh
  split_ifs at hhigh <;> omega

/-- The years of the seconds around the epoch that 64 bits count in nanoseconds. -/
theorem year_mem (c : CivilTime) (h : -9223372037 ≤ c.seconds ∧ c.seconds ≤ 9223372037) :
    1677 ≤ c.year ∧ c.year ≤ 2262 := by
  have hdays : -106752 ≤ c.days ∧ c.days ≤ 106752 := by
    have hhour := c.hour_mem
    have hminute := c.minute_mem
    have hsecond := c.second_mem
    unfold seconds at h
    omega
  have hyear := c.date.dayNumber_mem
  have hepoch : daysBeforeYear 1970 = 719528 := by decide
  unfold days at hdays
  unfold daysBeforeYear at hyear hepoch
  omega

end CivilTime

end Gregorian
end LogGenerator
