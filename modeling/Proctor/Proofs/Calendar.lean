import Mathlib.Tactic.IntervalCases
import Proctor.Time.Calendar

/-!
Dates and days. Every day is the day of its date, and its date is one that the calendar has. Years are
counted from March, so that a year is cut into months in one way whether or not it has a leap day.

Main statements: `toDays_ofDays`, `isValid_ofDays`.
-/

namespace Proctor.Date

/-- The year of an era in which a day of the era falls. -/
theorem year_of_day {n y : Int} (low : 0 ≤ n) (high : n < 146097)
    (hy : y = (n - n / 1460 + n / 36524 - n / 146096) / 365) :
    0 ≤ y ∧ y ≤ 399 ∧ 365 * y + y / 4 - y / 100 ≤ n ∧
      n < 365 * (y + 1) + (y + 1) / 4 - (y + 1) / 100 + (y + 1) / 400 := by
  obtain ⟨century, hcentury⟩ : ∃ c, c = n / 36524 := ⟨_, rfl⟩
  rw [← hcentury] at hy
  -- the last day of an era is the leap day that the fourth century has and the others lack
  obtain hlast | hlast : n = 146096 ∨ n < 146096 := by omega
  · subst hlast
    omega
  · have hlow : 0 ≤ century ∧ century ≤ 3 := by omega
    have hdays : 365 * y ≤ n - n / 1460 + century ∧ n - n / 1460 + century < 365 * y + 365 := by omega
    have hyear : 100 * century ≤ y ∧ y < 100 * century + 100 := by omega
    have hleaps : y / 4 ≤ n / 1460 := by omega
    have hnext : n / 1460 ≤ (y + 1) / 4 := by omega
    refine ⟨by omega, by omega, by omega, ?_⟩
    obtain hend | hend : y = 100 * century + 99 ∨ y < 100 * century + 99 := by omega
    · rw [hend]
      omega
    · have hcount : (y + 1) / 100 = century := by omega
      omega

/-- The month, counted from March, in which a day of a year falls. -/
theorem month_of_day {n m : Int} (low : 0 ≤ n) (high : n ≤ 365) (hm : m = (5 * n + 2) / 153) :
    0 ≤ m ∧ m ≤ 11 ∧ (153 * m + 2) / 5 ≤ n ∧ n < (153 * (m + 1) + 2) / 5 := by
  omega

/-- Leap years are those in which the count of leap days goes up. -/
theorem leapDay (year : Int) :
    (if isLeapYear (year + 1) then 1 else 0 : Int) =
      (year + 1) / 4 - year / 4 - ((year + 1) / 100 - year / 100) + ((year + 1) / 400 - year / 400) := by
  simp only [isLeapYear, Bool.and_eq_true, Bool.or_eq_true, decide_eq_true_eq]
  split <;> omega

theorem isLeapYear_add (year era : Int) : isLeapYear (year + era * 400) = isLeapYear year := by
  have hmod4 : (year + era * 400) % 4 = year % 4 := by omega
  have hmod100 : (year + era * 400) % 100 = year % 100 := by omega
  have hmod400 : (year + era * 400) % 400 = year % 400 := by omega
  rw [isLeapYear, isLeapYear, hmod4, hmod100, hmod400]

/-- The parts of a day: an era, a year of it, a month from March and a day of the month. -/
structure Parts where
  era : Int
  year : Int
  month : Int
  day : Int

namespace Parts

/-- Days of the year before a month. -/
def monthStart (month : Int) : Int :=
  (153 * month + 2) / 5

def date (p : Parts) : Date :=
  let month := if p.month < 10 then p.month + 3 else p.month - 9
  let year := p.year + p.era * 400
  ⟨if month ≤ 2 then year + 1 else year, month.toNat, p.day.toNat⟩

def days (p : Parts) : Int :=
  p.era * 146097 + (p.year * 365 + p.year / 4 - p.year / 100 + (monthStart p.month + p.day - 1)) -
    719468

/-- Parts as the calendar has them: only in the last month can the year run out. -/
structure Sound (p : Parts) : Prop where
  year : 0 ≤ p.year ∧ p.year ≤ 399
  month : 0 ≤ p.month ∧ p.month ≤ 11
  day : 1 ≤ p.day ∧ p.day ≤ monthStart (p.month + 1) - monthStart p.month
  february : p.month = 11 → p.day ≤ if isLeapYear (p.year + 1) then 29 else 28

theorem toDays_date {p : Parts} (h : p.Sound) : toDays p.date = p.days := by
  obtain ⟨era, year, month, day⟩ := p
  obtain ⟨hyear, hmonth, hday, -⟩ := h
  dsimp only at hyear hmonth hday
  have hera : (year + era * 400) / 400 = era ∧ (year + era * 400) % 400 = year := by omega
  have hdayNat : (day.toNat : Int) = day := by omega
  -- the years of January and February are the next ones, and are taken back
  have hshift : (if ((if month < 10 then month + 3 else month - 9).toNat : Nat) ≤ 2 then
      (if (if month < 10 then month + 3 else month - 9) ≤ 2 then year + era * 400 + 1
        else year + era * 400) - 1
      else (if (if month < 10 then month + 3 else month - 9) ≤ 2 then year + era * 400 + 1
        else year + era * 400)) = year + era * 400 := by
    split_ifs <;> omega
  have hmonthNat :
      (((if month < 10 then month + 3 else month - 9).toNat : Nat) + 9 : Int) % 12 = month := by
    split_ifs <;> omega
  simp only [toDays, date, days, hshift, hmonthNat, hera.1, hera.2, hdayNat, monthStart]

theorem isValid_date {p : Parts} (h : p.Sound) : p.date.isValid = true := by
  obtain ⟨era, year, month, day⟩ := p
  obtain ⟨hyear, hmonth, hday, hfebruary⟩ := h
  dsimp only at hyear hmonth hday hfebruary
  have hlow := hmonth.1
  have hhigh := hmonth.2
  unfold monthStart at hday
  by_cases hlast : month = 11
  · subst hlast
    have hdays := hfebruary rfl
    have hleap : isLeapYear (year + era * 400 + 1) = isLeapYear (year + 1) := by
      rw [← isLeapYear_add (year + 1) era]
      congr 1
      omega
    simp only [isValid, date, daysInMonth, Int.reduceLT, Int.reduceSub, Int.reduceLE, if_false, if_true,
      Int.reduceToNat, hleap]
    split at hdays
    · rename_i h
      simp [h]
      omega
    · rename_i h
      simp [h]
      omega
  · interval_cases month
    all_goals
      simp [isValid, date, daysInMonth]
      omega

end Parts

/-- The parts of a day, as the date of a day has them. -/
def parts (days : Int) : Parts :=
  let shifted := days + 719468
  let dayOfEra := shifted % 146097
  let year := (dayOfEra - dayOfEra / 1460 + dayOfEra / 36524 - dayOfEra / 146096) / 365
  let dayOfYear := dayOfEra - (365 * year + year / 4 - year / 100)
  let month := (5 * dayOfYear + 2) / 153
  ⟨shifted / 146097, year, month, dayOfYear - Parts.monthStart month + 1⟩

theorem date_parts (days : Int) : (parts days).date = ofDays days := rfl

theorem days_parts (days : Int) : (parts days).days = days := by
  simp only [parts, Parts.days]
  omega

theorem sound_parts (days : Int) : (parts days).Sound := by
  have hday : 0 ≤ (days + 719468) % 146097 ∧ (days + 719468) % 146097 < 146097 := by omega
  obtain ⟨dayOfEra, hera⟩ : ∃ n, n = (days + 719468) % 146097 := ⟨_, rfl⟩
  have hyear := year_of_day hday.1 hday.2 rfl
  rw [← hera] at hyear hday
  obtain ⟨year, hy⟩ :
      ∃ y, y = (dayOfEra - dayOfEra / 1460 + dayOfEra / 36524 - dayOfEra / 146096) / 365 := ⟨_, rfl⟩
  rw [← hy] at hyear
  obtain ⟨dayOfYear, hd⟩ : ∃ d, d = dayOfEra - (365 * year + year / 4 - year / 100) := ⟨_, rfl⟩
  have hleap := leapDay year
  have hbound : dayOfYear < 365 + if isLeapYear (year + 1) then 1 else 0 := by omega
  have hmonth := month_of_day (m := (5 * dayOfYear + 2) / 153) (by omega)
    (by split at hbound <;> omega) rfl
  have hparts : parts days = ⟨(days + 719468) / 146097, year, (5 * dayOfYear + 2) / 153,
      dayOfYear - Parts.monthStart ((5 * dayOfYear + 2) / 153) + 1⟩ := by
    simp only [parts, hd, hy, hera]
  rw [hparts]
  refine ⟨⟨hyear.1, hyear.2.1⟩, ⟨hmonth.1, hmonth.2.1⟩, ?_, ?_⟩
  · simp only [Parts.monthStart]
    omega
  · intro hlast
    simp only [Parts.monthStart] at *
    split at hbound <;> rename_i h <;> simp [h] <;> omega

/-- The day of the date of a day is that day. -/
theorem toDays_ofDays (days : Int) : toDays (ofDays days) = days := by
  rw [← date_parts, Parts.toDays_date (sound_parts days), days_parts]

theorem isValid_ofDays (days : Int) : (ofDays days).isValid = true := by
  rw [← date_parts]
  exact Parts.isValid_date (sound_parts days)

end Proctor.Date
