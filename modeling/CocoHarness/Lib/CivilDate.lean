/-
# CocoHarness.Lib.CivilDate — the proleptic Gregorian calendar.

`dayFromYear` is the day a year begins on; the year of a day is the one year that has begun by then while the next
has not (`yearOfDay_iff`), and within it the month is found the same way.  Reading a date off a day and counting a
date's day are inverse to each other on real dates (`dayOfCivil_civilOfDay`, `civilOfDay_dayOfCivil`).
-/
import Mathlib.Tactic.IntervalCases

namespace CocoHarness.Lib

/-! ## Years -/

variable (year : Int)

def isLeapYear : Bool := year % 4 = 0 && (year % 100 ≠ 0 || year % 400 = 0)

def daysInYear : Int := if isLeapYear year then 366 else 365

def dayFromYear : Int :=
  365 * (year - 1970) + (year - 1969) / 4 - (year - 1901) / 100 + (year - 1601) / 400

theorem dayFromYear_succ : dayFromYear (year + 1) = dayFromYear year + daysInYear year := by
  have hyear : dayFromYear (year + 1) - dayFromYear year
      = 365 + (if year % 4 = 0 then 1 else 0) - (if year % 100 = 0 then 1 else 0)
        + (if year % 400 = 0 then 1 else 0) := by
    unfold dayFromYear
    split_ifs <;> omega
  have hleap : daysInYear year = 365 + (if year % 4 = 0 then 1 else 0) - (if year % 100 = 0 then 1 else 0)
        + (if year % 400 = 0 then 1 else 0) := by
    simp only [daysInYear, isLeapYear, Bool.and_eq_true, Bool.or_eq_true, decide_eq_true_eq]
    split_ifs <;> omega
  omega

theorem daysInYear_pos : 365 ≤ daysInYear year ∧ daysInYear year ≤ 366 := by
  unfold daysInYear
  split <;> omega

theorem dayFromYear_gap (n : Nat) : dayFromYear year + 365 * n ≤ dayFromYear (year + n) := by
  induction n with
  | zero => simp
  | succ n ih =>
    have hstep := dayFromYear_succ (year + n)
    have hlength := daysInYear_pos (year + n)
    have hassoc : year + ((n + 1 : Nat) : Int) = year + n + 1 := by omega
    rw [hassoc, hstep]
    omega

theorem dayFromYear_mono {year year' : Int} (h : year ≤ year') : dayFromYear year ≤ dayFromYear year' := by
  obtain ⟨n, rfl⟩ := Int.le.dest h
  have := dayFromYear_gap year n
  omega

variable (day : Int)

/-- The year a day lies in: an estimate, corrected by at most one. -/
def yearOfDay : Int :=
  let estimate := 1970 + 400 * day / 146097
  if day < dayFromYear estimate then estimate - 1
  else if dayFromYear (estimate + 1) ≤ day then estimate + 1
  else estimate

theorem yearOfDay_bounds : dayFromYear (yearOfDay day) ≤ day ∧ day < dayFromYear (yearOfDay day + 1) := by
  have hbefore : dayFromYear (1970 + 400 * day / 146097 - 1) ≤ day := by
    unfold dayFromYear
    omega
  have hafter : day < dayFromYear (1970 + 400 * day / 146097 + 1 + 1) := by
    unfold dayFromYear
    omega
  unfold yearOfDay
  dsimp only
  split
  · next h => exact ⟨hbefore, by rwa [Int.sub_add_cancel]⟩
  · next h =>
    split
    · next hnext => exact ⟨hnext, hafter⟩
    · next hnext => exact ⟨by omega, by omega⟩

/-- **The year of a day** is the one that has begun by then and whose successor has not. -/
theorem yearOfDay_iff (day year : Int) :
    yearOfDay day = year ↔ dayFromYear year ≤ day ∧ day < dayFromYear (year + 1) := by
  constructor
  · rintro rfl
    exact yearOfDay_bounds day
  · rintro ⟨hlow, hhigh⟩
    obtain ⟨hlow', hhigh'⟩ := yearOfDay_bounds day
    rcases Int.lt_trichotomy (yearOfDay day) year with hlt | heq | hgt
    · have := dayFromYear_mono (show yearOfDay day + 1 ≤ year by omega)
      omega
    · exact heq
    · have := dayFromYear_mono (show year + 1 ≤ yearOfDay day by omega)
      omega

/-! ## Months -/

variable (leap : Bool)

/-- The days of a year before a month; month 13 is the end of the year. -/
def daysBeforeMonth : Nat → Int
  | 1 => 0
  | 2 => 31
  | month =>
    (if leap then 1 else 0) + match month with
      | 3 => 59
      | 4 => 90
      | 5 => 120
      | 6 => 151
      | 7 => 181
      | 8 => 212
      | 9 => 243
      | 10 => 273
      | 11 => 304
      | 12 => 334
      | _ => 365

def daysInMonth (month : Nat) : Int := daysBeforeMonth leap (month + 1) - daysBeforeMonth leap month

def monthOfIndex (index : Int) : Nat :=
  ((List.range 11).filter fun i => daysBeforeMonth leap (i + 2) ≤ index).length + 1

theorem monthOfIndex_within : ∀ (leap : Bool) (index : Fin 366), (index : Int) < daysBeforeMonth leap 13 →
      1 ≤ monthOfIndex leap index ∧ monthOfIndex leap index ≤ 12
        ∧ daysBeforeMonth leap (monthOfIndex leap index) ≤ index
        ∧ (index : Int) < daysBeforeMonth leap (monthOfIndex leap index + 1) := by
  decide +kernel

theorem daysBeforeMonth_mono_fin : ∀ (leap : Bool) (month month' : Fin 14),
    1 ≤ month.val → month ≤ month' → daysBeforeMonth leap month ≤ daysBeforeMonth leap month' := by
  decide +kernel

theorem daysBeforeMonth_mono {month month' : Nat} (hfirst : 1 ≤ month) (hle : month ≤ month') (hlast : month' ≤ 13) :
    daysBeforeMonth leap month ≤ daysBeforeMonth leap month' :=
  daysBeforeMonth_mono_fin leap ⟨month, by omega⟩ ⟨month', by omega⟩ hfirst hle

theorem daysBeforeMonth_end : daysBeforeMonth (isLeapYear year) 13 = daysInYear year := by
  unfold daysInYear
  cases isLeapYear year <;> rfl

theorem monthOfIndex_bounds {year index : Int} (hpos : 0 ≤ index) (hlt : index < daysInYear year) :
    1 ≤ monthOfIndex (isLeapYear year) index ∧ monthOfIndex (isLeapYear year) index ≤ 12
      ∧ daysBeforeMonth (isLeapYear year) (monthOfIndex (isLeapYear year) index) ≤ index
      ∧ index < daysBeforeMonth (isLeapYear year) (monthOfIndex (isLeapYear year) index + 1) := by
  obtain ⟨n, rfl⟩ := Int.eq_ofNat_of_zero_le hpos
  have hlength := daysInYear_pos year
  exact monthOfIndex_within (isLeapYear year) ⟨n, by omega⟩ (by rw [daysBeforeMonth_end]; exact hlt)

theorem monthOfIndex_eq {year index : Int} {month : Nat} (hfirst : 1 ≤ month) (hlast : month ≤ 12)
    (hlow : daysBeforeMonth (isLeapYear year) month ≤ index)
    (hhigh : index < daysBeforeMonth (isLeapYear year) (month + 1)) :
    monthOfIndex (isLeapYear year) index = month := by
  have hfrom := daysBeforeMonth_mono (isLeapYear year) (Nat.le_refl 1) hfirst (by omega)
  have huntil := daysBeforeMonth_mono (isLeapYear year) (show 1 ≤ month + 1 by omega)
    (show month + 1 ≤ 13 by omega) (Nat.le_refl 13)
  rw [daysBeforeMonth_end] at huntil
  have hzero : daysBeforeMonth (isLeapYear year) 1 = 0 := rfl
  have hstart : 0 ≤ index := by omega
  have hend : index < daysInYear year := by omega
  obtain ⟨h1, h12, hlow', hhigh'⟩ := monthOfIndex_bounds hstart hend
  rcases Nat.lt_trichotomy (monthOfIndex (isLeapYear year) index) month with hlt | heq | hgt
  · have := daysBeforeMonth_mono (isLeapYear year)
      (show 1 ≤ monthOfIndex (isLeapYear year) index + 1 by omega) hlt (by omega)
    omega
  · exact heq
  · have := daysBeforeMonth_mono (isLeapYear year) (show 1 ≤ month + 1 by omega) hgt (by omega)
    omega

/-! ## Dates -/

structure CivilDate where
  year : Int
  month : Nat
  day : Nat
  deriving DecidableEq

structure CivilDate.Real (date : CivilDate) : Prop where
  month_pos : 1 ≤ date.month
  month_le : date.month ≤ 12
  day_pos : 1 ≤ date.day
  day_le : (date.day : Int) ≤ daysInMonth (isLeapYear date.year) date.month

/-- The day of a date; a day past the end of its month counts into the next one. -/
def dayOfCivil (date : CivilDate) : Int :=
  dayFromYear date.year + daysBeforeMonth (isLeapYear date.year) date.month + date.day - 1

def civilOfDay : CivilDate :=
  let year := yearOfDay day
  let index := day - dayFromYear year
  let month := monthOfIndex (isLeapYear year) index
  { year, month, day := (index - daysBeforeMonth (isLeapYear year) month + 1).toNat }

theorem index_bounds : 0 ≤ day - dayFromYear (yearOfDay day)
      ∧ day - dayFromYear (yearOfDay day) < daysInYear (yearOfDay day) := by
  have hbounds := yearOfDay_bounds day
  rw [dayFromYear_succ] at hbounds
  omega

theorem civilOfDay_real : (civilOfDay day).Real := by
  obtain ⟨hpos, hlt⟩ := index_bounds day
  obtain ⟨h1, h12, hlow, hhigh⟩ := monthOfIndex_bounds hpos hlt
  refine ⟨h1, h12, ?_, ?_⟩
  · simp only [civilOfDay]
    omega
  · simp only [civilOfDay, daysInMonth]
    omega

/-- **Counting the day of a day's date gives the day back.** -/
theorem dayOfCivil_civilOfDay : dayOfCivil (civilOfDay day) = day := by
  obtain ⟨hpos, hlt⟩ := index_bounds day
  obtain ⟨-, -, hlow, -⟩ := monthOfIndex_bounds hpos hlt
  simp only [dayOfCivil, civilOfDay]
  omega

/-- **The date of a real date's day is the date.** -/
theorem civilOfDay_dayOfCivil {date : CivilDate} (h : date.Real) : civilOfDay (dayOfCivil date) = date := by
  obtain ⟨year, month, day⟩ := date
  obtain ⟨hfirst, hlast, hpos, hle⟩ := h
  simp only [daysInMonth] at hfirst hlast hpos hle
  have hfrom := daysBeforeMonth_mono (isLeapYear year) (Nat.le_refl 1) hfirst (by omega)
  have huntil := daysBeforeMonth_mono (isLeapYear year) (show 1 ≤ month + 1 by omega)
    (show month + 1 ≤ 13 by omega) (Nat.le_refl 13)
  rw [daysBeforeMonth_end] at huntil
  have hzero : daysBeforeMonth (isLeapYear year) 1 = 0 := rfl
  have hyear : yearOfDay (dayOfCivil ⟨year, month, day⟩) = year := by
    rw [yearOfDay_iff, dayFromYear_succ]
    simp only [dayOfCivil]
    omega
  have hindex : dayOfCivil ⟨year, month, day⟩ - dayFromYear year
      = daysBeforeMonth (isLeapYear year) month + day - 1 := by
    simp only [dayOfCivil]
    omega
  have hmonth : monthOfIndex (isLeapYear year)
      (daysBeforeMonth (isLeapYear year) month + day - 1) = month :=
    monthOfIndex_eq hfirst hlast (by omega) (by omega)
  simp only [civilOfDay, hyear, hindex, hmonth, CivilDate.mk.injEq, true_and]
  omega

theorem yearOfDay_mem {low high day : Int} (hlow : dayFromYear low ≤ day)
    (hhigh : day < dayFromYear (high + 1)) : low ≤ yearOfDay day ∧ yearOfDay day ≤ high := by
  obtain ⟨hbegun, hnext⟩ := yearOfDay_bounds day
  constructor
  · by_contra hlt
    have := dayFromYear_mono (show yearOfDay day + 1 ≤ low by omega)
    omega
  · by_contra hgt
    have := dayFromYear_mono (show high + 1 ≤ yearOfDay day by omega)
    omega

end CocoHarness.Lib
