/-
# CocoHarness.Schedule.Calendar — calendar fields to an epoch, without normalization.

A `Date` whose fields are set counts a month past December into the next year, a day past the end of its
month into the next month, and so on.  `calendarEpoch` sets the fields and reads them back, so it accepts
exactly the fields that name an instant (`calendarEpoch_eq_ok_iff`).
-/
import CocoHarness.Schedule.Domain

namespace CocoHarness.Schedule

open Lib Lib.IsoInstant Int

/-! ## The fields of a date -/

abbrev CalendarParts := Fields

/-- `TimeClip`: past 100,000,000 days either way a date is invalid. -/
def timeClip (t : Int) : Option Int := if t.natAbs ≤ 8640000000000000 then some t else none

/-- `MakeDay`: the month counts from 0, and any month and day count on into the next ones. -/
def makeDay (year month day : Int) : Int :=
  dayFromYear (year + month / 12) + daysBeforeMonth (isLeapYear (year + month / 12)) ((month % 12).toNat + 1) + day - 1

def setUTCFullYear (t year month day : Int) : Option Int :=
  timeClip (makeDay year month day * msPerDay + t % msPerDay)

def setUTCHours (t hour minute second millisecond : Int) : Option Int :=
  timeClip (t / msPerDay * msPerDay + (((hour * 60 + minute) * 60 + second) * 1000 + millisecond))

def getUTCFullYear (t : Int) : Int := (civilOfDay (t / msPerDay)).year

def getUTCMonth (t : Int) : Int := (civilOfDay (t / msPerDay)).month - 1

def getUTCDate (t : Int) : Int := (civilOfDay (t / msPerDay)).day

def getUTCHours (t : Int) : Int := t % msPerDay / 3600000

def getUTCMinutes (t : Int) : Int := t % msPerDay / 60000 % 60

def getUTCSeconds (t : Int) : Int := t % msPerDay / 1000 % 60

def getUTCMilliseconds (t : Int) : Int := t % msPerDay % 1000

/-- Convert exact calendar fields to a UTC-shaped epoch while rejecting normalization. -/
def calendarEpoch (parts : CalendarParts) : Except ScheduleInputError Int :=
  let unreal : ScheduleInputError := ⟨.invalidRule, "The at value must be a real ISO calendar date and time."⟩
  let value := do
    let t ← setUTCHours 0 0 0 0 0
    let t ← setUTCFullYear t parts.year (parts.month - 1) parts.day
    setUTCHours t parts.hour parts.minute parts.second parts.millisecond
  match value with
  | none => .error unreal
  | some epoch =>
    if getUTCFullYear epoch ≠ parts.year ∨ getUTCMonth epoch + 1 ≠ parts.month ∨ getUTCDate epoch ≠ parts.day
        ∨ getUTCHours epoch ≠ parts.hour
        ∨ getUTCMinutes epoch ≠ parts.minute
        ∨ getUTCSeconds epoch ≠ parts.second
        ∨ getUTCMilliseconds epoch ≠ parts.millisecond then .error unreal
    else .ok epoch

/-! ## What is accepted -/

theorem timeClip_eq_some_iff {t e : Int} : timeClip t = some e ↔ e = t ∧ t.natAbs ≤ 8640000000000000 := by
  unfold timeClip
  split
  · next h => exact ⟨fun heq => ⟨(Option.some.inj heq).symm, h⟩, fun heq => congrArg some heq.1.symm⟩
  · next h => exact ⟨nofun, fun heq => absurd heq.2 h⟩

theorem makeDay_eq (year : Int) {month : Nat} (hfirst : 1 ≤ month) (hlast : month ≤ 12) (day : Nat) :
    makeDay year (month - 1) day = dayOfCivil ⟨year, month, day⟩ := by
  have hdiv : ((month : Int) - 1) / 12 = 0 := by omega
  have hmod : (((month : Int) - 1) % 12).toNat + 1 = month := by omega
  rw [makeDay, hdiv, hmod, add_zero, dayOfCivil]

theorem instant_split {day time : Int} (hpos : 0 ≤ time) (hlt : time < msPerDay) :
    (day * msPerDay + time) / msPerDay = day ∧ (day * msPerDay + time) % msPerDay = time := by
  have hday : (0 : Int) < msPerDay := by decide
  constructor
  · rw [add_comm, add_mul_ediv_right _ _ hday.ne', ediv_eq_zero_of_lt hpos hlt, zero_add]
  · rw [add_comm, add_mul_emod_self_right, emod_eq_of_lt hpos hlt]

theorem timeOfDay_range {f : Fields} (h : f.Real) : 0 ≤ timeOfDay f ∧ timeOfDay f < msPerDay := by
  have hhour := h.hour
  have hminute := h.minute
  have hsecond := h.second
  have hmillisecond := h.millisecond
  simp only [timeOfDay, msPerDay]
  omega

theorem getters_iff {parts : CalendarParts} {epoch : Int} :
    (getUTCFullYear epoch = parts.year ∧ getUTCMonth epoch + 1 = parts.month
      ∧ getUTCDate epoch = parts.day ∧ getUTCHours epoch = parts.hour
      ∧ getUTCMinutes epoch = parts.minute ∧ getUTCSeconds epoch = parts.second
      ∧ getUTCMilliseconds epoch = parts.millisecond) ↔ parts.Real ∧ epoch = instantOf parts := by
  have hday : (0 : Int) < msPerDay := by decide
  have hms := emod_nonneg epoch hday.ne'
  have hlt := emod_lt_of_pos epoch hday
  constructor
  · rintro ⟨hyear, hmonth, hdate, hhour, hminute, hsecond, hmillisecond⟩
    simp only [getUTCFullYear, getUTCMonth, getUTCDate, getUTCHours, getUTCMinutes, getUTCSeconds,
      getUTCMilliseconds] at hyear hmonth hdate hhour hminute hsecond hmillisecond
    have hnonneg : 0 ≤ yearOf epoch := by
      show 0 ≤ (civilOfDay (epoch / msPerDay)).year
      omega
    have hparts : parts = isoFields epoch := by
      obtain ⟨year, month, day, hour, minute, second, millisecond⟩ := parts
      dsimp only at hyear hmonth hdate hhour hminute hsecond hmillisecond
      simp only [isoFields, Fields.mk.injEq]
      omega
    rw [hparts]
    exact ⟨isoFields_real hnonneg, (instantOf_isoFields hnonneg).symm⟩
  · rintro ⟨hreal, rfl⟩
    obtain ⟨hdiv, hmod⟩ := @instant_split (dayOfCivil ⟨parts.year, parts.month, parts.day⟩) _
      (timeOfDay_range hreal).1 (timeOfDay_range hreal).2
    have hsplit : instantOf parts = dayOfCivil ⟨parts.year, parts.month, parts.day⟩ * msPerDay + timeOfDay parts := rfl
    simp only [getUTCFullYear, getUTCMonth, getUTCDate, getUTCHours, getUTCMinutes, getUTCSeconds, getUTCMilliseconds]
    rw [hsplit, hdiv, hmod, civilOfDay_dayOfCivil hreal.date]
    have hminute := hreal.minute
    have hsecond := hreal.second
    have hmillisecond := hreal.millisecond
    simp only [timeOfDay, true_and]
    omega

/-- **Fields are accepted exactly when they name an instant**, which is the epoch, in the range of dates. -/
theorem calendarEpoch_eq_ok_iff {parts : CalendarParts} {epoch : Int} : calendarEpoch parts = .ok epoch ↔
      parts.Real ∧ epoch = instantOf parts ∧ epoch.natAbs ≤ 8640000000000000 := by
  have hstart : setUTCHours 0 0 0 0 0 = some 0 := rfl
  unfold calendarEpoch
  dsimp only
  rw [hstart]
  simp only [Option.bind_eq_bind, Option.bind_some]
  constructor
  · intro h
    split at h
    · cases h
    · next value hvalue =>
      split at h
      · cases h
      · next hsame =>
        cases h
        simp only [not_or, not_not] at hsame
        obtain ⟨hreal, heq⟩ := getters_iff.mp hsame
        refine ⟨hreal, heq, ?_⟩
        obtain ⟨t, -, ht⟩ := Option.bind_eq_some_iff.mp hvalue
        obtain ⟨heq', hclip⟩ := timeClip_eq_some_iff.mp ht
        rw [heq']
        exact hclip
  · rintro ⟨hreal, rfl, hclip⟩
    have hsame := getters_iff.mpr ⟨hreal, rfl⟩
    obtain ⟨hpos, hlt⟩ := timeOfDay_range hreal
    have hmake : makeDay parts.year (parts.month - 1) parts.day = dayOfCivil ⟨parts.year, parts.month, parts.day⟩ :=
      makeDay_eq parts.year hreal.date.month_pos hreal.date.month_le parts.day
    have hsplit : instantOf parts = dayOfCivil ⟨parts.year, parts.month, parts.day⟩ * msPerDay + timeOfDay parts := rfl
    have hmidnight : setUTCFullYear 0 parts.year (parts.month - 1) parts.day =
        some (dayOfCivil ⟨parts.year, parts.month, parts.day⟩ * msPerDay) := by
      rw [setUTCFullYear, timeClip_eq_some_iff, hmake, zero_emod, add_zero]
      refine ⟨rfl, ?_⟩
      simp only [msPerDay] at hsplit hlt ⊢
      omega
    have htime : setUTCHours (dayOfCivil ⟨parts.year, parts.month, parts.day⟩ * msPerDay) parts.hour
        parts.minute parts.second parts.millisecond = some (instantOf parts) := by
      rw [setUTCHours, timeClip_eq_some_iff, mul_ediv_cancel _ (by decide)]
      exact ⟨rfl, hclip⟩
    rw [hmidnight, Option.bind_some, htime]
    dsimp only
    rw [if_neg]
    simp only [not_or, not_not]
    exact hsame

end CocoHarness.Schedule
