/-
# CocoHarness.Schedule.LocalInstant — a local wall-clock time to the first instant that shows it.

A zone is its offset at each instant: the local projection of an instant is the instant plus the offset
there.  The resolver does not search: it probes the offset a day and two days around the local time read as
UTC, tries each offset it met, and keeps the candidates that project back.

An instant that shows the time lies within a day of it, so between the probes a day before and a day after;
were its offset neither of theirs, the offset would change on both sides of it within two days
(`exists_probe`).  Zones whose changes are at least four days apart therefore resolve exactly
(`resolveLocalInstant_exact`), among the instants that are representable.
-/
import CocoHarness.Schedule.OffsetInstant

namespace CocoHarness.Schedule

open Lib Lib.IsoInstant Lib.Numeral List

/-! ## Local input -/

structure LocalAtInput where
  date : String
  time : String

def matchLocalDate (cs : List Char) : Option (Nat × Nat × Nat) := do
  let (year, cs) ← readField 4 '-' cs
  let (month, cs) ← readField 2 '-' cs
  let (day, cs) ← readDigits 2 cs
  if cs = [] then some (year, month, day) else none

def matchLocalTime (cs : List Char) : Option (Nat × Nat × Nat × Option (List Char)) := do
  let (hour, cs) ← readField 2 ':' cs
  let (minute, cs) ← readField 2 ':' cs
  let (second, cs) ← readDigits 2 cs
  let (fraction, cs) ← readFraction cs
  if cs = [] then some (hour, minute, second, fraction) else none

/-- Parse strict local calendar fields without consulting a process time zone. -/
def parseLocalAt (value : LocalAtInput) : Except ScheduleInputError CalendarParts :=
  match matchLocalDate value.date.toList, matchLocalTime value.time.toList with
  | some (year, month, day), some (hour, minute, second, fraction) => do
    let parts : CalendarParts := { year, month, day, hour, minute, second, millisecond := milliseconds fraction }
    if parts.year = 0 ∨ parts.hour > 23 ∨ parts.minute > 59 ∨ parts.second > 59 then
      throw ⟨.invalidRule, "The local at value must be a real ISO calendar date and time."⟩
    let _ ← calendarEpoch parts
    return parts
  | _, _ => .error ⟨.invalidRule,
      "Local at requires date YYYY-MM-DD and time HH:mm:ss with optional one-to-three digit milliseconds."⟩

/-! ## Local texts -/

def dateText (year month day : Nat) : List Char :=
  fixedDigits 4 year ++ '-' :: (fixedDigits 2 month ++ '-' :: fixedDigits 2 day)

def timeText (hour minute second : Nat) (fraction : Option (List Char)) : List Char :=
  fixedDigits 2 hour ++ ':' :: (fixedDigits 2 minute ++ ':' :: (fixedDigits 2 second ++ fractionText fraction))

/-- One to three digits, or nothing. -/
def FractionDigits (fraction : Option (List Char)) : Prop :=
  ∀ ds, fraction = some ds → (1 ≤ ds.length ∧ ds.length ≤ 3) ∧ ∀ c ∈ ds, isDigit c = true

section LocalTexts

variable {cs : List Char} {year month day hour minute second : Nat} {fraction : Option (List Char)}

theorem readFraction_text (h : FractionDigits fraction) : readFraction (fractionText fraction) = some (fraction, []) := by
  cases fraction with
  | none => rfl
  | some ds =>
    obtain ⟨hlength, hdigits⟩ := h ds rfl
    show readFraction ('.' :: ds) = _
    rw [readFraction, takeWhile_eq_self_iff.mpr hdigits, dropWhile_eq_nil_iff.mpr hdigits]
    exact if_pos hlength

theorem matchLocalDate_eq_some_iff : matchLocalDate cs = some (year, month, day) ↔
    year < 10 ^ 4 ∧ month < 10 ^ 2 ∧ day < 10 ^ 2 ∧ cs = dateText year month day := by
  simp only [matchLocalDate, Option.bind_eq_bind, Option.bind_eq_some_iff, Prod.exists, readField_eq_some_iff,
    readDigits_eq_some_iff, Option.ite_none_right_eq_some]
  constructor
  · rintro ⟨_, _, ⟨hyear, rfl⟩, _, _, ⟨hmonth, rfl⟩, _, _, ⟨hday, rfl⟩, rfl, h⟩
    cases h
    exact ⟨hyear, hmonth, hday, by rw [append_nil]; rfl⟩
  · rintro ⟨hyear, hmonth, hday, rfl⟩
    exact ⟨_, _, ⟨hyear, rfl⟩, _, _, ⟨hmonth, rfl⟩, _, [], ⟨hday, (append_nil _).symm⟩, rfl, rfl⟩

theorem matchLocalTime_eq_some_iff : matchLocalTime cs = some (hour, minute, second, fraction) ↔
    hour < 10 ^ 2 ∧ minute < 10 ^ 2 ∧ second < 10 ^ 2 ∧ FractionDigits fraction ∧ cs = timeText hour minute second fraction := by
  simp only [matchLocalTime, Option.bind_eq_bind, Option.bind_eq_some_iff, Prod.exists, readField_eq_some_iff,
    readDigits_eq_some_iff, Option.ite_none_right_eq_some]
  constructor
  · rintro ⟨_, _, ⟨hhour, rfl⟩, _, _, ⟨hminute, rfl⟩, _, _, ⟨hsecond, rfl⟩, _, _, hfraction, rfl, h⟩
    cases h
    obtain ⟨rfl, hdigits⟩ := readFraction_some hfraction
    exact ⟨hhour, hminute, hsecond, hdigits, by rw [append_nil]; rfl⟩
  · rintro ⟨hhour, hminute, hsecond, hdigits, rfl⟩
    exact ⟨_, _, ⟨hhour, rfl⟩, _, _, ⟨hminute, rfl⟩, _, _, ⟨hsecond, rfl⟩, _, [], readFraction_text hdigits, rfl, rfl⟩

end LocalTexts

/-- **A local date and time** is accepted exactly when its texts are those of a real date of a year that is not 0000 and
of a real time with up to three digits of milliseconds. -/
theorem parseLocalAt_iff (value : LocalAtInput) (parts : CalendarParts) : parseLocalAt value = .ok parts ↔
    parts.Real ∧ parts.year ≠ 0 ∧ parts.year < 10000 ∧ value.date.toList = dateText parts.year parts.month parts.day ∧
      ∃ fraction, FractionDigits fraction ∧ fractionMs fraction = parts.millisecond ∧
        value.time.toList = timeText parts.hour parts.minute parts.second fraction := by
  constructor
  · intro h
    unfold parseLocalAt at h
    split at h
    · next year month day hour minute second fraction hdate htime =>
      obtain ⟨hyear, -, -, hdate⟩ := matchLocalDate_eq_some_iff.mp hdate
      obtain ⟨-, -, -, hdigits, htime⟩ := matchLocalTime_eq_some_iff.mp htime
      dsimp only at h
      split at h
      · cases h
      · next hguard =>
        obtain ⟨epoch, hepoch, h⟩ := bind_eq_ok_iff.mp h
        cases h
        simp only [not_or] at hguard
        exact ⟨((calendarEpoch_fields hguard.1 hyear).mp hepoch).1, hguard.1, hyear, hdate, fraction, hdigits,
          (milliseconds_eq hdigits).symm, htime⟩
    · cases h
  · rintro ⟨hreal, hyear, hfour, hdate, fraction, hdigits, hms, htime⟩
    have hfits := hreal.fits hfour
    have hguard : ¬ (parts.year = 0 ∨ parts.hour > 23 ∨ parts.minute > 59 ∨ parts.second > 59) := by
      have hhour := hreal.hour
      have hminute := hreal.minute
      have hsecond := hreal.second
      omega
    rw [parseLocalAt, matchLocalDate_eq_some_iff.mpr ⟨hfits.year, hfits.month, hfits.day, hdate⟩,
      matchLocalTime_eq_some_iff.mpr ⟨hfits.hour, hfits.minute, hfits.second, hdigits, htime⟩]
    dsimp only
    rw [milliseconds_eq hdigits, hms, if_neg hguard, (calendarEpoch_fields hyear hfour).mpr ⟨hreal, rfl⟩]
    rfl

/-! ## Projection and resolution -/

/-- The local fields of an instant, and the offset that produced them. -/
structure LocalProjection where
  year : Int
  month : Int
  day : Int
  hour : Int
  minute : Int
  second : Int
  millisecond : Int
  offset : Int

/-- The projection of a zone given by its offset at each instant. -/
def localProjection (offsetAt : Int → Int) (epoch : Int) : LocalProjection :=
  let t := epoch + offsetAt epoch
  { year := getUTCFullYear t, month := getUTCMonth t + 1, day := getUTCDate t, hour := getUTCHours t
    minute := getUTCMinutes t, second := getUTCSeconds t, millisecond := getUTCMilliseconds t
    offset := offsetAt epoch }

def LocalProjection.Shows (p : LocalProjection) (parts : CalendarParts) : Prop :=
  p.year = parts.year ∧ p.month = parts.month ∧ p.day = parts.day ∧ p.hour = parts.hour
    ∧ p.minute = parts.minute ∧ p.second = parts.second ∧ p.millisecond = parts.millisecond

instance (p : LocalProjection) (parts : CalendarParts) : Decidable (p.Shows parts) :=
  inferInstanceAs (Decidable (_ ∧ _))

/-- Where the offset is probed, relative to the local time read as UTC. -/
def probes : List Int := [-172800000, -86400000, 0, 86400000, 172800000]

def probedOffsets (offsetAt : Int → Int) (localEpoch : Int) : List Int :=
  (probes.map fun delta =>
    (localProjection offsetAt (min maxFourDigitYearMs (max minFourDigitYearMs (localEpoch + delta)))).offset).eraseDups

/-- Resolve a wall-clock value: the first instant in an overlap, none in a gap. -/
def resolveLocalInstant (offsetAt : Int → Int) (parts : CalendarParts) : Except ScheduleInputError Int := do
  let localEpoch ← calendarEpoch parts
  let offsets := probedOffsets offsetAt localEpoch
  let inRange := (offsets.map (localEpoch - ·)).filter fun candidate =>
    minFourDigitYearMs ≤ candidate ∧ candidate ≤ maxFourDigitYearMs
  let outOfRange := inRange.length < offsets.length
  let candidates := inRange.filter fun candidate => (localProjection offsetAt candidate).Shows parts
  match (candidates.insertionSort (· ≤ ·)).head? with
  | some first => return first
  | none =>
    if outOfRange then
      throw ⟨.timeOutOfRange, "The scheduled time must be representable as a four-digit-year RFC 3339 UTC instant."⟩
    else throw ⟨.invalidRule, "The local at time does not exist in the selected time zone."⟩

/-! ## Zones -/

def Transition (offsetAt : Int → Int) (t : Int) : Prop := offsetAt (t - 1) ≠ offsetAt t

/-- Offsets are under a day, and no 96 hours hold two transitions. -/
structure SparseZone (offsetAt : Int → Int) : Prop where
  bound : ∀ t, (offsetAt t).natAbs < 86400000
  sparse : ∀ t t', Transition offsetAt t → Transition offsetAt t' → t < t' → t + 345600000 ≤ t'

variable {offsetAt : Int → Int}

theorem exists_transition {a : Int} (n : Nat) (h : offsetAt a ≠ offsetAt (a + n)) :
    ∃ t, a < t ∧ t ≤ a + n ∧ Transition offsetAt t := by
  induction n with
  | zero => exact absurd (by rw [Int.natCast_zero, Int.add_zero]) h
  | succ n ih =>
    by_cases hsame : offsetAt a = offsetAt (a + n)
    · refine ⟨a + (n + 1 : Nat), by omega, Int.le_refl _, ?_⟩
      show offsetAt (a + (n + 1 : Nat) - 1) ≠ _
      rw [show a + ((n + 1 : Nat) : Int) - 1 = a + n by omega, ← hsame]
      exact h
    · obtain ⟨t, hlow, hhigh, ht⟩ := ih hsame
      exact ⟨t, hlow, by omega, ht⟩

variable {e : Int}

/-- **Two probes suffice**, a day before and a day after. -/
theorem exists_probe (hzone : SparseZone offsetAt) {localEpoch : Int} (hrange : InRange e)
    (hshows : e + offsetAt e = localEpoch) : offsetAt e ∈ probedOffsets offsetAt localEpoch := by
  have hbound := hzone.bound e
  simp only [InRange] at hrange
  rw [probedOffsets, mem_eraseDups, mem_map]
  let before := min maxFourDigitYearMs (max minFourDigitYearMs (localEpoch + -86400000))
  let after := min maxFourDigitYearMs (max minFourDigitYearMs (localEpoch + 86400000))
  have hbefore : before ≤ e ∧ e - before ≤ 172800000 := by
    simp only [before]
    omega
  have hafter : e ≤ after ∧ after - e ≤ 172800000 := by
    simp only [after]
    omega
  by_cases hsame : offsetAt before = offsetAt e
  · exact ⟨-86400000, by decide, hsame⟩
  · refine ⟨86400000, by decide, ?_⟩
    by_contra hdiffer
    -- a transition on each side, less than four days apart
    obtain ⟨t, hlow, htop, ht⟩ := @exists_transition offsetAt before (e - before).toNat (by
      rw [show before + ((e - before).toNat : Int) = e by omega]
      exact hsame)
    obtain ⟨t', hbottom, htop', ht'⟩ := @exists_transition offsetAt e (after - e).toNat (by
      rw [show e + ((after - e).toNat : Int) = after by omega]
      exact fun heq => hdiffer heq.symm)
    have hgap := hzone.sparse t t' ht ht' (by omega)
    omega

theorem head_insertionSort {l : List Int} {first : Int} :
    (l.insertionSort (· ≤ ·)).head? = some first ↔ first ∈ l ∧ ∀ x ∈ l, first ≤ x := by
  have hperm := perm_insertionSort (· ≤ ·) l
  have hsorted := pairwise_insertionSort (· ≤ ·) l
  cases hl : l.insertionSort (· ≤ ·) with
  | nil =>
    rw [hl] at hperm
    rw [nil_perm.mp hperm]
    exact ⟨nofun, fun h => absurd h.1 not_mem_nil⟩
  | cons x xs =>
    rw [hl] at hperm hsorted
    have hleast : ∀ y ∈ l, x ≤ y := by
      intro y hy
      rcases mem_cons.mp (hperm.mem_iff.mpr hy) with rfl | hy
      · exact Int.le_refl _
      · exact (pairwise_cons.mp hsorted).1 y hy
    have hmem : x ∈ l := hperm.mem_iff.mp (mem_cons_self ..)
    rw [head?_cons, Option.some_inj]
    constructor
    · rintro rfl
      exact ⟨hmem, hleast⟩
    · rintro ⟨hfirst, hall⟩
      exact Int.le_antisymm (hleast first hfirst) (hall x hmem)

/-- An instant projects to the fields: its projection shows exactly them. -/
def Projects (offsetAt : Int → Int) (parts : CalendarParts) (e : Int) : Prop :=
  (localProjection offsetAt e).Shows parts

instance (offsetAt : Int → Int) (parts : CalendarParts) (e : Int) : Decidable (Projects offsetAt parts e) :=
  inferInstanceAs (Decidable (LocalProjection.Shows _ _))

variable {parts : CalendarParts}

theorem projects_iff (hreal : parts.Real) : Projects offsetAt parts e ↔ e + offsetAt e = instantOf parts := by
  constructor
  · intro h
    exact (getters_iff.mp h).2
  · intro h
    exact getters_iff.mpr ⟨hreal, h⟩

/-- The candidates that project back are the representable instants that show the time. -/
theorem mem_candidates (hzone : SparseZone offsetAt) (hreal : parts.Real) :
    e ∈ (((probedOffsets offsetAt (instantOf parts)).map (instantOf parts - ·)).filter fun candidate =>
        decide (minFourDigitYearMs ≤ candidate ∧ candidate ≤ maxFourDigitYearMs)).filter
          (fun candidate => decide ((localProjection offsetAt candidate).Shows parts)) ↔
      InRange e ∧ Projects offsetAt parts e := by
  rw [mem_filter, mem_filter, decide_eq_true_eq, decide_eq_true_eq]
  constructor
  · rintro ⟨⟨-, hrange⟩, hshows⟩
    exact ⟨hrange, hshows⟩
  · rintro ⟨hrange, hshows⟩
    have hinstant := (projects_iff hreal).mp hshows
    refine ⟨⟨mem_map.mpr ⟨offsetAt e, exists_probe hzone hrange hinstant, ?_⟩, hrange⟩, hshows⟩
    omega

/-- **Local times resolve exactly**: to the earliest representable instant that projects to the fields, and with a
rejection exactly when there is none. -/
theorem resolveLocalInstant_exact {offsetAt : Int → Int} (hzone : SparseZone offsetAt) (hreal : parts.Real) (hyear : parts.year ≠ 0 ∧ parts.year < 10000) :
    (∀ e, resolveLocalInstant offsetAt parts = .ok e ↔ InRange e ∧ Projects offsetAt parts e ∧
        ∀ e', InRange e' → Projects offsetAt parts e' → e ≤ e') ∧
    ((∃ error, resolveLocalInstant offsetAt parts = .error error) ↔ ∀ e, InRange e → ¬ Projects offsetAt parts e) := by
  have hepoch := (@calendarEpoch_fields parts hyear.1 hyear.2 _).mpr ⟨hreal, rfl⟩
  rw [resolveLocalInstant, hepoch, ok_bind]
  dsimp only
  generalize hcandidates : ((probedOffsets offsetAt (instantOf parts)).map _).filter _ = inRange
  generalize hlist : inRange.filter _ = candidates
  have hmem : ∀ e, e ∈ candidates ↔ InRange e ∧ Projects offsetAt parts e := by
    intro e
    rw [← hlist, ← hcandidates]
    exact mem_candidates hzone hreal
  cases hhead : (candidates.insertionSort (· ≤ ·)).head? with
  | some first =>
    obtain ⟨hfirst, hleast⟩ := head_insertionSort.mp hhead
    obtain ⟨hrange, hprojects⟩ := (hmem first).mp hfirst
    have hearliest : ∀ e', InRange e' → Projects offsetAt parts e' → first ≤ e' :=
      fun e' hrange' hprojects' => hleast e' ((hmem e').mpr ⟨hrange', hprojects'⟩)
    refine ⟨fun e => ⟨fun h => ?_, fun h => ?_⟩, ⟨?_, fun h => absurd hprojects (h first hrange)⟩⟩
    · cases h
      exact ⟨hrange, hprojects, hearliest⟩
    · exact congrArg Except.ok (Int.le_antisymm (hearliest e h.1 h.2.1) (h.2.2 first hrange hprojects))
    · rintro ⟨error, h⟩
      cases h
  | none =>
    have hnone : ∀ e, InRange e → ¬ Projects offsetAt parts e := by
      intro e hrange hprojects
      have hin := (hmem e).mpr ⟨hrange, hprojects⟩
      rw [List.head?_eq_none_iff] at hhead
      rw [(List.perm_insertionSort (· ≤ ·) candidates).symm.mem_iff, hhead] at hin
      cases hin
    refine ⟨fun e => ⟨fun h => ?_, fun h => absurd h.2.1 (hnone e h.1)⟩, ⟨fun _ => hnone, fun _ => ?_⟩⟩
    · dsimp only at h
      split at h <;> cases h
    · dsimp only
      split
      · exact ⟨_, rfl⟩
      · exact ⟨_, rfl⟩

def fallsBack (t : Int) : Int := if t < 0 then 7200000 else 3600000

/-- Half past one is shown twice; the first time is taken. -/
theorem resolveLocalInstant_fallsBack : resolveLocalInstant fallsBack ⟨1970, 1, 1, 1, 30, 0, 0⟩ = .ok (-1800000) := by
  have hzone : SparseZone fallsBack := by
    refine ⟨fun t => ?_, fun t t' ht ht' hlt => ?_⟩
    · unfold fallsBack
      split <;> decide
    · simp only [Transition, fallsBack] at ht ht'
      omega
  have hreal : Fields.Real ⟨1970, 1, 1, 1, 30, 0, 0⟩ :=
    ⟨⟨by decide, by decide, by decide, by decide⟩, by decide, by decide, by decide, by decide⟩
  apply ((resolveLocalInstant_exact hzone hreal (by decide)).1 _).mpr
  refine ⟨by decide, by decide +kernel, fun e' _ hprojects => ?_⟩
  have hinstant := (projects_iff hreal).mp hprojects
  rw [show instantOf ⟨1970, 1, 1, 1, 30, 0, 0⟩ = 5400000 by decide +kernel, fallsBack] at hinstant
  split at hinstant <;> omega

/-- The first local midnight of the year 1, an hour ahead of UTC, is an instant of the year 0. -/
theorem not_resolveLocalInstant_earliest :
    ¬ ∀ (offsetAt : Int → Int) (parts : CalendarParts), SparseZone offsetAt → parts.Real →
      parts.year ≠ 0 ∧ parts.year < 10000 →
        ((∃ error, resolveLocalInstant offsetAt parts = .error error) ↔ ∀ e, ¬ Projects offsetAt parts e) := by
  intro h
  have hzone : SparseZone fun _ => 3600000 := ⟨fun _ => by decide, fun t t' ht => absurd rfl ht⟩
  have hreal : Fields.Real ⟨1, 1, 1, 0, 0, 0, 0⟩ :=
    ⟨⟨by decide, by decide, by decide, by decide⟩, by decide, by decide, by decide, by decide⟩
  have hnone := (h _ _ hzone hreal (by decide)).mp ⟨⟨.timeOutOfRange,
    "The scheduled time must be representable as a four-digit-year RFC 3339 UTC instant."⟩, by decide +kernel⟩
  apply hnone (-62135600400000)
  decide +kernel

end CocoHarness.Schedule
