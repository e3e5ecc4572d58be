/-
# CocoHarness.Schedule.OffsetInstant — reading an instant whose offset is part of the text.

A text of the accepted shape is the text of one `OffsetDateTime` (`matchOffsetInstant_eq_some_iff`), and it
is accepted exactly when that date and time is real, apart from the year 0000 and the offset `-00:00`, which
are refused (`parseOffsetInstant_eq_ok_iff`).
-/
import CocoHarness.Schedule.Calendar
import CocoHarness.Schedule.Fold

namespace CocoHarness.Schedule

open Lib Lib.IsoInstant Lib.Numeral List Option

/-! ## Dates and times with an offset -/

/-- The zone of an instant's text: `Z`, or a sign with hours and minutes. -/
inductive Zone where
  | utc
  | numeric (negative : Bool) (hour minute : Nat)
  deriving DecidableEq

/-- What the groups of a matching text hold; the fraction keeps its digits. -/
structure OffsetDateTime where
  year : Nat
  month : Nat
  day : Nat
  hour : Nat
  minute : Nat
  second : Nat
  fraction : Option (List Char)
  zone : Zone
  deriving DecidableEq

/-! ## Matching -/

def readDigits (width : Nat) (cs : List Char) : Option (Nat × List Char) :=
  let ds := cs.take width
  if ds.length = width ∧ ds.all isDigit then some (digitsVal ds, cs.drop width) else none

def readFraction : List Char → Option (Option (List Char) × List Char)
  | '.' :: cs =>
    let ds := cs.takeWhile isDigit
    if 1 ≤ ds.length ∧ ds.length ≤ 3 then some (some ds, cs.dropWhile isDigit) else none
  | cs => some (none, cs)

/-- Read the hours and minutes of a numeric offset, to the end of the text. -/
def readOffset (negative : Bool) (cs : List Char) : Option Zone := do
  let (hour, cs) ← readField 2 ':' cs
  let (minute, cs) ← readDigits 2 cs
  if cs = [] then some (.numeric negative hour minute) else none

def readZone : List Char → Option Zone
  | ['Z'] => some .utc
  | '+' :: cs => readOffset false cs
  | '-' :: cs => readOffset true cs
  | _ => none

def matchOffsetInstant (cs : List Char) : Option OffsetDateTime := do
  let (year, cs) ← readField 4 '-' cs
  let (month, cs) ← readField 2 '-' cs
  let (day, cs) ← readField 2 'T' cs
  let (hour, cs) ← readField 2 ':' cs
  let (minute, cs) ← readField 2 ':' cs
  let (second, cs) ← readDigits 2 cs
  let (fraction, cs) ← readFraction cs
  let zone ← readZone cs
  return { year, month, day, hour, minute, second, fraction, zone }

/-! ## Parsing -/

/-- Normalize an optional one-to-three digit fractional second to milliseconds. -/
def milliseconds : Option (List Char) → Nat
  | none => 0
  | some ds => digitsVal (ds ++ List.replicate (3 - ds.length) '0')

def OffsetDateTime.parts (d : OffsetDateTime) : CalendarParts where
  year := d.year
  month := d.month
  day := d.day
  hour := d.hour
  minute := d.minute
  second := d.second
  millisecond := milliseconds d.fraction

/-- Parse a strict RFC 3339 instant whose numeric offset is part of the input. -/
def parseOffsetInstant (value : String) : Except ScheduleInputError Int :=
  match matchOffsetInstant value.toList with
  | none => .error ⟨.invalidRule,
      "at must use YYYY-MM-DDTHH:mm:ss with optional 1-3 digit fractional seconds and an explicit Z or numeric offset."⟩
  | some groups => do
    let parts := groups.parts
    if parts.year = 0 ∨ parts.hour > 23 ∨ parts.minute > 59 ∨ parts.second > 59 then
      throw ⟨.invalidRule, "The at value must be a real ISO calendar date and time."⟩
    let localEpoch ← calendarEpoch parts
    match groups.zone with
    | .utc => return localEpoch
    | .numeric negative offsetHour offsetMinute =>
      if offsetHour > 23 ∨ offsetMinute > 59 ∨ (negative = true ∧ offsetHour = 0 ∧ offsetMinute = 0) then
        throw ⟨.invalidRule, "The at numeric offset is invalid."⟩
      let direction : Int := if negative then -1 else 1
      return localEpoch - direction * (offsetHour * 60 + offsetMinute) * 60000

/-! ## Texts -/

def Zone.text : Zone → List Char
  | utc => ['Z']
  | numeric negative hour minute =>
    (if negative then '-' else '+') :: (fixedDigits 2 hour ++ ':' :: fixedDigits 2 minute)

def fractionText : Option (List Char) → List Char
  | none => []
  | some ds => '.' :: ds

def OffsetDateTime.text (d : OffsetDateTime) : List Char :=
  fixedDigits 4 d.year ++ '-' :: (fixedDigits 2 d.month ++ '-' :: (fixedDigits 2 d.day
    ++ 'T' :: (fixedDigits 2 d.hour ++ ':' :: (fixedDigits 2 d.minute
    ++ ':' :: (fixedDigits 2 d.second ++ (fractionText d.fraction ++ d.zone.text))))))

def Zone.Fits : Zone → Prop
  | utc => True
  | numeric _ hour minute => hour < 100 ∧ minute < 100

/-- Every number fits its field, and the fraction is one to three digits. -/
structure OffsetDateTime.Fits (d : OffsetDateTime) : Prop where
  year : d.year < 10000
  month : d.month < 100
  day : d.day < 100
  hour : d.hour < 100
  minute : d.minute < 100
  second : d.second < 100
  fraction : ∀ ds, d.fraction = some ds → (1 ≤ ds.length ∧ ds.length ≤ 3) ∧ ∀ c ∈ ds, isDigit c = true
  zone : d.zone.Fits

variable {cs rest : List Char}

theorem readDigits_eq_some_iff {width : Nat} {n : Nat} :
    readDigits width cs = some (n, rest) ↔ n < 10 ^ width ∧ cs = fixedDigits width n ++ rest := by
  constructor
  · intro h
    rw [readDigits] at h
    split at h
    · next hds =>
      obtain ⟨hlength, hall⟩ := hds
      cases Option.some.inj h
      obtain ⟨htext, hlt⟩ := fixedDigits_digitsVal (all_eq_true.mp hall)
      rw [hlength] at htext hlt
      refine ⟨hlt, ?_⟩
      rw [htext, take_append_drop]
    · cases h
  · rintro ⟨hlt, rfl⟩
    have htake : (fixedDigits width n ++ rest).take width = fixedDigits width n :=
      take_left' (fixedDigits_length width n)
    have hdrop : (fixedDigits width n ++ rest).drop width = rest := drop_left' (fixedDigits_length width n)
    rw [readDigits, htake, hdrop, if_pos ⟨fixedDigits_length width n,
      all_eq_true.mpr (fixedDigits_isDigit width n)⟩, digitsVal_fixedDigits hlt]

variable {z : Zone}

theorem readOffset_eq_some_iff {negative : Bool} :
    readOffset negative cs = some z ↔ ∃ hour minute, z = .numeric negative hour minute ∧ hour < 100 ∧
      minute < 100 ∧ cs = fixedDigits 2 hour ++ ':' :: fixedDigits 2 minute := by
  constructor
  · intro h
    simp only [readOffset, bind_eq_bind, bind_eq_some_iff, Prod.exists,
      readField_eq_some_iff, readDigits_eq_some_iff] at h
    obtain ⟨hour, r, ⟨hhour, rfl⟩, minute, r', ⟨hminute, rfl⟩, h⟩ := h
    split at h
    · next hend =>
      subst hend
      exact ⟨hour, minute, (Option.some.inj h).symm, hhour, hminute, by rw [append_nil]⟩
    · cases h
  · rintro ⟨hour, minute, rfl, hhour, hminute, rfl⟩
    simp only [readOffset, bind_eq_bind, bind_eq_some_iff, Prod.exists,
      readField_eq_some_iff, readDigits_eq_some_iff]
    exact ⟨hour, _, ⟨hhour, rfl⟩, minute, [], ⟨hminute, (append_nil _).symm⟩, if_pos rfl⟩

/-- **The zone reads what is written.** -/
theorem readZone_eq_some_iff : readZone cs = some z ↔ z.Fits ∧ cs = z.text := by
  constructor
  · intro h
    unfold readZone at h
    split at h
    · cases h
      exact ⟨trivial, rfl⟩
    · obtain ⟨hour, minute, rfl, hhour, hminute, rfl⟩ := readOffset_eq_some_iff.mp h
      exact ⟨⟨hhour, hminute⟩, rfl⟩
    · obtain ⟨hour, minute, rfl, hhour, hminute, rfl⟩ := readOffset_eq_some_iff.mp h
      exact ⟨⟨hhour, hminute⟩, rfl⟩
    · cases h
  · rintro ⟨hfits, rfl⟩
    cases z with
    | utc => rfl
    | numeric negative hour minute =>
      cases negative with
      | true | false => exact readOffset_eq_some_iff.mpr ⟨hour, minute, rfl, hfits.1, hfits.2, rfl⟩

theorem zone_text_head (z : Zone) : ∃ c cs, z.text = c :: cs ∧ isDigit c = false ∧ c ≠ '.' := by
  cases z with
  | utc => exact ⟨'Z', [], rfl, by decide, by decide⟩
  | numeric negative hour minute =>
    cases negative with
    | true => exact ⟨'-', _, rfl, by decide, by decide⟩
    | false => exact ⟨'+', _, rfl, by decide, by decide⟩

variable {fraction : Option (List Char)}

/-- **The fraction reads what is written** before a zone. -/
theorem readFraction_zone (z : Zone)
    (h : ∀ ds, fraction = some ds → (1 ≤ ds.length ∧ ds.length ≤ 3) ∧ ∀ c ∈ ds, isDigit c = true) :
    readFraction (fractionText fraction ++ z.text) = some (fraction, z.text) := by
  obtain ⟨c, cs, htext, hdigit, hpoint⟩ := zone_text_head z
  rw [htext]
  cases fraction with
  | none =>
    show readFraction (c :: cs) = _
    unfold readFraction
    split
    · next heq =>
      cases heq
      exact absurd rfl hpoint
    · rfl
  | some ds =>
    obtain ⟨hlength, hdigits⟩ := h ds rfl
    have htake : (ds ++ c :: cs).takeWhile isDigit = ds := by
      rw [takeWhile_append_of_pos hdigits, takeWhile_cons_of_neg (by rw [hdigit]; exact Bool.false_ne_true),
        append_nil]
    have hdrop : (ds ++ c :: cs).dropWhile isDigit = c :: cs := by
      rw [dropWhile_append_of_pos hdigits, dropWhile_cons_of_neg (by rw [hdigit]; exact Bool.false_ne_true)]
    show readFraction ('.' :: (ds ++ c :: cs)) = _
    rw [readFraction, htake, hdrop]
    exact if_pos hlength

theorem readFraction_some (h : readFraction cs = some (fraction, rest)) : cs = fractionText fraction ++ rest ∧
      ∀ ds, fraction = some ds → (1 ≤ ds.length ∧ ds.length ≤ 3) ∧ ∀ c ∈ ds, isDigit c = true := by
  unfold readFraction at h
  split at h
  · next tail =>
    dsimp only at h
    split at h
    · next hlength =>
      cases Option.some.inj h
      refine ⟨?_, fun ds hds => ?_⟩
      · show '.' :: tail = '.' :: (tail.takeWhile isDigit ++ tail.dropWhile isDigit)
        rw [takeWhile_append_dropWhile]
      · cases hds
        exact ⟨hlength, fun c hc => mem_takeWhile_imp hc⟩
    · cases h
  · cases Option.some.inj h
    exact ⟨rfl, nofun⟩

variable {d : OffsetDateTime}

/-- **What matches is exactly what is written.** -/
theorem matchOffsetInstant_eq_some_iff : matchOffsetInstant cs = some d ↔ d.Fits ∧ cs = d.text := by
  constructor
  · intro h
    simp only [matchOffsetInstant, bind_eq_bind, bind_eq_some_iff, Prod.exists,
      readField_eq_some_iff, readDigits_eq_some_iff, readZone_eq_some_iff] at h
    obtain ⟨year, r₁, ⟨hyear, rfl⟩, month, r₂, ⟨hmonth, rfl⟩, day, r₃, ⟨hday, rfl⟩, hour, r₄,
      ⟨hhour, rfl⟩, minute, r₅, ⟨hminute, rfl⟩, second, r₆, ⟨hsecond, rfl⟩, fraction, r₇, hfraction,
      zone, ⟨hzone, rfl⟩, h⟩ := h
    cases h
    obtain ⟨rfl, hdigits⟩ := readFraction_some hfraction
    exact ⟨⟨hyear, hmonth, hday, hhour, hminute, hsecond, hdigits, hzone⟩, rfl⟩
  · rintro ⟨⟨hyear, hmonth, hday, hhour, hminute, hsecond, hdigits, hzone⟩, rfl⟩
    simp only [matchOffsetInstant, bind_eq_bind, bind_eq_some_iff, Prod.exists,
      readField_eq_some_iff, readDigits_eq_some_iff, readZone_eq_some_iff]
    exact ⟨_, _, ⟨hyear, rfl⟩, _, _, ⟨hmonth, rfl⟩, _, _, ⟨hday, rfl⟩, _, _, ⟨hhour, rfl⟩, _, _,
      ⟨hminute, rfl⟩, _, _, ⟨hsecond, rfl⟩, _, _, readFraction_zone d.zone hdigits, _, ⟨hzone, rfl⟩, rfl⟩

/-! ## Instants -/

def Zone.offset : Zone → Int
  | utc => 0
  | numeric negative hour minute => (if negative then -1 else 1) * ((hour * 60 + minute) * 60000)

/-- The milliseconds of a fraction: its digits, as so many thousandths. -/
def fractionMs : Option (List Char) → Nat
  | none => 0
  | some ds => digitsVal ds * 10 ^ (3 - ds.length)

def OffsetDateTime.fields (d : OffsetDateTime) : Fields where
  year := d.year
  month := d.month
  day := d.day
  hour := d.hour
  minute := d.minute
  second := d.second
  millisecond := fractionMs d.fraction

def OffsetDateTime.instant (d : OffsetDateTime) : Int := instantOf d.fields - d.zone.offset

def Zone.Real : Zone → Prop
  | utc => True
  | numeric _ hour minute => hour < 24 ∧ minute < 60

/-- A real calendar date and time of a four-digit year, with a real offset. -/
structure OffsetDateTime.Real (d : OffsetDateTime) : Prop where
  fits : d.Fits
  fields : d.fields.Real
  zone : d.zone.Real

def OffsetDateTime.Admitted (d : OffsetDateTime) : Prop := d.year ≠ 0 ∧ d.zone ≠ .numeric true 0 0

theorem milliseconds_eq (h : ∀ ds, fraction = some ds → (1 ≤ ds.length ∧ ds.length ≤ 3) ∧ ∀ c ∈ ds, isDigit c = true) :
    milliseconds fraction = fractionMs fraction := by
  cases fraction with
  | none => rfl
  | some ds =>
    have hzeros : ∀ n, digitsVal (ds ++ List.replicate n '0') = digitsVal ds * 10 ^ n := by
      intro n
      induction n with
      | zero => simp
      | succ n ih =>
        rw [replicate_succ', ← append_assoc, digitsVal_snoc, ih, pow_succ]
        show _ + 0 = _
        ring
    exact hzeros _

theorem parts_eq (h : d.Fits) : d.parts = d.fields := by
  rw [OffsetDateTime.parts, OffsetDateTime.fields, milliseconds_eq h.fraction]

variable {f : Fields}

theorem yearOf_instantOf (h : f.Real) : yearOf (instantOf f) = f.year := by
  obtain ⟨hpos, hlt⟩ := timeOfDay_range h
  have hdiv := (@instant_split (dayOfCivil ⟨f.year, f.month, f.day⟩) _ hpos hlt).1
  show (civilOfDay (instantOf f / msPerDay)).year = f.year
  rw [show instantOf f = dayOfCivil ⟨f.year, f.month, f.day⟩ * msPerDay + timeOfDay f from rfl, hdiv,
    civilOfDay_dayOfCivil h.date]

theorem instantOf_inRange (h : f.Real) (hlow : f.year ≠ 0) (hhigh : f.year < 10000) : InRange (instantOf f) := by
  rw [inRange_iff_year, yearOf_instantOf h]
  omega

theorem calendarEpoch_fields (hlow : f.year ≠ 0) (hhigh : f.year < 10000) {epoch : Int} :
    calendarEpoch f = .ok epoch ↔ f.Real ∧ epoch = instantOf f := by
  rw [calendarEpoch_eq_ok_iff]
  constructor
  · rintro ⟨hreal, heq, -⟩
    exact ⟨hreal, heq⟩
  · rintro ⟨hreal, rfl⟩
    have hrange := instantOf_inRange hreal hlow hhigh
    simp only [InRange, minFourDigitYearMs, maxFourDigitYearMs] at hrange
    exact ⟨hreal, rfl, by omega⟩

/-- **What is accepted, and as which instant.** -/
theorem parseOffsetInstant_iff {value : String} {epoch : Int} : parseOffsetInstant value = .ok epoch ↔
      ∃ d : OffsetDateTime, value.toList = d.text ∧ d.Real ∧ d.Admitted ∧ epoch = d.instant := by
  constructor
  · intro h
    unfold parseOffsetInstant at h
    split at h
    · cases h
    · next d hmatch =>
      obtain ⟨hfits, htext⟩ := matchOffsetInstant_eq_some_iff.mp hmatch
      rw [parts_eq hfits] at h
      dsimp only at h
      split at h
      · cases h
      next hguard =>
      simp only [not_or, gt_iff_lt, not_lt] at hguard
      simp only [bind_eq_ok_iff] at h
      obtain ⟨localEpoch, hepoch, h⟩ := h
      obtain ⟨hreal, rfl⟩ := (calendarEpoch_fields hguard.1 hfits.year).mp hepoch
      refine ⟨d, htext, ?_⟩
      cases hzone : d.zone with
      | utc =>
        rw [hzone] at h
        cases h
        refine ⟨⟨hfits, hreal, by rw [hzone]; trivial⟩, ⟨hguard.1, by rw [hzone]; exact Zone.noConfusion⟩, ?_⟩
        rw [OffsetDateTime.instant, hzone]
        exact (Int.sub_zero _).symm
      | numeric negative hour minute =>
        rw [hzone] at h
        dsimp only at h
        split at h
        · cases h
        · next hoffset =>
          cases h
          simp only [not_or, gt_iff_lt, not_lt] at hoffset
          refine ⟨⟨hfits, hreal, ?_⟩, ⟨hguard.1, ?_⟩, ?_⟩
          · rw [hzone]
            exact ⟨by omega, by omega⟩
          · rw [hzone]
            intro heq
            obtain ⟨rfl, rfl, rfl⟩ := Zone.numeric.inj heq
            exact hoffset.2.2 ⟨rfl, rfl, rfl⟩
          · rw [OffsetDateTime.instant, hzone, Zone.offset, Int.mul_assoc]
  · rintro ⟨d, htext, ⟨hfits, hreal, hzone⟩, ⟨hyear, hadmitted⟩, rfl⟩
    have hmatch := matchOffsetInstant_eq_some_iff.mpr ⟨hfits, htext⟩
    have hepoch := (@calendarEpoch_fields d.fields hyear hfits.year _).mpr ⟨hreal, rfl⟩
    have hguard : ¬ (d.fields.year = 0 ∨ d.fields.hour > 23 ∨ d.fields.minute > 59 ∨ d.fields.second > 59) := by
      have hhour := hreal.hour
      have hminute := hreal.minute
      have hsecond := hreal.second
      have hnonzero : d.fields.year ≠ 0 := hyear
      omega
    rw [parseOffsetInstant, hmatch]
    dsimp only
    rw [parts_eq hfits, if_neg hguard, hepoch, ok_bind, OffsetDateTime.instant]
    cases hz : d.zone with
    | utc => exact congrArg Except.ok (Int.sub_zero _).symm
    | numeric negative hour minute =>
      rw [hz] at hzone hadmitted
      have hoffset : ¬ (hour > 23 ∨ minute > 59 ∨ (negative = true ∧ hour = 0 ∧ minute = 0)) := by
        rintro (hhour | hminute | ⟨rfl, rfl, rfl⟩)
        · have := hzone.1
          omega
        · have := hzone.2
          omega
        · exact hadmitted rfl
      dsimp only
      rw [if_neg hoffset, Zone.offset, Int.mul_assoc]
      rfl

/-! ## The rendering of an instant -/

def rendered (epoch : Int) : OffsetDateTime :=
  let f := isoFields epoch
  { year := f.year, month := f.month, day := f.day, hour := f.hour, minute := f.minute, second := f.second
    fraction := some (fixedDigits 3 f.millisecond), zone := .utc }

/-- **An instant's own text reads back as the instant.** -/
theorem parseOffsetInstant_rendered {epoch : Int} (h : InRange epoch) :
    parseOffsetInstant (toISOString epoch) = .ok epoch := by
  obtain ⟨hlow, hhigh⟩ := inRange_iff_year.mp h
  have hearliest : 0 ≤ yearOf epoch := by omega
  have hyear := isoFields_year hearliest
  have hreal := isoFields_real hearliest
  have hfits := hreal.fits (by omega)
  have hms : fractionMs (some (fixedDigits 3 (isoFields epoch).millisecond)) = (isoFields epoch).millisecond := by
    rw [fractionMs, fixedDigits_length, digitsVal_fixedDigits hfits.millisecond, Nat.sub_self, pow_zero, Nat.mul_one]
  have hfields : (rendered epoch).fields = isoFields epoch := by
    rw [OffsetDateTime.fields]
    show Fields.mk _ _ _ _ _ _ (fractionMs (some (fixedDigits 3 (isoFields epoch).millisecond))) = _
    rw [hms]
    rfl
  rw [parseOffsetInstant_iff]
  refine ⟨rendered epoch, ?_, ⟨?_, by rw [hfields]; exact hreal, trivial⟩, ⟨?_, Zone.noConfusion⟩, ?_⟩
  · rw [toList_toISOString, isoText, if_pos ⟨hearliest, hhigh⟩]
    rfl
  · refine ⟨hfits.year, hfits.month, hfits.day, hfits.hour, hfits.minute, hfits.second, ?_, trivial⟩
    intro ds hds
    cases hds
    rw [fixedDigits_length]
    exact ⟨by decide, fixedDigits_isDigit 3 _⟩
  · show (isoFields epoch).year ≠ 0
    omega
  · rw [OffsetDateTime.instant, hfields, instantOf_isoFields hearliest]
    exact (Int.sub_zero _).symm

/-- **Absolute times.**  A text is accepted exactly when it is that of a real date and time with an offset, the year
0000 and `-00:00` aside, and the epoch is its instant; and the rendering of any instant in range parses to it. -/
theorem parseOffsetInstant_exact : (∀ (value : String) (epoch : Int), parseOffsetInstant value = .ok epoch ↔
      ∃ d : OffsetDateTime, value.toList = d.text ∧ d.Real ∧ d.Admitted ∧ epoch = d.instant) ∧
    ∀ epoch, minFourDigitYearMs ≤ epoch ∧ epoch ≤ maxFourDigitYearMs →
      parseOffsetInstant (toISOString epoch) = .ok epoch :=
  ⟨fun _ _ => parseOffsetInstant_iff, fun _ h => parseOffsetInstant_rendered h⟩

/-- The epoch itself, rendered and parsed. -/
theorem parseOffsetInstant_epoch : parseOffsetInstant "1970-01-01T00:00:00.000Z" = .ok 0 := by
  have h := parseOffsetInstant_exact.2 0 ⟨by decide, by decide⟩
  rwa [show toISOString 0 = "1970-01-01T00:00:00.000Z" by decide +kernel] at h

/-- The first day of the year 0000 is a real date, and is refused. -/
theorem not_parseOffsetInstant_yearZero : ¬ ∀ (value : String), (∃ epoch, parseOffsetInstant value = .ok epoch) ↔
      ∃ d : OffsetDateTime, value.toList = d.text ∧ d.Real := by
  intro h
  obtain ⟨epoch, hepoch⟩ := (h "0000-01-01T00:00:00Z").mpr
    ⟨⟨0, 1, 1, 0, 0, 0, none, .utc⟩, by decide, ⟨⟨by decide, by decide, by decide, by decide, by decide,
      by decide, nofun, trivial⟩, ⟨⟨by decide, by decide, by decide, by decide⟩, by decide, by decide,
      by decide, by decide⟩, trivial⟩⟩
  have hrefused : parseOffsetInstant "0000-01-01T00:00:00Z" = .error ⟨.invalidRule,
      "The at value must be a real ISO calendar date and time."⟩ := by decide +kernel
  rw [hrefused] at hepoch
  cases hepoch

end CocoHarness.Schedule
