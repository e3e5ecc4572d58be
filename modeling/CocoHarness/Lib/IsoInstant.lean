/-
# CocoHarness.Lib.IsoInstant — instants as RFC 3339 UTC texts.

The text is seven fields of fixed width, each with the character that closes it, so reading and writing are one field
at a time: what reads is exactly what is written (`readFields_eq_some_iff`).  On instants of four-digit years the
text and the instant determine each other (`instantOf_isoFields`).
-/
import CocoHarness.Lib.CivilDate
import CocoHarness.Lib.Numeral

namespace CocoHarness.Lib.IsoInstant

open Numeral List

/-! ## Fixed-width numbers -/

def fixedDigits : Nat → Nat → List Char
  | 0, _ => []
  | width + 1, n => fixedDigits width (n / 10) ++ [digitChar (n % 10)]

@[simp] theorem fixedDigits_length (width n : Nat) : (fixedDigits width n).length = width := by
  induction width generalizing n with
  | zero => rfl
  | succ width ih => rw [fixedDigits, length_append, ih, length_singleton]

theorem fixedDigits_isDigit (width n : Nat) : ∀ c ∈ fixedDigits width n, isDigit c = true := by
  induction width generalizing n with
  | zero => exact fun c hc => absurd hc not_mem_nil
  | succ width ih =>
    intro c hc
    rcases mem_append.mp hc with hc | hc
    · exact ih (n / 10) c hc
    · rw [mem_singleton.mp hc]
      exact isDigit_digitChar (Nat.mod_lt n (by omega))

theorem digitsVal_snoc (cs : List Char) (c : Char) : digitsVal (cs ++ [c]) = digitsVal cs * 10 + digitVal c := by
  rw [digitsVal_append]
  simp [digitsVal]

variable {width n : Nat}

theorem digitsVal_fixedDigits (h : n < 10 ^ width) : digitsVal (fixedDigits width n) = n := by
  induction width generalizing n with
  | zero =>
    rw [pow_zero, Nat.lt_one_iff] at h
    subst h
    rfl
  | succ width ih =>
    rw [fixedDigits, digitsVal_snoc, ih (by rw [pow_succ] at h; omega), digitVal_digitChar (Nat.mod_lt n (by omega))]
    omega

variable {c : Char}

theorem digitChar_digitVal (h : isDigit c = true) : digitChar (digitVal c) = c := by
  rw [isDigit, decide_eq_true_eq] at h
  rw [digitChar, digitVal, Nat.add_sub_cancel' h.1, Char.ofNat_toNat]

theorem digitVal_lt (h : isDigit c = true) : digitVal c < 10 := by
  rw [isDigit, decide_eq_true_eq] at h
  rw [digitVal]
  omega

variable {cs : List Char}

theorem fixedDigits_digitsVal (h : ∀ c ∈ cs, isDigit c = true) :
    fixedDigits cs.length (digitsVal cs) = cs ∧ digitsVal cs < 10 ^ cs.length := by
  induction cs using List.reverseRecOn with
  | nil => exact ⟨rfl, by decide⟩
  | append_singleton cs c ih =>
    obtain ⟨htext, hlt⟩ := ih fun d hd => h d (mem_append_left _ hd)
    have hdigit := h c (by simp)
    have hc := digitVal_lt hdigit
    rw [digitsVal_snoc, length_append, length_singleton, fixedDigits, pow_succ]
    have hdiv : (digitsVal cs * 10 + digitVal c) / 10 = digitsVal cs := by omega
    have hmod : (digitsVal cs * 10 + digitVal c) % 10 = digitVal c := by omega
    rw [hdiv, hmod, htext, digitChar_digitVal hdigit]
    exact ⟨rfl, by omega⟩

/-! ## Fields -/

/-- Read a number of `width` digits and the character that closes it. -/
def readField (width : Nat) (close : Char) (cs : List Char) : Option (Nat × List Char) :=
  let ds := cs.take width
  if ds.length = width ∧ ds.all isDigit then
    match cs.drop width with
    | [] => none
    | c :: rest => if c = close then some (digitsVal ds, rest) else none
  else none

/-- **One field**: what reads is the fixed-width text of a number that fits, closed. -/
theorem readField_eq_some_iff {close : Char} {rest : List Char} : readField width close cs = some (n, rest)
      ↔ n < 10 ^ width ∧ cs = fixedDigits width n ++ close :: rest := by
  constructor
  · intro h
    rw [readField] at h
    split at h
    · next hds =>
      obtain ⟨hlength, hall⟩ := hds
      split at h
      · cases h
      · next c tail htail =>
        split at h
        · next hclose =>
          cases Option.some.inj h
          obtain ⟨htext, hlt⟩ := fixedDigits_digitsVal (all_eq_true.mp hall)
          rw [hlength] at htext hlt
          refine ⟨hlt, ?_⟩
          rw [htext, ← hclose, ← htail, take_append_drop]
        · cases h
    · cases h
  · rintro ⟨hlt, rfl⟩
    have htake : (fixedDigits width n ++ close :: rest).take width = fixedDigits width n :=
      take_left' (fixedDigits_length width n)
    have hdrop : (fixedDigits width n ++ close :: rest).drop width = close :: rest :=
      drop_left' (fixedDigits_length width n)
    rw [readField, htake, hdrop, if_pos ⟨fixedDigits_length width n,
      all_eq_true.mpr (fixedDigits_isDigit width n)⟩, digitsVal_fixedDigits hlt]
    simp

structure Fields where
  year : Nat
  month : Nat
  day : Nat
  hour : Nat
  minute : Nat
  second : Nat
  millisecond : Nat
  deriving DecidableEq

structure Fields.Fits (f : Fields) : Prop where
  year : f.year < 10000
  month : f.month < 100
  day : f.day < 100
  hour : f.hour < 100
  minute : f.minute < 100
  second : f.second < 100
  millisecond : f.millisecond < 1000

def tailText (f : Fields) : List Char :=
  '-' :: (fixedDigits 2 f.month ++ '-' :: (fixedDigits 2 f.day ++ 'T' :: (fixedDigits 2 f.hour
    ++ ':' :: (fixedDigits 2 f.minute ++ ':' :: (fixedDigits 2 f.second
    ++ '.' :: (fixedDigits 3 f.millisecond ++ ['Z']))))))

def fieldsText (f : Fields) : List Char := fixedDigits 4 f.year ++ tailText f

def readFields (cs : List Char) : Option Fields := do
  let (year, cs) ← readField 4 '-' cs
  let (month, cs) ← readField 2 '-' cs
  let (day, cs) ← readField 2 'T' cs
  let (hour, cs) ← readField 2 ':' cs
  let (minute, cs) ← readField 2 ':' cs
  let (second, cs) ← readField 2 '.' cs
  let (millisecond, cs) ← readField 3 'Z' cs
  if cs = [] then some { year, month, day, hour, minute, second, millisecond } else none

variable {f : Fields}

/-- **What reads is exactly what is written.** -/
theorem readFields_eq_some_iff : readFields cs = some f ↔ f.Fits ∧ cs = fieldsText f := by
  constructor
  · intro h
    simp only [readFields, Option.bind_eq_bind, Option.bind_eq_some_iff, Prod.exists, readField_eq_some_iff] at h
    obtain ⟨year, r₁, ⟨hyear, rfl⟩, month, r₂, ⟨hmonth, rfl⟩, day, r₃, ⟨hday, rfl⟩, hour, r₄,
      ⟨hhour, rfl⟩, minute, r₅, ⟨hminute, rfl⟩, second, r₆, ⟨hsecond, rfl⟩, millisecond, r₇,
      ⟨hmillisecond, rfl⟩, h⟩ := h
    split at h
    · next hend =>
      subst hend
      cases h
      exact ⟨⟨hyear, hmonth, hday, hhour, hminute, hsecond, hmillisecond⟩, rfl⟩
    · cases h
  · rintro ⟨⟨hyear, hmonth, hday, hhour, hminute, hsecond, hmillisecond⟩, rfl⟩
    simp only [readFields, Option.bind_eq_bind, Option.bind_eq_some_iff, Prod.exists, readField_eq_some_iff]
    exact ⟨_, _, ⟨hyear, rfl⟩, _, _, ⟨hmonth, rfl⟩, _, _, ⟨hday, rfl⟩, _, _, ⟨hhour, rfl⟩, _, _,
      ⟨hminute, rfl⟩, _, _, ⟨hsecond, rfl⟩, _, _, ⟨hmillisecond, rfl⟩, if_pos rfl⟩

/-! ## Instants -/

def msPerDay : Int := 86400000

def timeOfDay (f : Fields) : Int := ((f.hour * 60 + f.minute) * 60 + f.second) * 1000 + f.millisecond

/-- The instant of the fields; numbers past their range count into the next larger one. -/
def instantOf (f : Fields) : Int := dayOfCivil ⟨f.year, f.month, f.day⟩ * msPerDay + timeOfDay f

def yearOf (instant : Int) : Int := yearOfDay (instant / msPerDay)

/-- The fields of an instant; the year is meant for years from 0 on. -/
def isoFields (instant : Int) : Fields :=
  let date := civilOfDay (instant / msPerDay)
  let ms := (instant % msPerDay).toNat
  { year := date.year.toNat, month := date.month, day := date.day
    hour := ms / 3600000, minute := ms / 60000 % 60, second := ms / 1000 % 60
    millisecond := ms % 1000 }

/-- `toISOString`: years outside 0 to 9999 have a sign and six digits. -/
def isoText (instant : Int) : List Char :=
  let year := yearOf instant
  if 0 ≤ year ∧ year ≤ 9999 then fieldsText (isoFields instant)
  else (if year < 0 then '-' else '+') :: (fixedDigits 6 year.natAbs ++ tailText (isoFields instant))

structure Fields.Real (f : Fields) : Prop where
  date : CivilDate.Real ⟨f.year, f.month, f.day⟩
  hour : f.hour < 24
  minute : f.minute < 60
  second : f.second < 60
  millisecond : f.millisecond < 1000

variable {instant : Int}

theorem isoFields_year (h : 0 ≤ yearOf instant) : ((isoFields instant).year : Int) = yearOf instant :=
  Int.toNat_of_nonneg h

theorem isoFields_date (h : 0 ≤ yearOf instant) :
    (⟨(isoFields instant).year, (isoFields instant).month, (isoFields instant).day⟩ : CivilDate)
      = civilOfDay (instant / msPerDay) := by
  rw [isoFields_year h]
  rfl

theorem isoFields_real (h : 0 ≤ yearOf instant) : (isoFields instant).Real := by
  have hms : (instant % msPerDay).toNat < 86400000 := by
    simp only [msPerDay]
    omega
  refine ⟨?_, ?_, ?_, ?_, ?_⟩
  · rw [isoFields_date h]
    exact civilOfDay_real _
  · simp only [isoFields]
    omega
  · exact Nat.mod_lt _ (by omega)
  · exact Nat.mod_lt _ (by omega)
  · exact Nat.mod_lt _ (by omega)

/-- **The fields of an instant name it.** -/
theorem instantOf_isoFields (h : 0 ≤ yearOf instant) : instantOf (isoFields instant) = instant := by
  rw [instantOf, isoFields_date h, dayOfCivil_civilOfDay]
  simp only [timeOfDay, isoFields, msPerDay]
  omega

theorem daysInMonth_le : ∀ (leap : Bool) (month : Fin 13), daysInMonth leap month ≤ 31 := by decide

theorem Fields.Real.fits (h : f.Real) (hyear : f.year < 10000) : f.Fits := by
  obtain ⟨⟨-, hmonth, -, hday⟩, hhour, hminute, hsecond, hmillisecond⟩ := h
  dsimp only at hmonth hday
  have hlength := daysInMonth_le (isLeapYear f.year) ⟨f.month, by omega⟩
  dsimp only at hlength
  exact ⟨hyear, by omega, by omega, by omega, by omega, by omega, hmillisecond⟩

theorem readFields_isoText (h : 0 ≤ yearOf instant ∧ yearOf instant ≤ 9999) :
    readFields (isoText instant) = some (isoFields instant) := by
  rw [readFields_eq_some_iff, isoText, if_pos h]
  have hyear := isoFields_year h.1
  exact ⟨(isoFields_real h.1).fits (by omega), rfl⟩

theorem readFields_cons_of_not_digit (h : isDigit c = false) (cs : List Char) : readFields (c :: cs) = none := by
  rw [Option.eq_none_iff_forall_ne_some]
  intro f hf
  obtain ⟨-, htext⟩ := readFields_eq_some_iff.mp hf
  have hdigits := fixedDigits_isDigit 4 f.year
  have hlength := fixedDigits_length 4 f.year
  rw [fieldsText] at htext
  cases hds : fixedDigits 4 f.year with
  | nil =>
    rw [hds] at hlength
    cases hlength
  | cons d ds =>
    rw [hds, cons_append] at htext
    cases htext
    have hdigit := hdigits c (by rw [hds]; exact mem_cons_self)
    rw [h] at hdigit
    cases hdigit

/-- **Only the text of a year from 0 to 9999 reads**, and it reads as the instant's fields. -/
theorem readFields_isoText_eq_some (h : readFields (isoText instant) = some f) :
    (0 ≤ yearOf instant ∧ yearOf instant ≤ 9999) ∧ f = isoFields instant := by
  by_cases hyear : 0 ≤ yearOf instant ∧ yearOf instant ≤ 9999
  · rw [readFields_isoText hyear] at h
    exact ⟨hyear, (Option.some.inj h).symm⟩
  · rw [isoText, if_neg hyear, readFields_cons_of_not_digit (by split <;> decide)] at h
    cases h

end CocoHarness.Lib.IsoInstant
