/-
# CocoHarness.Schedule.Fold — what decodes, what the fold keeps, and exact fixed-rate arithmetic.

A canonical text and the instant it names determine each other, so a record's target can be spoken of as a number
(`dateParse_toISOString`, `decodeInstant_ok_iff`).  The fold is one step an event, and its active records are valid
and listed under their ids (`FoldState.Inv`).  `resolveEveryOccurrence_ok_iff` is the one fact about the double
arithmetic of a fixed-rate decision: where it does not throw, it is the integer arithmetic it is meant to be.
-/
import CocoHarness.Lib.Fallible
import CocoHarness.Schedule.Domain
import Mathlib.Data.List.DropRight

namespace CocoHarness.Schedule

open Lib Lib.SafeInteger Lib.IsoInstant SessionLog List Option Except InsertionMap

/-! ## Instants -/

def InRange (epoch : Int) : Prop := minFourDigitYearMs ≤ epoch ∧ epoch ≤ maxFourDigitYearMs

instance (epoch : Int) : Decidable (InRange epoch) := inferInstanceAs (Decidable (_ ∧ _))

variable {epoch : Int}

theorem InRange.isSafe (h : InRange epoch) : IsSafe epoch := by
  simp only [InRange, minFourDigitYearMs, maxFourDigitYearMs] at h
  simp only [IsSafe]
  omega

theorem inRange_iff_year : InRange epoch ↔ 1 ≤ yearOf epoch ∧ yearOf epoch ≤ 9999 := by
  have hfirst : dayFromYear 1 = -719162 := by decide
  have hlast : dayFromYear (9999 + 1) = 2932897 := by decide
  have hms : msPerDay = 86400000 := rfl
  constructor
  · intro h
    simp only [InRange, minFourDigitYearMs, maxFourDigitYearMs] at h
    exact yearOfDay_mem (by rw [hfirst, hms]; omega) (by rw [hlast, hms]; omega)
  · rintro ⟨hlow, hhigh⟩
    obtain ⟨hbegun, hnext⟩ := yearOfDay_bounds (epoch / msPerDay)
    have hafter := dayFromYear_mono hlow
    have hbefore := dayFromYear_mono (show yearOf epoch + 1 ≤ 9999 + 1 by omega)
    rw [yearOf] at hafter hbefore
    rw [hms] at hbegun hnext hafter hbefore
    simp only [InRange, minFourDigitYearMs, maxFourDigitYearMs]
    omega

theorem toList_toISOString (epoch : Int) : (toISOString epoch).toList = isoText epoch := String.toList_ofList

theorem utcInstant_toISOString (h : InRange epoch) : utcInstant? (toISOString epoch) = some (isoFields epoch) := by
  obtain ⟨hlow, hhigh⟩ := inRange_iff_year.mp h
  have hearliest : 0 ≤ yearOf epoch := by omega
  have hyear := isoFields_year hearliest
  obtain ⟨⟨hmonth, hmonth', hday, hday'⟩, hhour, hminute, hsecond, -⟩ := isoFields_real hearliest
  dsimp only at hmonth hmonth' hday hday'
  have hlength := daysInMonth_le (isLeapYear (isoFields epoch).year)
    ⟨(isoFields epoch).month, by omega⟩
  dsimp only at hlength
  rw [utcInstant?, toList_toISOString, readFields_isoText ⟨by omega, hhigh⟩, filter_some,
    if_pos (decide_eq_true ?_)]
  omega

/-- **The text of an instant in range is read back.** -/
theorem dateParse_toISOString (h : InRange epoch) : dateParse (toISOString epoch) = some epoch := by
  rw [dateParse, utcInstant_toISOString h, map_some,
    instantOf_isoFields (by have := inRange_iff_year.mp h; omega)]

theorem toISOString_injective {a b : Int} (ha : InRange a) (hb : InRange b)
    (h : toISOString a = toISOString b) : a = b := by
  have := congrArg dateParse h
  rw [dateParse_toISOString ha, dateParse_toISOString hb] at this
  exact Option.some.inj this

variable {text : String}

/-- A text that reads and is written again unchanged is the text of an instant in range. -/
theorem inRange_of_canonical {f : Fields} (h : utcInstant? text = some f)
    (hround : toISOString (instantOf f) = text) : InRange (instantOf f) := by
  rw [utcInstant?, filter_eq_some_iff] at h
  obtain ⟨hread, hranges⟩ := h
  rw [decide_eq_true_eq] at hranges
  rw [← hround, toList_toISOString] at hread
  obtain ⟨hyear, hf⟩ := readFields_isoText_eq_some hread
  have hyear' := isoFields_year hyear.1
  rw [← hf] at hyear'
  exact inRange_iff_year.mpr ⟨by omega, hyear.2⟩

variable {value : Option Json}

/-- **Exactly the texts of instants in range decode**, each as itself. -/
theorem decodeInstant_ok_iff : decodeInstant value = .ok text
      ↔ value = some (.str text) ∧ ∃ epoch, InRange epoch ∧ text = toISOString epoch := by
  constructor
  · intro h
    unfold decodeInstant at h
    split at h
    · next written =>
      split at h
      · cases h
      · next f hread =>
        split at h
        · cases h
        · next hround =>
          cases h
          have hround := not_not.mp hround
          exact ⟨rfl, instantOf f, inRange_of_canonical hread hround, hround.symm⟩
    · cases h
  · rintro ⟨rfl, epoch, hrange, rfl⟩
    have hyear := inRange_iff_year.mp hrange
    simp only [decodeInstant, utcInstant_toISOString hrange,
      instantOf_isoFields (show 0 ≤ yearOf epoch by omega), ne_eq, not_true_eq_false, if_false]
    rfl

/-! ## Texts -/

theorem trim_trim (s : String) : trim (trim s) = trim s := by
  have hlist : ∀ l : List Char, (((l.dropWhile isSpace).reverse.dropWhile isSpace).reverse)
      = (l.dropWhile isSpace).rdropWhile isSpace := fun _ => rfl
  have hkeep : ∀ l : List Char, ((l.dropWhile isSpace).rdropWhile isSpace).dropWhile isSpace
      = (l.dropWhile isSpace).rdropWhile isSpace := by
    intro l
    rw [dropWhile_eq_self_iff]
    intro hlength
    rw [( rdropWhile_prefix isSpace (l.dropWhile isSpace)).getElem hlength]
    exact dropWhile_get_zero_not isSpace l _
  rw [trim, trim, String.toList_ofList, hlist, hlist, hkeep, rdropWhile_idempotent]

def Trimmed (s : String) : Prop := s ≠ "" ∧ trim s = s

instance (s : String) : Decidable (Trimmed s) := inferInstanceAs (Decidable (_ ∧ _))

theorem trimmed?_eq_some_iff {s : String} : trimmed? value = some s ↔ value = some (.str s) ∧ Trimmed s := by
  simp only [trimmed?, filter_eq_some_iff, bind_eq_some_iff, Json.str?_eq_some_iff,
    decide_eq_true_eq, exists_eq_right, Trimmed]

/-! ## What decodes -/

variable {message : String}

theorem require_ok_iff {check : Bool} {u : Unit} : require check message = .ok u ↔ check = true := by
  cases check <;> simp [require]

theorem requireSome_ok_iff {α : Type} {value : Option α} {a : α} :
    requireSome value message = .ok a ↔ value = some a := by
  cases value <;> simp [requireSome]

theorem decodeId_ok_iff {id : String} : decodeId value = .ok id ↔ value = some (.str id) ∧ Trimmed id := by
  rw [decodeId, requireSome_ok_iff, trimmed?_eq_some_iff]

theorem decodePrompt_ok_iff {kind : String} {prompt : String} :
    decodePrompt kind value = .ok prompt ↔ value = some (.str prompt) ∧ Trimmed prompt := by
  rw [decodePrompt, requireSome_ok_iff, trimmed?_eq_some_iff]

def Canonical (text : String) : Prop := ∃ epoch, InRange epoch ∧ text = toISOString epoch

namespace ScheduleRecord

def SecondsOk : ScheduleRecord → Prop
  | .oneShot (.after r) => IsSafe r.afterSeconds ∧ 0 < r.afterSeconds
  | .oneShot (.at _) => True
  | .every r => IsSafe r.everySeconds ∧ minEveryIntervalSeconds ≤ r.everySeconds ∧ IsSafe (r.everySeconds * 1000)

structure Valid (r : ScheduleRecord) : Prop where
  id : Trimmed r.id
  prompt : Trimmed r.prompt
  target : Canonical r.scheduledAt
  seconds : r.SecondsOk

end ScheduleRecord

variable {value : Option Json}

theorem seconds_field_iff {check : Int → Bool} {n : Int} : (value.bind safeInt?).filter check = some n
      ↔ value = some (.num (.int n)) ∧ IsSafe n ∧ check n = true := by
  simp only [filter_eq_some_iff, bind_eq_some_iff, SessionEvent.safeInt?_eq_some_iff,
    SessionEvent.intField]
  constructor
  · rintro ⟨⟨v, hv, rfl, hsafe⟩, hcheck⟩
    exact ⟨hv, hsafe, hcheck⟩
  · rintro ⟨hv, hsafe, hcheck⟩
    exact ⟨⟨_, hv, rfl, hsafe⟩, hcheck⟩

variable {r : ScheduleRecord}

/-- **What decodes as a record is valid.** -/
theorem decodeScheduleRecord_valid (h : decodeScheduleRecord value = .ok r) : r.Valid := by
  unfold decodeScheduleRecord at h
  split at h
  · next fields =>
    split at h
    · obtain ⟨record, hrecord, hr⟩ := bind_eq_ok_iff.mp h
      cases hr
      simp only [decodeAfterRecord, bind_eq_ok_iff, decodePrompt_ok_iff, requireSome_ok_iff,
        decodeId_ok_iff, decodeInstant_ok_iff, seconds_field_iff, pure_eq_ok, ok.injEq,
        decide_eq_true_eq] at hrecord
      obtain ⟨-, -, prompt, ⟨-, hprompt⟩, seconds, ⟨-, hsafe, hpos⟩, id, ⟨-, hid⟩, text, ⟨-, htext⟩, rfl⟩ := hrecord
      exact ⟨hid, hprompt, htext, hsafe, hpos⟩
    · obtain ⟨record, hrecord, hr⟩ := bind_eq_ok_iff.mp h
      cases hr
      simp only [decodeAtRecord, bind_eq_ok_iff, decodePrompt_ok_iff, decodeId_ok_iff,
        decodeInstant_ok_iff, pure_eq_ok, ok.injEq] at hrecord
      obtain ⟨-, -, prompt, ⟨-, hprompt⟩, id, ⟨-, hid⟩, text, ⟨-, htext⟩, rfl⟩ := hrecord
      exact ⟨hid, hprompt, htext, trivial⟩
    · obtain ⟨record, hrecord, hr⟩ := bind_eq_ok_iff.mp h
      cases hr
      simp only [decodeEveryRecord, bind_eq_ok_iff, decodePrompt_ok_iff, requireSome_ok_iff,
        decodeId_ok_iff, decodeInstant_ok_iff, seconds_field_iff, pure_eq_ok, ok.injEq,
        decide_eq_true_eq, isSafe_fmul_iff] at hrecord
      obtain ⟨-, -, prompt, ⟨-, hprompt⟩, seconds, ⟨-, hsafe, hleast, hinterval⟩, id, ⟨-, hid⟩, text,
        ⟨-, htext⟩, rfl⟩ := hrecord
      exact ⟨hid, hprompt, htext, hsafe, hleast, hinterval⟩
    · cases h
  · cases h

/-- **A valid record is decoded back** from its JSON. -/
theorem decodeScheduleRecord_toJson (h : r.Valid) : decodeScheduleRecord (some r.toJson) = .ok r := by
  obtain ⟨hid, hprompt, htarget, hseconds⟩ := h
  match r with
  | .oneShot (.after r) =>
    obtain ⟨hsafe, hpos⟩ := hseconds
    have hrecord : decodeAfterRecord [("id", .str r.id), ("kind", .str "after"),
        ("prompt", .str r.prompt), ("afterSeconds", .num (.int r.afterSeconds)),
        ("scheduledAt", .str r.scheduledAt)] = .ok r := by
      simp only [decodeAfterRecord, bind_eq_ok_iff, require_ok_iff, decodePrompt_ok_iff,
        requireSome_ok_iff, decodeId_ok_iff, decodeInstant_ok_iff, seconds_field_iff, pure_eq_ok,
        ok.injEq, decide_eq_true_eq]
      exact ⟨(), rfl, r.prompt, ⟨rfl, hprompt⟩, r.afterSeconds, ⟨rfl, hsafe, hpos⟩, r.id, ⟨rfl, hid⟩,
        r.scheduledAt, ⟨rfl, htarget⟩, rfl⟩
    exact bind_eq_ok_iff.mpr ⟨r, hrecord, rfl⟩
  | .oneShot (.at r) =>
    have hrecord : decodeAtRecord [("id", .str r.id), ("kind", .str "at"),
        ("prompt", .str r.prompt), ("scheduledAt", .str r.scheduledAt)] = .ok r := by
      simp only [decodeAtRecord, bind_eq_ok_iff, require_ok_iff, decodePrompt_ok_iff,
        decodeId_ok_iff, decodeInstant_ok_iff, pure_eq_ok, ok.injEq]
      exact ⟨(), rfl, r.prompt, ⟨rfl, hprompt⟩, r.id, ⟨rfl, hid⟩, r.scheduledAt, ⟨rfl, htarget⟩, rfl⟩
    exact bind_eq_ok_iff.mpr ⟨r, hrecord, rfl⟩
  | .every r =>
    obtain ⟨hsafe, hleast, hinterval⟩ := hseconds
    have hrecord : decodeEveryRecord [("id", .str r.id), ("kind", .str "every"),
        ("prompt", .str r.prompt), ("everySeconds", .num (.int r.everySeconds)),
        ("scheduledAt", .str r.scheduledAt)] = .ok r := by
      simp only [decodeEveryRecord, bind_eq_ok_iff, require_ok_iff, decodePrompt_ok_iff,
        requireSome_ok_iff, decodeId_ok_iff, decodeInstant_ok_iff, seconds_field_iff, pure_eq_ok,
        ok.injEq, decide_eq_true_eq, isSafe_fmul_iff]
      exact ⟨(), rfl, r.prompt, ⟨rfl, hprompt⟩, r.everySeconds, ⟨rfl, hsafe, hleast, hinterval⟩, r.id,
        ⟨rfl, hid⟩, r.scheduledAt, ⟨rfl, htarget⟩, rfl⟩
    exact bind_eq_ok_iff.mpr ⟨r, hrecord, rfl⟩

def ScheduleChange.Valid : ScheduleChange → Prop
  | .create schedule => schedule.Valid
  | .delete id => Trimmed id
  | .dispatch id none => Trimmed id
  | .dispatch id (some acceptedAt) => Trimmed id ∧ Canonical acceptedAt

/-- **What decodes as a change is valid.** -/
theorem decodeScheduleChange_valid {value : Json} {change : ScheduleChange}
    (h : decodeScheduleChange value = .ok change) : change.Valid := by
  unfold decodeScheduleChange at h
  split at h
  · next fields =>
    split at h
    · cases h
    · split at h
      · obtain ⟨-, -, h⟩ := bind_eq_ok_iff.mp h
        obtain ⟨record, hrecord, hchange⟩ := bind_eq_ok_iff.mp h
        cases hchange
        exact decodeScheduleRecord_valid hrecord
      · obtain ⟨-, -, h⟩ := bind_eq_ok_iff.mp h
        obtain ⟨id, hid, hchange⟩ := bind_eq_ok_iff.mp h
        cases hchange
        exact (decodeId_ok_iff.mp hid).2
      · split at h
        · obtain ⟨id, hid, hchange⟩ := bind_eq_ok_iff.mp h
          cases hchange
          exact (decodeId_ok_iff.mp hid).2
        · split at h
          · obtain ⟨id, hid, h⟩ := bind_eq_ok_iff.mp h
            obtain ⟨acceptedAt, haccepted, hchange⟩ := bind_eq_ok_iff.mp h
            cases hchange
            exact ⟨(decodeId_ok_iff.mp hid).2, (decodeInstant_ok_iff.mp haccepted).2⟩
          · cases h
      · cases h
  · cases h

/-- **A valid change is decoded back** from its JSON. -/
theorem decodeScheduleChange_toJson {change : ScheduleChange} (h : change.Valid) :
    decodeScheduleChange change.toJson = .ok change := by
  match change with
  | .create schedule =>
    exact bind_eq_ok_iff.mpr ⟨(), rfl, bind_eq_ok_iff.mpr ⟨schedule, decodeScheduleRecord_toJson h, rfl⟩⟩
  | .delete id => exact bind_eq_ok_iff.mpr ⟨(), rfl, bind_eq_ok_iff.mpr ⟨id, decodeId_ok_iff.mpr ⟨rfl, h⟩, rfl⟩⟩
  | .dispatch id none => exact bind_eq_ok_iff.mpr ⟨id, decodeId_ok_iff.mpr ⟨rfl, h⟩, rfl⟩
  | .dispatch id (some acceptedAt) =>
    exact bind_eq_ok_iff.mpr ⟨id, decodeId_ok_iff.mpr ⟨rfl, h.1⟩,
      bind_eq_ok_iff.mpr ⟨acceptedAt, decodeInstant_ok_iff.mpr ⟨rfl, h.2⟩, rfl⟩⟩

/-! ## Fixed-rate arithmetic -/

/-- The last point of the grid `target + n * interval`, `n ≥ 0`, that is not after `accepted`. -/
def latestDue (target interval accepted : Int) : Int := target + (accepted - target) / interval * interval

section LatestDue

variable {target interval accepted : Int}

theorem latestDue_le (hpos : 0 < interval) : latestDue target interval accepted ≤ accepted := by
  have := Int.ediv_mul_le (accepted - target) hpos.ne'
  rw [latestDue]
  omega

theorem lt_latestDue_add (hpos : 0 < interval) : accepted < latestDue target interval accepted + interval := by
  have := Int.lt_ediv_add_one_mul_self (accepted - target) hpos
  rw [Int.add_mul, Int.one_mul] at this
  rw [latestDue]
  omega

theorem le_latestDue (hpos : 0 < interval) (h : target ≤ accepted) : target ≤ latestDue target interval accepted := by
  have hsteps : 0 ≤ (accepted - target) / interval := Int.ediv_nonneg (by omega) hpos.le
  have := Int.mul_nonneg hsteps hpos.le
  rw [latestDue]
  omega

theorem dvd_latestDue_sub : interval ∣ latestDue target interval accepted - target := by
  rw [latestDue, add_sub_cancel_left]
  exact Int.dvd_mul_left _ _

theorem le_latestDue_of_dvd (hpos : 0 < interval) {point : Int} (hgrid : interval ∣ point - target)
    (hle : point ≤ accepted) : point ≤ latestDue target interval accepted := by
  obtain ⟨n, hn⟩ := hgrid
  have hn' : n ≤ (accepted - target) / interval := by
    rw [Int.le_ediv_iff_mul_le hpos, Int.mul_comm]
    omega
  have := Int.mul_le_mul_of_nonneg_left hn' hpos.le
  rw [Int.mul_comm interval ((accepted - target) / interval)] at this
  rw [latestDue]
  omega

end LatestDue

def EveryScheduleRecord.interval (r : EveryScheduleRecord) : Int := r.everySeconds * 1000

variable {r : EveryScheduleRecord}

theorem ScheduleRecord.Valid.interval (h : (ScheduleRecord.every r).Valid) :
    IsSafe r.interval ∧ 300000 ≤ r.interval := by
  obtain ⟨-, -, -, -, hleast, hinterval⟩ := h
  rw [minEveryIntervalSeconds] at hleast
  exact ⟨hinterval, by rw [EveryScheduleRecord.interval]; omega⟩

/-- **A fixed-rate decision is exact integer arithmetic**, refused exactly when the acceptance time is out of range or
before the target. -/
theorem resolveEveryOccurrence_ok_iff {target accepted : Int} (hvalid : (ScheduleRecord.every r).Valid) (hrange : InRange target) (htarget : r.scheduledAt = toISOString target) {o : EveryOccurrence} :
    resolveEveryOccurrence r accepted = .ok o ↔ InRange accepted ∧ target ≤ accepted
        ∧ o.occurrenceAt = toISOString (latestDue target r.interval accepted)
        ∧ o.nextScheduledAt = if maxFourDigitYearMs < latestDue target r.interval accepted + r.interval then none
              else some (toISOString (latestDue target r.interval accepted + r.interval)) := by
  obtain ⟨hsafe, hleast⟩ := hvalid.interval
  have hinterval : fmul r.everySeconds 1000 = r.interval := fmul_of_isSafe hsafe
  have hpos : 0 < r.interval := by omega
  unfold resolveEveryOccurrence
  rw [hinterval]
  by_cases haccepted : InRange accepted
  · have hin := haccepted
    simp only [InRange, minFourDigitYearMs, maxFourDigitYearMs] at hin hrange
    rw [if_neg (by
      simp only [not_or, not_not, minFourDigitYearMs, maxFourDigitYearMs]
      exact ⟨haccepted.isSafe, by omega, by omega⟩), if_neg (by
      simp only [not_or, not_not]
      exact ⟨hsafe, by omega⟩), htarget, dateParse_toISOString hrange]
    dsimp only
    by_cases hearly : accepted < target
    · rw [if_pos hearly]
      exact ⟨fun h => (by cases h), fun h => absurd h.2.1 (by omega)⟩
    · -- every intermediate value lies between instants in range, or is their distance
      have hbelow : latestDue target r.interval accepted ≤ accepted := latestDue_le hpos
      have habove : target ≤ latestDue target r.interval accepted := le_latestDue hpos (not_lt.mp hearly)
      have hgap : fsub accepted target = accepted - target := fsub_of_isSafe (by simp only [IsSafe]; omega)
      have hsteps : ⌊fdiv (accepted - target) r.interval⌋ = (accepted - target) / r.interval :=
        floor_fdiv (by omega) hpos (by omega)
      have hproduct : fmul ((accepted - target) / r.interval) r.interval
          = (accepted - target) / r.interval * r.interval := by
        rw [latestDue] at hbelow habove
        exact fmul_of_isSafe (by simp only [IsSafe]; omega)
      have hoccurrence : fadd target ((accepted - target) / r.interval * r.interval)
          = latestDue target r.interval accepted := by
        rw [latestDue] at hbelow habove ⊢
        exact fadd_of_isSafe (by simp only [IsSafe]; omega)
      rw [if_neg hearly, hgap, hsteps, hproduct, hoccurrence, if_neg (by
        simp only [not_or, not_not, IsSafe]
        exact ⟨by omega, by omega, by omega⟩)]
      have hnext : (¬ IsSafe (fadd (latestDue target r.interval accepted) r.interval)
            ∨ maxFourDigitYearMs < fadd (latestDue target r.interval accepted) r.interval)
          ↔ maxFourDigitYearMs < latestDue target r.interval accepted + r.interval := by
        rw [isSafe_fadd_iff]
        by_cases hsum : IsSafe (latestDue target r.interval accepted + r.interval)
        · rw [fadd_of_isSafe hsum]
          exact ⟨fun h => h.resolve_left (not_not.mpr hsum), Or.inr⟩
        · refine ⟨fun _ => ?_, fun _ => Or.inl hsum⟩
          simp only [IsSafe, maxFourDigitYearMs] at hsum ⊢
          omega
      have hwrite : (if ¬ IsSafe (fadd (latestDue target r.interval accepted) r.interval)
            ∨ maxFourDigitYearMs < fadd (latestDue target r.interval accepted) r.interval then none
          else some (toISOString (fadd (latestDue target r.interval accepted) r.interval)))
          = if maxFourDigitYearMs < latestDue target r.interval accepted + r.interval then none
            else some (toISOString (latestDue target r.interval accepted + r.interval)) := by
        by_cases hend : maxFourDigitYearMs < latestDue target r.interval accepted + r.interval
        · rw [if_pos hend, if_pos (hnext.mpr hend)]
        · rw [if_neg hend, if_neg (mt hnext.mp hend), fadd_of_isSafe (by
            simp only [IsSafe, maxFourDigitYearMs] at hend ⊢
            omega)]
      rw [hwrite]
      obtain ⟨occurrenceAt, nextScheduledAt⟩ := o
      simp only [pure_eq_ok, ok.injEq, EveryOccurrence.mk.injEq]
      exact ⟨fun h => ⟨haccepted, not_lt.mp hearly, h.1.symm, h.2.symm⟩, fun h => ⟨h.2.2.1.symm, h.2.2.2.symm⟩⟩
  · rw [if_pos (by
      by_contra hno
      simp only [not_or, not_not] at hno
      exact haccepted ⟨by omega, by omega⟩)]
    exact ⟨fun h => (by cases h), fun h => absurd h.1 haccepted⟩

/-! ## The fold -/

def foldSuffix (events : List SessionEvent) (seedLength : Nat) : Except ScheduleLogError FoldState :=
  (events.drop seedLength).foldlM foldEvent {}

variable {events : List SessionEvent}

theorem foldScheduleEvents_ok_iff {seedLength : Int} {folded : FoldedSchedules} :
    foldScheduleEvents events seedLength = .ok folded
      ↔ (IsSafe seedLength ∧ 0 ≤ seedLength ∧ seedLength ≤ events.length)
        ∧ ∃ s, foldSuffix events seedLength.toNat = .ok s
          ∧ folded = { active := s.active.entries.map Prod.snd, seenIds := s.seen } := by
  unfold foldScheduleEvents
  split
  · next hbad =>
    refine ⟨fun h => (by cases h), fun h => ?_⟩
    rcases hbad with hbad | hbad | hbad
    · exact absurd h.1.1 hbad
    · exact absurd h.1.2.1 (by omega)
    · exact absurd h.1.2.2 (by omega)
  · next hgood =>
    simp only [not_or, not_not, not_lt] at hgood
    rw [bind_eq_ok_iff]
    constructor
    · rintro ⟨s, hs, hfolded⟩
      exact ⟨hgood, s, hs, (ok.inj hfolded).symm⟩
    · rintro ⟨-, s, hs, rfl⟩
      exact ⟨s, hs, rfl⟩

theorem foldSuffix_snoc {seedLength : Nat} (hseed : seedLength ≤ events.length) (e : SessionEvent) :
    foldSuffix (events ++ [e]) seedLength = foldSuffix events seedLength >>= (foldEvent · e) := by
  rw [foldSuffix, drop_append_of_le_length hseed, foldlM_append]
  congr 1
  funext s
  exact bind_pure (foldEvent s e)

theorem foldSuffix_seed (events : List SessionEvent) : foldSuffix events events.length = .ok {} := by
  rw [foldSuffix, drop_length]
  rfl

/-- Active records are valid, listed under their ids, and were created; no id is created twice. -/
structure FoldState.Inv (s : FoldState) : Prop where
  named : ∀ id r, s.active.lookup id = some r → r.id = id
  valid : ∀ id r, s.active.lookup id = some r → r.Valid
  seen : ∀ id r, s.active.lookup id = some r → id ∈ s.seen
  nodup : s.seen.Nodup

theorem FoldState.Inv.empty : FoldState.Inv {} := by refine ⟨?_, ?_, ?_, nodup_nil⟩ <;> intro id r h <;> cases h

variable {s s' : FoldState}

theorem foldChange_ok {change : ScheduleChange} (h : foldChange s change = .ok s') :
    (∃ schedule, change = .create schedule ∧ schedule.id ∉ s.seen
        ∧ s' = { active := s.active.set schedule.id schedule, seen := s.seen ++ [schedule.id] })
      ∨ (∃ id record, change = .delete id ∧ s.active.lookup id = some record
        ∧ s' = { s with active := s.active.erase id })
      ∨ ∃ id acceptedAt record next, change = .dispatch id acceptedAt
        ∧ s.active.lookup id = some record ∧ dispatchedRecord record acceptedAt = .ok next
        ∧ s' = { s with active := next.elim (s.active.erase id) (s.active.set id) } := by
  cases change with
  | create schedule =>
    rw [foldChange] at h
    split at h
    · cases h
    · next hnew => exact Or.inl ⟨schedule, rfl, hnew, (ok.inj h).symm⟩
  | delete id =>
    rw [foldChange] at h
    split at h
    · cases h
    · next record hactive => exact Or.inr (Or.inl ⟨id, record, rfl, hactive, (ok.inj h).symm⟩)
  | dispatch id acceptedAt =>
    rw [foldChange] at h
    split at h
    · cases h
    · next record hactive =>
      obtain ⟨next, hnext, h⟩ := bind_eq_ok_iff.mp h
      refine Or.inr (Or.inr ⟨id, acceptedAt, record, next, rfl, hactive, hnext, ?_⟩)
      cases next with
      | none | some next => exact (ok.inj h).symm

variable {e : SessionEvent}

theorem foldEvent_ok (h : foldEvent s e = .ok s') : (e.type ≠ scheduleChange ∧ s' = s) ∨ e.type = scheduleChange
        ∧ ∃ change, decodeScheduleChange e.data = .ok change ∧ foldChange s change = .ok s' := by
  unfold foldEvent at h
  split at h
  · next htype => exact Or.inl ⟨htype, (ok.inj h).symm⟩
  · next htype => exact Or.inr ⟨not_not.mp htype, bind_eq_ok_iff.mp h⟩

/-! ## Dispatches -/

variable {acceptedAt : Option String}

theorem dispatchedRecord_oneShot_iff {r : OneShotScheduleRecord} {next : Option ScheduleRecord} :
    dispatchedRecord (.oneShot r) acceptedAt = .ok next ↔ acceptedAt = none ∧ next = none := by
  cases acceptedAt with
  | none =>
    rw [dispatchedRecord, pure_eq_ok, ok.injEq]
    exact ⟨fun h => ⟨rfl, h.symm⟩, fun h => h.2.symm⟩
  | some text => exact ⟨fun h => (by cases h), fun h => (by cases h.1)⟩

def EveryScheduleRecord.after (r : EveryScheduleRecord) (occurrence : Int) : Option ScheduleRecord :=
  if maxFourDigitYearMs < occurrence + r.interval then none
  else some (.every { r with scheduledAt := toISOString (occurrence + r.interval) })

theorem EveryScheduleRecord.after_eq_map (r : EveryScheduleRecord) (occurrence : Int) : r.after occurrence
      = (if maxFourDigitYearMs < occurrence + r.interval then none
          else some (toISOString (occurrence + r.interval))).map
          fun next => .every { r with scheduledAt := next } := by
  unfold EveryScheduleRecord.after
  split <;> rfl

theorem dispatchedRecord_every_iff {target : Int} (hvalid : (ScheduleRecord.every r).Valid) (hrange : InRange target) (htarget : r.scheduledAt = toISOString target) {next : Option ScheduleRecord} :
    dispatchedRecord (.every r) acceptedAt = .ok next
      ↔ ∃ text accepted, acceptedAt = some text ∧ dateParse text = some accepted ∧ InRange accepted
        ∧ target ≤ accepted ∧ next = r.after (latestDue target r.interval accepted) := by
  cases acceptedAt with
  | none => exact ⟨fun h => (by cases h), fun ⟨_, _, h, _⟩ => (by cases h)⟩
  | some text =>
    rw [dispatchedRecord]
    cases hparse : dateParse text with
    | none =>
      refine ⟨fun h => (by cases h), fun ⟨_, _, htext, hsome, _⟩ => ?_⟩
      cases htext
      rw [hparse] at hsome
      cases hsome
    | some accepted =>
      dsimp only
      simp only [bind_eq_ok_iff, resolveEveryOccurrence_ok_iff hvalid hrange htarget, pure_eq_ok, ok.injEq]
      constructor
      · rintro ⟨o, ⟨haccepted, hle, -, hnext⟩, rfl⟩
        refine ⟨text, accepted, rfl, hparse, haccepted, hle, ?_⟩
        rw [hnext, r.after_eq_map]
      · rintro ⟨text', accepted', htext, hsome, haccepted, hle, rfl⟩
        cases htext
        cases hparse.symm.trans hsome
        exact ⟨⟨_, _⟩, ⟨haccepted, hle, rfl, rfl⟩, (r.after_eq_map _).symm⟩

theorem inRange_latestDue {interval target accepted : Int} (hpos : 0 < interval)
    (hrange : InRange target) (haccepted : InRange accepted) (hle : target ≤ accepted) :
    InRange (latestDue target interval accepted) :=
  ⟨hrange.1.trans (le_latestDue hpos hle), (latestDue_le hpos).trans haccepted.2⟩

variable {next : ScheduleRecord}

theorem EveryScheduleRecord.after_eq_some
    (hvalid : (ScheduleRecord.every r).Valid) {occurrence : Int} (hrange : InRange occurrence) (h : r.after occurrence = some next) :
    InRange (occurrence + r.interval)
      ∧ next = .every { r with scheduledAt := toISOString (occurrence + r.interval) } := by
  unfold EveryScheduleRecord.after at h
  split at h
  · cases h
  · next hend =>
    obtain ⟨-, hleast⟩ := hvalid.interval
    exact ⟨⟨by have := hrange.1; omega, not_lt.mp hend⟩, (Option.some.inj h).symm⟩

theorem dispatchedRecord_valid {r : ScheduleRecord} (hvalid : r.Valid)
    (h : dispatchedRecord r acceptedAt = .ok (some next)) : next.Valid ∧ next.id = r.id := by
  cases r with
  | oneShot r => cases (dispatchedRecord_oneShot_iff.mp h).2
  | every r =>
    obtain ⟨target, hrange, htarget⟩ := hvalid.target
    obtain ⟨_, accepted, -, -, haccepted, hle, hnext⟩ := (dispatchedRecord_every_iff hvalid hrange htarget).mp h
    have hpos : 0 < r.interval := by have := hvalid.interval; omega
    obtain ⟨hin, rfl⟩ := r.after_eq_some hvalid (inRange_latestDue hpos hrange haccepted hle) hnext.symm
    exact ⟨⟨hvalid.id, hvalid.prompt, ⟨_, hin, rfl⟩, hvalid.seconds⟩, rfl⟩

/-! ## What the fold keeps -/

/-- **The fold invariant is kept by every change.** -/
theorem FoldState.Inv.change (hs : s.Inv) {change : ScheduleChange}
    (hvalid : change.Valid) (h : foldChange s change = .ok s') : s'.Inv := by
  rcases foldChange_ok h with ⟨schedule, rfl, hnew, rfl⟩ | ⟨id, record, rfl, hactive, rfl⟩
    | ⟨id, acceptedAt, record, next, rfl, hactive, hnext, rfl⟩
  · refine ⟨?_, ?_, ?_, ?_⟩
    · intro id r hr
      rw [lookup_set] at hr
      split at hr
      · next hid => rw [← Option.some.inj hr, hid]
      · exact hs.named id r hr
    · intro id r hr
      rw [lookup_set] at hr
      split at hr
      · exact Option.some.inj hr ▸ hvalid
      · exact hs.valid id r hr
    · intro id r hr
      rw [lookup_set] at hr
      split at hr
      · next hid => exact mem_append_right _ (mem_singleton.mpr hid)
      · exact mem_append_left _ (hs.seen id r hr)
    · exact nodup_append.mpr ⟨hs.nodup, nodup_singleton _, fun a ha b hb heq =>
        hnew (mem_singleton.mp hb ▸ heq ▸ ha)⟩
  · refine ⟨fun l r hr => ?_, fun l r hr => ?_, fun l r hr => ?_, hs.nodup⟩ <;>
      rw [lookup_erase] at hr <;> split at hr
    · cases hr
    · exact hs.named l r hr
    · cases hr
    · exact hs.valid l r hr
    · cases hr
    · exact hs.seen l r hr
  · cases next with
    | none =>
      refine ⟨fun l r hr => ?_, fun l r hr => ?_, fun l r hr => ?_, hs.nodup⟩ <;>
        simp only [elim_none] at hr <;> rw [lookup_erase] at hr <;> split at hr
      · cases hr
      · exact hs.named l r hr
      · cases hr
      · exact hs.valid l r hr
      · cases hr
      · exact hs.seen l r hr
    | some next =>
      obtain ⟨hnextValid, hnextId⟩ := dispatchedRecord_valid (hs.valid id record hactive) hnext
      refine ⟨fun l r hr => ?_, fun l r hr => ?_, fun l r hr => ?_, hs.nodup⟩ <;>
        simp only [elim_some] at hr <;> rw [lookup_set] at hr <;> split at hr
      · next hid =>
        rw [← Option.some.inj hr, hid, hnextId]
        exact hs.named id record hactive
      · exact hs.named l r hr
      · exact Option.some.inj hr ▸ hnextValid
      · exact hs.valid l r hr
      · next hid => exact hid ▸ hs.seen id record hactive
      · exact hs.seen l r hr

theorem FoldState.Inv.event (hs : s.Inv) (h : foldEvent s e = .ok s') : s'.Inv := by
  rcases foldEvent_ok h with ⟨-, rfl⟩ | ⟨-, change, hchange, hfold⟩
  · exact hs
  · exact hs.change (decodeScheduleChange_valid hchange) hfold

/-! ## Creations in a log -/

section Creations

variable {seedLength : Nat} {log : List SessionEvent}

def Creates (seedLength : Nat) (log : List SessionEvent) (c : ScheduleRecord) : Prop :=
  ∃ e ∈ log.drop seedLength, e.type = scheduleChange ∧ decodeScheduleChange e.data = .ok (.create c)

variable {c : ScheduleRecord}

theorem Creates.snoc (h : Creates seedLength log c) (hseed : seedLength ≤ log.length)
    (e : SessionEvent) : Creates seedLength (log ++ [e]) c := by
  obtain ⟨created, hmem, hcreate⟩ := h
  refine ⟨created, ?_, hcreate⟩
  rw [drop_append_of_le_length hseed]
  exact mem_append_left _ hmem

variable {e : SessionEvent}

theorem creates_last (hseed : seedLength ≤ log.length)
    (htype : e.type = scheduleChange) (hdata : decodeScheduleChange e.data = .ok (.create c)) :
    Creates seedLength (log ++ [e]) c := by
  refine ⟨e, ?_, htype, hdata⟩
  rw [drop_append_of_le_length hseed]
  exact mem_append_right _ (mem_singleton.mpr rfl)

theorem creates_snoc_cases (hseed : seedLength ≤ log.length)
    (h : Creates seedLength (log ++ [e]) c) : Creates seedLength log c
      ∨ e.type = scheduleChange ∧ decodeScheduleChange e.data = .ok (.create c) := by
  obtain ⟨created, hmem, hcreate⟩ := h
  rw [drop_append_of_le_length hseed, mem_append, mem_singleton] at hmem
  rcases hmem with hmem | rfl
  · exact Or.inl ⟨created, hmem, hcreate⟩
  · exact Or.inr hcreate

end Creations

end CocoHarness.Schedule
