/-
# CocoHarness.Schedule.Domain — schedule records, their durable changes, and the fold over a log.

A reminder is a record with the text of its target instant: a one-shot one (`after`, `at`) ends at its
dispatch, a fixed-rate one (`every`) moves on to its next target.  The log holds what happened to the
records as `schedule/change` events, which are decoded strictly (exact keys, canonical instants) and
folded in order; what the fold refuses is a corrupt log.

Numbers are doubles, as far as the code can tell the difference: products, sums and quotients are
rounded, and the safe-integer tests of the code are what makes them exact.
-/
import CocoHarness.Lib.InsertionMap
import CocoHarness.Lib.IsoInstant
import CocoHarness.Lib.SafeQuotient
import CocoHarness.SessionLog.Event

namespace CocoHarness.Schedule

open Lib Lib.SafeInteger Lib.IsoInstant SessionLog

/-! ## Errors -/

/-- Error from malformed or transition-invalid durable Schedule data. -/
structure ScheduleLogError where
  message : String
  deriving DecidableEq

inductive ScheduleInputCode where
  | invalidPrompt
  | invalidRule
  | invalidTimeZone
  | notFuture
  | timeOutOfRange
  | frequencyTooHigh
  deriving DecidableEq

/-- Error from a model-supplied Schedule rule that cannot become a record. -/
structure ScheduleInputError where
  code : ScheduleInputCode
  message : String
  deriving DecidableEq

/-! ## Texts -/

/-- What `trim` takes off: white space, line terminators and the byte order mark. -/
def isSpace (c : Char) : Bool :=
  decide (9 ≤ c.toNat ∧ c.toNat ≤ 13 ∨ c.toNat = 32 ∨ c.toNat = 160 ∨ c.toNat = 5760
    ∨ 8192 ≤ c.toNat ∧ c.toNat ≤ 8202 ∨ c.toNat = 8232 ∨ c.toNat = 8233 ∨ c.toNat = 8239
    ∨ c.toNat = 8287 ∨ c.toNat = 12288 ∨ c.toNat = 65279)

variable (s : String)

def trim : String := String.ofList (((s.toList.dropWhile isSpace).reverse.dropWhile isSpace).reverse)

def jsonString : String := String.ofList (JsonText.quoted s.toList)

/-! ## Instants -/

def minFourDigitYearMs : Int := -62135596800000

def maxFourDigitYearMs : Int := 253402300799999

def toISOString (epoch : Int) : String := String.ofList (isoText epoch)

/-- The fields of a text of the shape `UTC_INSTANT`. A day past the end of its month passes. -/
def utcInstant? : Option Fields :=
  (readFields s.toList).filter fun f =>
    decide (1 ≤ f.year ∧ 1 ≤ f.month ∧ f.month ≤ 12 ∧ 1 ≤ f.day ∧ f.day ≤ 31 ∧ f.hour ≤ 23
      ∧ f.minute ≤ 59 ∧ f.second ≤ 59)

/-- `Date.parse` on such a text; `none` stands for `NaN`. A day past the end of its month counts into the next. -/
def dateParse : Option Int := (utcInstant? s).map instantOf

/-! ## Records -/

structure AfterScheduleRecord where
  id : String
  prompt : String
  afterSeconds : Int
  scheduledAt : String
  deriving DecidableEq

structure AtScheduleRecord where
  id : String
  prompt : String
  scheduledAt : String
  deriving DecidableEq

/-- Durable fixed-rate reminder whose next target remains creation-anchor-aligned. -/
structure EveryScheduleRecord where
  id : String
  prompt : String
  everySeconds : Int
  scheduledAt : String
  deriving DecidableEq

/-- One-shot record variants that terminate on an id-only dispatch. -/
inductive OneShotScheduleRecord where
  | after (record : AfterScheduleRecord)
  | at (record : AtScheduleRecord)
  deriving DecidableEq

inductive ScheduleRecord where
  | oneShot (record : OneShotScheduleRecord)
  | every (record : EveryScheduleRecord)
  deriving DecidableEq

def OneShotScheduleRecord.id : OneShotScheduleRecord → String
  | .after record => record.id
  | .at record => record.id

def OneShotScheduleRecord.prompt : OneShotScheduleRecord → String
  | .after record => record.prompt
  | .at record => record.prompt

def OneShotScheduleRecord.scheduledAt : OneShotScheduleRecord → String
  | .after record => record.scheduledAt
  | .at record => record.scheduledAt

namespace ScheduleRecord

def id : ScheduleRecord → String
  | .oneShot record => record.id
  | .every record => record.id

def prompt : ScheduleRecord → String
  | .oneShot record => record.prompt
  | .every record => record.prompt

def scheduledAt : ScheduleRecord → String
  | .oneShot record => record.scheduledAt
  | .every record => record.scheduledAt

def toJson : ScheduleRecord → Json
  | .oneShot (.after r) =>
    .obj [("id", .str r.id), ("kind", .str "after"), ("prompt", .str r.prompt),
      ("afterSeconds", .num (.int r.afterSeconds)), ("scheduledAt", .str r.scheduledAt)]
  | .oneShot (.at r) =>
    .obj [("id", .str r.id), ("kind", .str "at"), ("prompt", .str r.prompt), ("scheduledAt", .str r.scheduledAt)]
  | .every r =>
    .obj [("id", .str r.id), ("kind", .str "every"), ("prompt", .str r.prompt),
      ("everySeconds", .num (.int r.everySeconds)), ("scheduledAt", .str r.scheduledAt)]

end ScheduleRecord

inductive ScheduleChange where
  | create (schedule : ScheduleRecord)
  | delete (id : String)
  | dispatch (id : String) (acceptedAt : Option String)
  deriving DecidableEq

def ScheduleChange.toJson : ScheduleChange → Json
  | .create schedule =>
    .obj [("version", .num (.int 1)), ("operation", .str "create"), ("schedule", schedule.toJson)]
  | .delete id => .obj [("version", .num (.int 1)), ("operation", .str "delete"), ("id", .str id)]
  | .dispatch id none => .obj [("version", .num (.int 1)), ("operation", .str "dispatch"), ("id", .str id)]
  | .dispatch id (some acceptedAt) =>
    .obj [("version", .num (.int 1)), ("operation", .str "dispatch"), ("id", .str id), ("acceptedAt", .str acceptedAt)]

/-! ## Decoding -/

def scheduleChangeVersion : Json := .num (.int 1)

def minEveryIntervalSeconds : Int := 300

def require (check : Bool) (message : String) : Except ScheduleLogError Unit :=
  if check then return () else throw ⟨message⟩

def requireSome {α : Type} (value : Option α) (message : String) : Except ScheduleLogError α :=
  match value with
  | some a => return a
  | none => throw ⟨message⟩

variable (fields : List (String × Json))

def hasExactKeys (expected : List String) : Bool :=
  (Json.keys fields).isPerm expected

variable (value : Option Json)

/-- A stored string that is not empty and has no surrounding white space. -/
def trimmed? : Option String :=
  (value.bind Json.str?).filter fun s => decide (s ≠ "" ∧ trim s = s)

/-- Validate one stable session-local id at the durable boundary. -/
def decodeId : Except ScheduleLogError String :=
  requireSome (trimmed? value)
    "schedule id must be a non-empty string without surrounding whitespace"

def decodeInstant : Except ScheduleLogError String :=
  match value with
  | some (.str text) =>
    match utcInstant? text with
    | none => throw ⟨"scheduledAt must be a canonical four-digit-year RFC 3339 UTC instant"⟩
    | some f =>
      if toISOString (instantOf f) ≠ text then
        throw ⟨"scheduledAt is not a real UTC calendar instant"⟩
      else return text
  | _ => throw ⟨"scheduledAt must be a canonical four-digit-year RFC 3339 UTC instant"⟩

/-- Validate a stored prompt; `kind` names the record in the error. -/
def decodePrompt (kind : String) (value : Option Json) : Except ScheduleLogError String :=
  requireSome (trimmed? value) s!"{kind} prompt must be non-empty and already trimmed"

def decodeAfterRecord : Except ScheduleLogError AfterScheduleRecord := do
  require (hasExactKeys fields ["id", "kind", "prompt", "afterSeconds", "scheduledAt"])
    "after schedule must contain exactly id, kind, prompt, afterSeconds, and scheduledAt"
  let prompt ← decodePrompt "after" (fields.lookup "prompt")
  let afterSeconds ← requireSome
    (((fields.lookup "afterSeconds").bind safeInt?).filter fun n => decide (0 < n))
    "afterSeconds must be a positive safe integer"
  let id ← decodeId (fields.lookup "id")
  let scheduledAt ← decodeInstant (fields.lookup "scheduledAt")
  return { id, prompt, afterSeconds, scheduledAt }

def decodeAtRecord : Except ScheduleLogError AtScheduleRecord := do
  require (hasExactKeys fields ["id", "kind", "prompt", "scheduledAt"])
    "at schedule must contain exactly id, kind, prompt, and scheduledAt"
  let prompt ← decodePrompt "at" (fields.lookup "prompt")
  let id ← decodeId (fields.lookup "id")
  let scheduledAt ← decodeInstant (fields.lookup "scheduledAt")
  return { id, prompt, scheduledAt }

def decodeEveryRecord : Except ScheduleLogError EveryScheduleRecord := do
  require (hasExactKeys fields ["id", "kind", "prompt", "everySeconds", "scheduledAt"])
    "every schedule must contain exactly id, kind, prompt, everySeconds, and scheduledAt"
  let prompt ← decodePrompt "every" (fields.lookup "prompt")
  let everySeconds ← requireSome
    (((fields.lookup "everySeconds").bind safeInt?).filter fun n =>
      decide (minEveryIntervalSeconds ≤ n ∧ IsSafe (fmul n 1000)))
    s!"everySeconds must be a safe integer of at least {minEveryIntervalSeconds}"
  let id ← decodeId (fields.lookup "id")
  let scheduledAt ← decodeInstant (fields.lookup "scheduledAt")
  return { id, prompt, everySeconds, scheduledAt }

/-- Decode one current durable record variant by its exact discriminator. -/
def decodeScheduleRecord : Except ScheduleLogError ScheduleRecord :=
  match value with
  | some (.obj fields) =>
    match (fields.lookup "kind").bind Json.str? with
    | some "after" => do return .oneShot (.after (← decodeAfterRecord fields))
    | some "at" => do return .oneShot (.at (← decodeAtRecord fields))
    | some "every" => do return .every (← decodeEveryRecord fields)
    | _ => throw ⟨"v1 schedule kind must be \"after\", \"at\", or \"every\""⟩
  | _ => throw ⟨"schedule record must be an object"⟩

def decodeScheduleChange (value : Json) : Except ScheduleLogError ScheduleChange :=
  match value with
  | .obj fields =>
    if fields.lookup "version" ≠ some scheduleChangeVersion then
      throw ⟨"schedule/change version must be 1"⟩
    else
      match (fields.lookup "operation").bind Json.str? with
      | some "create" => do
        require (hasExactKeys fields ["version", "operation", "schedule"])
          "schedule create must contain exactly version, operation, and schedule"
        return .create (← decodeScheduleRecord (fields.lookup "schedule"))
      | some "delete" => do
        require (hasExactKeys fields ["version", "operation", "id"])
          "schedule delete must contain exactly version, operation, and id"
        return .delete (← decodeId (fields.lookup "id"))
      | some "dispatch" =>
        if hasExactKeys fields ["version", "operation", "id"] then do
          return .dispatch (← decodeId (fields.lookup "id")) none
        else if hasExactKeys fields ["version", "operation", "id", "acceptedAt"] then do
          let id ← decodeId (fields.lookup "id")
          return .dispatch id (some (← decodeInstant (fields.lookup "acceptedAt")))
        else throw ⟨"schedule dispatch must contain id and optional acceptedAt only"⟩
      | _ => throw ⟨"schedule/change operation must be create, delete, or dispatch"⟩
  | _ => throw ⟨"schedule/change payload must be an object"⟩

/-! ## Dispatching -/

/-- One latest-only fixed-rate decision derived without enumerating a backlog. -/
structure EveryOccurrence where
  occurrenceAt : String
  nextScheduledAt : Option String
  deriving DecidableEq

/-- Resolve one fixed-rate decision. A `NaN` target passes the comparison and fails the occurrence check. -/
def resolveEveryOccurrence (record : EveryScheduleRecord) (acceptedAt : Int) :
    Except ScheduleLogError EveryOccurrence :=
  let interval := fmul record.everySeconds 1000
  if ¬ IsSafe acceptedAt ∨ acceptedAt < minFourDigitYearMs ∨ maxFourDigitYearMs < acceptedAt then
    throw ⟨"every acceptedAt must be a representable four-digit-year instant"⟩
  else if ¬ IsSafe interval ∨ interval ≤ 0 then
    throw ⟨"every interval milliseconds must be a positive safe integer"⟩
  else
    match dateParse record.scheduledAt with
    | none => throw ⟨"every occurrence arithmetic must stay within the accepted interval"⟩
    | some target =>
      if acceptedAt < target then
        throw ⟨"every dispatch cannot precede the active scheduledAt"⟩
      else
        let steps := ⌊fdiv (fsub acceptedAt target) interval⌋
        let occurrence := fadd target (fmul steps interval)
        if ¬ IsSafe occurrence ∨ occurrence < target ∨ acceptedAt < occurrence then
          throw ⟨"every occurrence arithmetic must stay within the accepted interval"⟩
        else
          let next := fadd occurrence interval
          return {
            occurrenceAt := toISOString occurrence
            nextScheduledAt := if ¬ IsSafe next ∨ maxFourDigitYearMs < next then none else some (toISOString next) }

/-- Apply one decoded dispatch to its active record; `none` ends the record. -/
def dispatchedRecord (record : ScheduleRecord) (acceptedAt : Option String) :
    Except ScheduleLogError (Option ScheduleRecord) :=
  match record, acceptedAt with
  | .oneShot _, some _ => throw ⟨"one-shot dispatch must not contain acceptedAt"⟩
  | .oneShot _, none => return none
  | .every _, none => throw ⟨"every dispatch must contain acceptedAt"⟩
  | .every record, some acceptedAt =>
    match dateParse acceptedAt with
    | none => throw ⟨"every acceptedAt must be a representable four-digit-year instant"⟩
    | some accepted => do
      let occurrence ← resolveEveryOccurrence record accepted
      return occurrence.nextScheduledAt.map fun next => .every { record with scheduledAt := next }

/-! ## The fold -/

/-- The accumulators of the fold: the active records in create order, and every id ever created. -/
structure FoldState where
  active : InsertionMap String ScheduleRecord := ∅
  seen : List String := []

def foldChange (s : FoldState) : ScheduleChange → Except ScheduleLogError FoldState
  | .create schedule =>
    if schedule.id ∈ s.seen then throw ⟨s!"schedule id {jsonString schedule.id} was reused"⟩
    else
      return { active := s.active.set schedule.id schedule, seen := s.seen ++ [schedule.id] }
  | .delete id =>
    match s.active.lookup id with
    | none => throw ⟨s!"schedule delete targets inactive id {jsonString id}"⟩
    | some _ => return { s with active := s.active.erase id }
  | .dispatch id acceptedAt =>
    match s.active.lookup id with
    | none => throw ⟨s!"schedule dispatch targets inactive id {jsonString id}"⟩
    | some record => do
      match ← dispatchedRecord record acceptedAt with
      | none => return { s with active := s.active.erase id }
      | some next => return { s with active := s.active.set id next }

def scheduleChange : String := "schedule/change"

def foldEvent (s : FoldState) (event : SessionEvent) : Except ScheduleLogError FoldState :=
  if event.type ≠ scheduleChange then return s
  else decodeScheduleChange event.data >>= foldChange s

/-- Pure replay result, retaining active create order and every used id. -/
structure FoldedSchedules where
  active : List ScheduleRecord
  seenIds : List String
  deriving DecidableEq

/-- Fold the package-owned stream after the durable fork seed boundary. -/
def foldScheduleEvents (events : List SessionEvent) (seedLength : Int) : Except ScheduleLogError FoldedSchedules :=
  if ¬ IsSafe seedLength ∨ seedLength < 0 ∨ events.length < seedLength then
    throw ⟨"schedule seedLength must be within the supplied event log"⟩
  else do
    let s ← (events.drop seedLength.toNat).foldlM foldEvent {}
    return { active := s.active.entries.map Prod.snd, seenIds := s.seen }

/-! ## Creating records -/

def scheduleId (sequence : Nat) : String := "schedule-" ++ String.ofList (Numeral.natText sequence)

/-- Search on from `sequence`; the candidates are distinct, so `fuel` ids run out of them. -/
def allocateFrom (seen : List String) : Nat → Nat → String
  | 0, sequence => scheduleId sequence
  | fuel + 1, sequence =>
    if scheduleId sequence ∈ seen then allocateFrom seen fuel (sequence + 1) else scheduleId sequence

/-- Allocate the next readable id without reusing any prior session-local id. -/
def allocateScheduleId (folded : FoldedSchedules) : String :=
  let size := folded.seenIds.dedup.length
  allocateFrom folded.seenIds size (size + 1)

def futureInstant (epoch now : Int) : Except ScheduleInputError String :=
  if ¬ IsSafe now ∨ ¬ IsSafe epoch ∨ epoch < minFourDigitYearMs ∨ maxFourDigitYearMs < epoch then
    throw ⟨.timeOutOfRange, "The scheduled time must be representable as a four-digit-year RFC 3339 UTC instant."⟩
  else if epoch ≤ now then
    throw ⟨.notFuture, "The scheduled time must be strictly in the future."⟩
  else if (utcInstant? (toISOString epoch)).isNone then
    throw ⟨.timeOutOfRange, "The scheduled time must be representable as a four-digit-year RFC 3339 UTC instant."⟩
  else return toISOString epoch

def inputSome {α : Type} (value : Option α) (code : ScheduleInputCode) (message : String) :
    Except ScheduleInputError α :=
  match value with
  | some a => return a
  | none => throw ⟨code, message⟩

def normalizePrompt (prompt : String) : Except ScheduleInputError String :=
  if trim prompt = "" then throw ⟨.invalidPrompt, "prompt must be non-empty after trimming."⟩
  else return trim prompt

def createAfterScheduleRecord (id prompt : String) (afterSeconds : Number) (now : Int) :
    Except ScheduleInputError AfterScheduleRecord := do
  let prompt ← normalizePrompt prompt
  let afterSeconds ← inputSome ((safeInt? (.num afterSeconds)).filter fun n => decide (0 < n))
    .invalidRule "after_seconds must be a positive safe integer."
  let scheduledAt ← futureInstant (fadd now (fmul afterSeconds 1000)) now
  return { id, prompt, afterSeconds, scheduledAt }

/-- Validate an absolute selector; `target` is what reading the selector came to. -/
def createAtScheduleRecord (id prompt : String) (target : Except ScheduleInputError Int) (now : Int) :
    Except ScheduleInputError AtScheduleRecord := do
  let prompt ← normalizePrompt prompt
  let target ← target
  let scheduledAt ← futureInstant target now
  return { id, prompt, scheduledAt }

/-- Validate a fixed-rate selector and compute its first creation-aligned target. -/
def createEveryScheduleRecord (id prompt : String) (everySeconds : Number) (now : Int) :
    Except ScheduleInputError EveryScheduleRecord := do
  let prompt ← normalizePrompt prompt
  let everySeconds ← inputSome (safeInt? (.num everySeconds)) .invalidRule
    "every_seconds must be a safe integer."
  let everySeconds ← inputSome
    ((some everySeconds).filter fun n => decide (minEveryIntervalSeconds ≤ n)) .frequencyTooHigh
    s!"every_seconds must be at least {minEveryIntervalSeconds}."
  let scheduledAt ← futureInstant (fadd now (fmul everySeconds 1000)) now
  return { id, prompt, everySeconds, scheduledAt }

end CocoHarness.Schedule
