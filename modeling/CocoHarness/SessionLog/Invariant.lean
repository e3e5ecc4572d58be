/-
# CocoHarness.SessionLog.Invariant — the relational invariants of the log.

A trace follows the turns, steps and tool calls of one session.  `validateEvent` checks a candidate event against the
trace and returns what accepting it would change; `applyTransition` makes the change once the event is committed.
-/
import CocoHarness.SessionLog.TypedEvent

namespace CocoHarness.SessionLog

open Lib Lib.SafeInteger Lib.Numeral

/-- Recovery code for an assistant tool request that never reached a recorded call start. -/
def toolNotStarted : String := "TOOL_NOT_STARTED"

/-- Recovery code for a recorded tool call whose completed outcome was not durably recorded. -/
def toolOutcomeUnknown : String := "TOOL_OUTCOME_UNKNOWN"

/-! ## Trace and transitions -/

structure TraceScalars where
  lastSeq : Int := -1
  openTurn : Option Number := none
  openStep : Option Number := none
  nextTurn : Int := 1
  nextStep : Int := 1
  deriving DecidableEq

structure SessionTrace extends TraceScalars where
  pendingCalls : Finset String := ∅
  deriving DecidableEq

inductive PendingChange where
  | none
  | add (callId : String)
  | delete (callId : String)
  | clear
  deriving DecidableEq

/-- One accepted event's deferred mutation of a committed session trace. -/
structure SessionTraceTransition where
  scalars : TraceScalars
  pendingCalls : PendingChange := .none
  deriving DecidableEq

/-! ## Checks -/

def printNumber (n : Number) : String := String.ofList (numberText n)

def printOpen : Option Number → String
  | none => "null"
  | some n => printNumber n

variable (trace : SessionTrace)

/-- Assert that a step-scoped event names the currently open turn and step. -/
def requireOpenStep (kind : String) (turn step : Number) : Except JsError Unit :=
  require (trace.openTurn = some turn ∧ trace.openStep = some step)
    (s!"{kind} names turn {printNumber turn}/step {printNumber step} but open is "
      ++ s!"turn {printOpen trace.openTurn}/step {printOpen trace.openStep}")

/-- Validate one candidate event without mutating the committed trace. -/
def validateEvent (event : TypedEvent) : Except JsError SessionTraceTransition := do
  let seq := event.event.seq
  require (trace.lastSeq < seq) s!"seq must strictly increase: saw {seq} after {trace.lastSeq}"
  let scalars := { trace.toTraceScalars with lastSeq := seq }
  match event.data with
  | .turnStart turn =>
    require trace.openTurn.isNone
      s!"turn/start {printNumber turn} while turn {printOpen trace.openTurn} is still open"
    require (turn = .int trace.nextTurn)
      s!"turn/start expected turn {trace.nextTurn}, got {printNumber turn}"
    return { scalars := { scalars with openTurn := some turn, nextStep := 1 } }
  | .turnEnd turn =>
    require (trace.openTurn = some turn)
      s!"turn/end {printNumber turn} does not match open turn {printOpen trace.openTurn}"
    require trace.openStep.isNone
      s!"turn/end {printNumber turn} while step {printOpen trace.openStep} is still open"
    return { scalars := { scalars with openTurn := none, nextTurn := fadd trace.nextTurn 1 } }
  | .stepStart turn step =>
    require (trace.openTurn = some turn)
      s!"step/start in turn {printNumber turn} but open turn is {printOpen trace.openTurn}"
    require trace.openStep.isNone
      s!"step/start {printNumber step} while step {printOpen trace.openStep} is still open"
    require (step = .int trace.nextStep)
      (s!"step/start expected step {trace.nextStep} in turn {printNumber turn}, "
        ++ s!"got {printNumber step}")
    return { scalars := { scalars with openStep := some step } }
  | .stepEnd turn step =>
    requireOpenStep trace "step/end" turn step
    return { scalars := { scalars with openStep := none, nextStep := fadd trace.nextStep 1 }
             pendingCalls := .clear }
  | .assistantChunk turn step =>
    requireOpenStep trace "assistant/chunk" turn step
    return { scalars }
  | .assistantMessage turn step _ =>
    requireOpenStep trace "assistant/message" turn step
    return { scalars }
  | .toolCall turn step callId =>
    requireOpenStep trace "tool/call" turn step
    return { scalars, pendingCalls := .add callId }
  | .toolResult turn step callId appended isError errorCode =>
    -- A content rewrite of an earlier result is durable turn work, not a second execution.
    if ¬ appended then
      require trace.openTurn.isSome "tool/result surface replacement appended outside any open turn"
      return { scalars }
    else
      requireOpenStep trace "tool/result" turn step
      let syntheticNotStarted := isError ∧ errorCode = some toolNotStarted
      require (callId ∈ trace.pendingCalls ∨ syntheticNotStarted)
        s!"tool/result for {callId} with no prior tool/call in this step"
      return { scalars, pendingCalls := .delete callId }
  | .turnEnclosed =>
    require trace.openTurn.isSome (s!"{event.event.type} appended outside any open turn "
      ++ "(core execution events must be turn-enclosed)")
    return { scalars }
  | .other => return { scalars }

/-- Apply one already-validated transition after its event commits. -/
def applyTransition (transition : SessionTraceTransition) : SessionTrace where
  toTraceScalars := transition.scalars
  pendingCalls :=
    match transition.pendingCalls with
    | .none => trace.pendingCalls
    | .add callId => insert callId trace.pendingCalls
    | .delete callId => trace.pendingCalls.erase callId
    | .clear => ∅

/-! ## Runs -/

def freshTrace : SessionTrace := {}

def SessionTrace.observe (event : TypedEvent) : Except JsError SessionTrace := do
  let transition ← validateEvent trace event
  return applyTransition trace transition

def runTrace (events : List TypedEvent) : Except JsError SessionTrace :=
  events.foldlM SessionTrace.observe trace

@[simp] theorem runTrace_nil : runTrace trace [] = .ok trace := rfl

theorem runTrace_cons (event : TypedEvent) (events : List TypedEvent) :
    runTrace trace (event :: events) = trace.observe event >>= (runTrace · events) := by
  rw [runTrace, List.foldlM_cons]
  rfl

theorem runTrace_append (xs ys : List TypedEvent) :
    runTrace trace (xs ++ ys) = runTrace trace xs >>= (runTrace · ys) := by
  rw [runTrace, List.foldlM_append]
  rfl

def SessionTrace.Open (turn step : Number) : Prop :=
  trace.openTurn = some turn ∧ trace.openStep = some step

/-- **One step of the machine**: when it accepts an event of each type, and the trace it moves to. -/
theorem observe_ok_iff {trace trace' : SessionTrace} {event : TypedEvent} :
    trace.observe event = .ok trace' ↔ trace.lastSeq < event.event.seq ∧
      match event.data with
      | .turnStart turn => trace.openTurn = none ∧ turn = .int trace.nextTurn ∧
          trace' = { trace with lastSeq := event.event.seq, openTurn := some turn, nextStep := 1 }
      | .turnEnd turn => trace.openTurn = some turn ∧ trace.openStep = none ∧
          trace' = { trace with
            lastSeq := event.event.seq, openTurn := none, nextTurn := fadd trace.nextTurn 1 }
      | .stepStart turn step => trace.openTurn = some turn ∧ trace.openStep = none ∧
          step = .int trace.nextStep ∧
          trace' = { trace with lastSeq := event.event.seq, openStep := some step }
      | .stepEnd turn step => trace.Open turn step ∧
          trace' = { trace with
            lastSeq := event.event.seq, openStep := none, nextStep := fadd trace.nextStep 1
            pendingCalls := ∅ }
      | .assistantChunk turn step | .assistantMessage turn step _ => trace.Open turn step ∧
          trace' = { trace with lastSeq := event.event.seq }
      | .toolCall turn step callId => trace.Open turn step ∧
          trace' = { trace with
            lastSeq := event.event.seq, pendingCalls := insert callId trace.pendingCalls }
      | .toolResult _ _ _ false _ _ => trace.openTurn.isSome ∧
          trace' = { trace with lastSeq := event.event.seq }
      | .toolResult turn step callId true isError errorCode => trace.Open turn step ∧
          (callId ∈ trace.pendingCalls ∨ isError ∧ errorCode = some toolNotStarted) ∧
          trace' = { trace with
            lastSeq := event.event.seq, pendingCalls := trace.pendingCalls.erase callId }
      | .turnEnclosed => trace.openTurn.isSome ∧
          trace' = { trace with lastSeq := event.event.seq }
      | .other => trace' = { trace with lastSeq := event.event.seq } := by
  obtain ⟨event, wf, data, typed⟩ := event
  cases data with
  | toolResult turn step callId appended isError errorCode =>
    cases appended <;>
      simp [SessionTrace.observe, validateEvent, requireOpenStep, applyTransition,
        SessionTrace.Open, require_bind_eq_ok_iff, and_assoc, @eq_comm _ trace']
  | _ =>
    simp [SessionTrace.observe, validateEvent, requireOpenStep, applyTransition,
      SessionTrace.Open, require_bind_eq_ok_iff, and_assoc, @eq_comm _ trace']

end CocoHarness.SessionLog
