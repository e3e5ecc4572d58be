/-
# CocoHarness.SessionLog.Repair — crash-recovery repair for an interrupted session log.

`interruptedTurnClosers` scans a loaded log with bookkeeping of its own (open turn, open step, pending
calls) and returns the synthetic events that close an open tail turn: an error result for every pending
call, the step's end and the turn's end.  Seqs continue the log and timestamps reuse the last event's;
a session numbers its events by position, so the seq arithmetic is exact.
-/
import CocoHarness.Lib.InsertionMap
import CocoHarness.SessionLog.Invariant

namespace CocoHarness.SessionLog

open Lib Lib.SafeInteger

/-! ## The scan -/

/-- The step that requested the call, and the seq of its `tool/call`. -/
structure PendingCall where
  step : Number
  callSeq : Option Int := none
  deriving DecidableEq

structure RepairScan where
  openTurn : Option Number := none
  openStep : Option Number := none
  /-- Assistant blocks register calls; later `tool/call` events add their seqs. -/
  pendingCalls : InsertionMap String PendingCall := ∅

def registerCalls (step : Number) (pending : InsertionMap String PendingCall)
    (calls : List String) : InsertionMap String PendingCall :=
  calls.foldl (fun pending callId => pending.set callId { step }) pending

def RepairScan.scan (s : RepairScan) (event : TypedEvent) : RepairScan :=
  match event.data with
  | .turnStart turn => { openTurn := some turn, openStep := none, pendingCalls := ∅ }
  | .turnEnd _ => { openTurn := none, openStep := none, pendingCalls := ∅ }
  | .stepStart _ step => { s with openStep := some step }
  | .stepEnd _ _ => { s with openStep := none, pendingCalls := ∅ }
  | .assistantMessage _ step calls => { s with pendingCalls := registerCalls step s.pendingCalls calls }
  | .toolCall _ _ callId =>
    match s.pendingCalls.lookup callId with
    | some entry =>
      { s with pendingCalls := s.pendingCalls.set callId { entry with callSeq := some event.event.seq } }
    | none => s
  | .toolResult _ _ callId _ _ _ => { s with pendingCalls := s.pendingCalls.erase callId }
  | .assistantChunk _ _ | .turnEnclosed | .other => s

def scanTurns (events : List TypedEvent) : RepairScan := events.foldl RepairScan.scan {}

/-! ## The closers -/

variable (started : Bool)

def interruptedText : String :=
  if started then
    "The tool call was interrupted after it was recorded, but no result was durably recorded. "
      ++ "Its outcome is unknown. Decide whether to retry from the tool semantics: retry only if the "
      ++ "operation is read-only or idempotent; if it may have side effects, first verify external "
      ++ "state or ask the user. Do not retry blindly."
  else
    "The tool call was interrupted before the Harness recorded it as started. " ++ "Retry it if it is still needed."

def interruptedError : Json :=
  if started then
    .obj [("name", .str "ToolOutcomeUnknownError"), ("code", .str toolOutcomeUnknown)]
  else .obj [("name", .str "ToolNotStartedError"), ("code", .str toolNotStarted)]

def interruptedMessage (callId : String) (started : Bool) (seq : Int) : Json :=
  .obj [("id", .str s!"interrupted-tool-result-{callId}-{seq}"), ("role", .str "user"),
    ("source", .obj [("kind", .str "tool"), ("callId", .str callId)]),
    ("content", .arr [.obj [("type", .str "tool-result"), ("toolCallId", .str callId), ("isError", .bool true),
      ("content", .arr [.obj [("type", .str "text"), ("text", .str (interruptedText started))]])]])]

variable (turn : Number)

def interruptedResult (callId : String) (call : PendingCall) (seq time : Int) : SessionEvent where
  type := "tool/result"
  seq := seq
  time := time
  data := .obj [("turn", .num turn), ("step", .num call.step),
    ("message", interruptedMessage callId call.callSeq.isSome seq),
    ("error", interruptedError call.callSeq.isSome)]
  surfaceOp := some (.str "append")
  sourceEventSeqs := call.callSeq.map fun callSeq => SessionEvent.intArray [callSeq]

def interruptedStepEnd (turn step : Number) (seq time : Int) : SessionEvent where
  type := "step/end"
  seq := seq
  time := time
  data := .obj [("turn", .num turn), ("step", .num step)]

def interruptedTurnEnd (seq time : Int) : SessionEvent where
  type := "turn/end"
  seq := seq
  time := time
  data := .obj [("turn", .num turn), ("reason", .obj [("kind", .str "interrupted")])]

theorem interruptedError_wf : (interruptedError started).WF := by
  cases started <;> simp [interruptedError, Json.keys]

theorem interruptedMessage_wf (callId : String) (started : Bool) (seq : Int) :
    (interruptedMessage callId started seq).WF := by
  simp [interruptedMessage, Json.keys]

theorem interruptedResult_wf (callId : String) (call : PendingCall)
    (seq time : Int) : (interruptedResult turn callId call seq time).WF where
  data := by simp [interruptedResult, Json.keys, interruptedMessage_wf, interruptedError_wf]
  sourceEventSeqs := by
    intro v hv
    obtain ⟨callSeq, -, rfl⟩ := Option.map_eq_some_iff.mp hv
    simp [SessionEvent.intArray, SessionEvent.intField]
  surfaceOp := by
    intro v hv
    cases hv
    trivial

def interruptedCode : String := if started then toolOutcomeUnknown else toolNotStarted

/-- A synthetic result, with what it reads as: an appended error for the call. -/
def resultCloser (callId : String) (call : PendingCall) (seq time : Int) : TypedEvent where
  event := interruptedResult turn callId call seq time
  wf := interruptedResult_wf turn callId call seq time
  data := .toolResult turn call.step callId true true (some (interruptedCode call.callSeq.isSome))
  typed := by
    obtain ⟨step, callSeq⟩ := call
    cases callSeq <;> rfl

def stepCloser (turn step : Number) (seq time : Int) : TypedEvent where
  event := interruptedStepEnd turn step seq time
  wf := ⟨by simp [interruptedStepEnd, Json.keys], nofun, nofun⟩
  data := .stepEnd turn step
  typed := rfl

def turnCloser (seq time : Int) : TypedEvent where
  event := interruptedTurnEnd turn seq time
  wf := ⟨by simp [interruptedTurnEnd, Json.keys], nofun, nofun⟩
  data := .turnEnd turn
  typed := rfl

/-- The results of the pending calls, in registration order, from `seq` on. -/
def resultClosers (turn : Number) (time : Int) : Int → List (String × PendingCall) → List TypedEvent
  | _, [] => []
  | seq, (callId, call) :: rest => resultCloser turn callId call seq time :: resultClosers turn time (seq + 1) rest

/-- The ends of the open step, if one is open, and of the open turn. -/
def boundaryClosers (openStep : Option Number) (seq time : Int) : List TypedEvent :=
  match openStep with
  | some step => [stepCloser turn step seq time, turnCloser turn (seq + 1) time]
  | none => [turnCloser turn seq time]

def interruptedTurnClosers (events : List TypedEvent) : List TypedEvent :=
  let s := scanTurns events
  match s.openTurn, events.getLast? with
  | some turn, some last =>
    let seq := last.event.seq + 1
    let calls := s.pendingCalls.entries
    -- Calls close before their step: providers reject dangling assistant calls.
    resultClosers turn last.event.time seq calls
      ++ boundaryClosers turn s.openStep (seq + calls.length) last.event.time
  | _, _ => []

end CocoHarness.SessionLog
