/-
# CocoHarness.SessionLog.TypedEvent — events whose data has its static type.

The trackers of turns, steps and tool calls read event data through the static types of
`SessionEventMap`.  `EventData` is what they read of each core type, `eventData?` reads it off the JSON
data, and a `TypedEvent` is an event together with its reading, so that an event whose data does not
have the type its `type` promises cannot be built.
-/
import CocoHarness.SessionLog.Admission

namespace CocoHarness.SessionLog

open Lib

inductive EventData where
  | turnStart (turn : Number)
  | turnEnd (turn : Number)
  | stepStart (turn step : Number)
  | stepEnd (turn step : Number)
  | assistantChunk (turn step : Number)
  /-- An assistant message, with the ids of its tool-call blocks in order. -/
  | assistantMessage (turn step : Number) (toolCalls : List String)
  | toolCall (turn step : Number) (callId : String)
  /-- Whether its `surfaceOp` is `'append'`, whether it is an error, and the code of its failure. -/
  | toolResult (turn step : Number) (callId : String) (appended isError : Bool)
      (errorCode : Option String)
  /-- A todo list, request header or request context. -/
  | turnEnclosed
  /-- Any other event. -/
  | other
  deriving DecidableEq

/-! ## Reading -/

def numberField? (value : Option Json) (key : String) : Option Number := (field? value key).bind Json.num?

def stringField? (value : Option Json) (key : String) : Option String := (field? value key).bind Json.str?

def toolCallIds? : List Json → Option (List String)
  | [] => some []
  | block :: rest => do
    let type ← stringField? (some block) "type"
    let ids ← toolCallIds? rest
    if type = "tool-call" then return (← stringField? (some block) "id") :: ids
    else return ids

/-- The content blocks of the message in a message event's data. -/
def contentBlocks? (data : Json) : Option (List Json) :=
  (field? (field? (some data) "message") "content").bind Json.arr?

def eventData? (event : SessionEvent) : Option EventData :=
  let data := some event.data
  match event.type with
  | "turn/start" => do return .turnStart (← numberField? data "turn")
  | "turn/end" => do return .turnEnd (← numberField? data "turn")
  | "step/start" => do return .stepStart (← numberField? data "turn") (← numberField? data "step")
  | "step/end" => do return .stepEnd (← numberField? data "turn") (← numberField? data "step")
  | "assistant/chunk" => do
    return .assistantChunk (← numberField? data "turn") (← numberField? data "step")
  | "assistant/message" => do
    let blocks ← contentBlocks? event.data
    return .assistantMessage (← numberField? data "turn") (← numberField? data "step")
      (← toolCallIds? blocks)
  | "tool/call" => do
    return .toolCall (← numberField? data "turn") (← numberField? data "step")
      (← stringField? data "callId")
  | "tool/result" => do
    let blocks ← contentBlocks? event.data
    return .toolResult (← numberField? data "turn") (← numberField? data "step")
      (← stringField? (field? (field? data "message") "source") "callId")
      (event.surfaceOp = some (.str "append"))
      (field? (← blocks.head?) "isError" = some (.bool true))
      (stringField? (field? data "error") "code")
  | "todo/write" | "request/header" | "request/context" => some .turnEnclosed
  | _ => some .other

/-- An event with well-formed values whose data has the static type of its event type. -/
structure TypedEvent where
  event : SessionEvent
  wf : event.WF
  data : EventData
  typed : eventData? event = some data

end CocoHarness.SessionLog
