/-
# CocoHarness.SessionLog.Admission — what an event must look like to enter a session.

A live append checks the request-header vocabulary and the surface contract; the constructor, which takes events from
storage or another session, checks the whole envelope and the shape of messages and request headers on top.
-/
import CocoHarness.Lib.Fallible
import CocoHarness.SessionLog.Event

namespace CocoHarness.SessionLog

open Lib Lib.SafeInteger

/-- `value?.[key]` on a value that may be missing or no record: `none` reads as `undefined`. -/
def field? (value : Option Json) (key : String) : Option Json := value.bind (·.get? key)

def nonEmptyStr? (value : Option Json) : Option String := (value.bind Json.str?).filter (· ≠ "")

def require (condition : Bool) (message : String) : Except JsError Unit :=
  if condition then .ok () else .error (.error message)

@[simp] theorem require_eq_ok {condition : Bool} {message : String} :
    require condition message = .ok () ↔ condition = true := by
  cases condition <;> simp [require]

theorem require_bind_eq_ok_iff {β : Type} {condition : Bool} {message : String} {f : Unit → Except JsError β} {b : β} :
    (require condition message >>= f) = .ok b ↔ condition = true ∧ f () = .ok b := by
  cases condition <;> simp [require]

/-- Whether an unknown value carries the current provider/model pair. -/
def hasProviderModel (value : Option Json) : Bool :=
  (nonEmptyStr? (field? value "provider")).isSome && (nonEmptyStr? (field? value "model")).isSome

/-! ## Messages -/

/-- The message of a message-producing event: the data itself for a user message. -/
def messageOf (type : String) (data : Json) : Option Json :=
  if type = "user/message" then some data else field? (some data) "message"

/-- The tool-result rules: a tool source, one tool-result block, matching call ids. -/
def assertToolResultShape (source : Option Json) (content : List Json) (subject : String) : Except JsError Unit := do
  let callId := nonEmptyStr? (field? source "callId")
  require (field? source "kind" = some (.str "tool") && callId.isSome)
    s!"{subject} message must have tool source"
  let block := content.head?
  require (content.length = 1 && field? block "type" = some (.str "tool-result")
      && ((field? block "content").bind Json.arr?).isSome)
    s!"{subject} message must contain one tool-result block"
  require (field? block "toolCallId" = field? source "callId")
    s!"{subject} message has mismatched tool call ids"

/-- Validate only the event-specific invariants needed to safely replay a message. -/
def assertMessageEventShape (type : String) (data : Json) (subject : String) : Except JsError Unit :=
  if type ≠ "user/message" ∧ type ≠ "assistant/message" ∧ type ≠ "tool/result" then .ok ()
  else do
    let message := messageOf type data
    require (nonEmptyStr? (field? message "id")).isSome s!"{subject} lacks an identified message"
    let expectedRole := if type = "assistant/message" then "assistant" else "user"
    require (field? message "role" = some (.str expectedRole))
      s!"{subject} message must have role \"{expectedRole}\""
    let source := field? message "source"
    require (nonEmptyStr? (field? source "kind")).isSome s!"{subject} message has invalid source"
    match (field? message "content").bind Json.arr? with
    | none => throw (.error s!"{subject} message has invalid content")
    | some content =>
      if type = "assistant/message" then
        require (field? source "kind" = some (.str "model") && hasProviderModel source)
          s!"{subject} message must have model source"
      else if type = "tool/result" then assertToolResultShape source content subject
      else return ()

/-! ## Request headers -/

def allowedAdapterKeys : List String := ["reasoningEffort", "maxTokens"]

/-- Validate adapter-default markers imported from a durable request header. -/
def assertAdapterDefaults (value config : Option Json) (index : Nat) : Except JsError Unit :=
  match value with
  | none => .ok ()
  | some (.obj defaults) =>
    require (defaults.all (fun f => allowedAdapterKeys.contains f.1) && defaults.all (fun f => f.2 = .bool true)
        && !(defaults.lookup "reasoningEffort" = some (.bool true) && (field? config "reasoningEffort").isNone)
        && !(defaults.lookup "maxTokens" = some (.bool true) && (field? config "maxTokens").isNone))
      s!"seed request/header at index {index} has invalid adapterDefaults"
  | some _ => .error (.error s!"seed request/header at index {index} has invalid adapterDefaults")

def assertRequestHeaderShape (data : Json) (index : Nat) : Except JsError Unit := do
  let header := field? (some data) "header"
  let config := field? header "config"
  require (hasProviderModel config) s!"seed request/header at index {index} lacks provider/model"
  let reasoningEffort := field? config "reasoningEffort"
  require (reasoningEffort.isNone || (nonEmptyStr? reasoningEffort).isSome)
    s!"seed request/header at index {index} has an invalid reasoningEffort"
  assertAdapterDefaults (field? header "adapterDefaults") config index

/-- Reject obsolete request headers and malformed messages at the seed/load boundary. -/
def assertCurrentLlmShape (type : String) (data : Json) (index : Nat) : Except JsError Unit := do
  if type = "request/header" then assertRequestHeaderShape data index
  assertMessageEventShape type data s!"seed {type} at index {index}"

/-! ## Envelopes -/

def envelopeKeys : List String := ["type", "seq", "time", "data", "surfaceOp", "sourceEventSeqs", "ignorable"]

/-- Read the fixed envelope of a parsed event: exactly the known fields, with their types. -/
def readEnvelope (value : Json) : Option SessionEvent := do
  let fields ← value.obj?
  guard (fields.all fun f => envelopeKeys.contains f.1)
  let type ← (← value.get? "type").str?
  let seq ← ((← value.get? "seq") |> safeInt?).filter (0 ≤ ·)
  let time ← safeInt? (← value.get? "time")
  let data ← value.get? "data"
  guard (value.get? "ignorable" = none ∨ value.get? "ignorable" = some (.bool true))
  return { type, seq, time, data
           sourceEventSeqs := value.get? "sourceEventSeqs"
           surfaceOp := value.get? "surfaceOp"
           ignorable := (value.get? "ignorable").isSome }

/-- Validate the fixed event envelope after one-pass JSON materialization. -/
def assertSessionEventEnvelope (value : Json) (index : Nat) : Except JsError SessionEvent :=
  if value = .null then .error (.typeError "null" "type")
  else if value.get? "type" = some (.str "request/header-delta") then
    .error (.error s!"seed event at index {index} uses unsupported legacy request/header-delta format")
  else
    match readEnvelope value with
    | none => .error (.error s!"seed event at index {index} has an invalid event envelope")
    | some event => do
      assertCurrentLlmShape event.type event.data index
      return event

/-- Reject request-header vocabulary removed with the legacy delta codec. -/
def assertSupportedRequestHeader (type : String) (data : Json) (location : String) : Except JsError Unit :=
  if type = "request/header-delta" then
    .error (.error s!"{location} uses unsupported legacy request/header-delta format")
  else if type = "request/header" ∧ data.get? "reason" = some (.str "fallback") then
    .error (.error s!"{location} uses unsupported legacy request/header reason \"fallback\"")
  else .ok ()

end CocoHarness.SessionLog
