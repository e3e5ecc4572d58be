/-
# CocoHarness.SessionLog.Surface — the ordered view of the events that produce LLM messages.

The surface is a list of event seqs.  A surface event either appends itself or takes the place of a
contiguous range of the current list, under rules on what it must cite (`assertProvenance`) and, for
a tool result, on what it may change (`assertToolResultRewrite`).  `planSurfaceEvent` validates one
event against the current state without touching it, `applySurfacePlan` commits the outcome, and
`foldSurface` replays a log through both.
-/
import CocoHarness.Lib.Fallible
import CocoHarness.SessionLog.Event

namespace CocoHarness.SessionLog

open Lib Lib.SafeInteger

/-! ## Surface events -/

def surfaceEventTypes : List String := ["user/message", "assistant/message", "tool/result"]

def isSurfaceEligibleType (type : String) : Bool := surfaceEventTypes.contains type

variable (event : SessionEvent)

/-- Whether both the type and the marker identify a surface event. -/
def isSurfaceEvent : Bool := isSurfaceEligibleType event.type && event.surfaceOp.isSome

/-- The LLM message an event derives to; none of an empty assistant message, which only hosts usage. -/
def deriveEventMessage : Except JsError (Option Json) :=
  if event.type = "user/message" then .ok (some event.data)
  else if event.type = "assistant/message" then do
    let message ← jsGet (some event.data) "message"
    let length ← jsGet (← jsGet message "content") "length"
    return if length = some (.num (.int 0)) then none else message
  else if event.type = "tool/result" then jsGet (some event.data) "message"
  else .ok none

/-! ## Fold state and transitions -/

inductive SurfaceOp where
  | append
  /-- Replace the inclusive range between two current nodes. -/
  | replace (start stop : Int)
  deriving DecidableEq

/-- One replacement operation observed while folding a session surface. -/
structure SurfaceFoldReplacement where
  /-- Seq of the event that replaced the prior surface range. -/
  seq : Int
  start : Int
  stop : Int
  /-- Actual surface entries removed by the operation, in surface order. -/
  shadowedSeqs : List Int
  deriving DecidableEq

structure SurfaceFoldState where
  nodes : List Int := []
  replaceGeneration : Nat := 0
  deriving DecidableEq

/-- One validated surface transition that has not mutated fold state yet. -/
inductive SurfacePlan where
  | append (seq : Int)
  | replace (replacement : SurfaceFoldReplacement) (startIdx endIdx : Nat)
  deriving DecidableEq

/-- Complete result of replaying the surface operations in a session log. -/
structure SurfaceFoldResult where
  nodes : List Int
  replacements : List SurfaceFoldReplacement
  deriving DecidableEq

/-! ## Validation -/

def eventSeq? (v : Json) : Option Int := (safeInt? v).filter (0 ≤ ·)

def replaceOp? (op : List (String × Json)) : Option SurfaceOp :=
  if op.length = 3 ∧ op.lookup "op" = some (.str "replace") then do
    let start ← (op.lookup "start").bind eventSeq?
    let stop ← (op.lookup "end").bind eventSeq?
    return .replace start stop
  else none

/-- Validate event-local surface eligibility and return its operation. -/
def surfaceOpOf : Except JsError (Option SurfaceOp) :=
  if ¬ isSurfaceEligibleType event.type then
    if event.surfaceOp.isSome then
      .error (.error s!"session event \"{event.type}\" is not surface-eligible and cannot carry surfaceOp")
    else if event.sourceEventSeqs.isSome then
      .error (.error s!"session event \"{event.type}\" is not surface-eligible and cannot carry sourceEventSeqs")
    else .ok none
  else
    match event.surfaceOp with
    | none => .error (.error s!"session event \"{event.type}\" is surface-eligible and requires a surfaceOp marker")
    | some (.str "append") => .ok (some .append)
    | some (.obj op) =>
      match replaceOp? op with
      | some op => .ok (some op)
      | none => .error (.error s!"session event \"{event.type}\" carries an invalid replace surfaceOp")
    | some _ => .error (.error s!"session event \"{event.type}\" carries an invalid surfaceOp")

/-- Read the cited seqs of an event: distinct earlier event seqs. -/
def citedSources : Except JsError (List Int) :=
  match event.sourceEventSeqs with
  | none => .ok []
  | some raw =>
    match raw.arr? with
    | none => .error (.error s!"sourceEventSeqs on event at seq {event.seq} must be an array when present")
    | some raw =>
      if raw = [] ∧ event.type ≠ "assistant/message" then
        .error (.error "sourceEventSeqs must not be empty except on assistant/message")
      else
        match raw.mapM eventSeq? with
        | none => .error (.error (s!"session event \"{event.type}\" sourceEventSeqs must densely "
            ++ "contain non-negative safe integers"))
        | some sources =>
          if ¬ sources.Nodup then
            .error (.error "sourceEventSeqs must not contain duplicates")
          else
            match sources.find? (event.seq ≤ ·) with
            | some source => .error (.error (s!"sourceEventSeqs must reference earlier events: "
                ++ s!"{source} >= current seq {event.seq}"))
            | none => .ok sources

/-- Validate cited source-event seqs against prior log entries and the replacement range. -/
def assertProvenance (shadowedSeqs : List Int) : Except JsError Unit := do
  let sources ← citedSources event
  let missing := shadowedSeqs.filter (· ∉ sources)
  if missing = [] then return ()
  else throw (.error ("surface replace: sourceEventSeqs must include every shadowed surface node; "
    ++ "missing " ++ ", ".intercalate (missing.map toString)))

structure SurfaceRange where
  startIdx : Nat
  endIdx : Nat
  shadowedSeqs : List Int

/-- Locate one replacement range without mutating the current fold state. -/
def replacementRange (state : SurfaceFoldState) (start stop : Int) : Except JsError SurfaceRange :=
  match state.nodes.idxOf? start with
  | none => .error (.error s!"surface replace: start seq {start} not found in surface")
  | some startIdx =>
    match state.nodes.idxOf? stop with
    | none => .error (.error s!"surface replace: end seq {stop} not found in surface")
    | some endIdx =>
      if endIdx < startIdx then
        .error (.error (s!"surface replace: start seq {start} (index {startIdx}) is after "
          ++ s!"end seq {stop} (index {endIdx})"))
      else .ok { startIdx, endIdx, shadowedSeqs := (state.nodes.take (endIdx + 1)).drop startIdx }

mutual

/-- Deep structural equality over the session-event JSON value domain. -/
def isDeepEqualJson : Json → Json → Bool
  | .arr xs, .arr ys => isDeepEqualElements xs ys
  | .obj fs, .obj gs => fs.length == gs.length && isDeepEqualFields fs gs
  | .null, .null => true
  | .bool a, .bool b => a == b
  | .num a, .num b => a == b
  | .str a, .str b => a == b
  | _, _ => false

def isDeepEqualElements : List Json → List Json → Bool
  | [], [] => true
  | x :: xs, y :: ys => isDeepEqualJson x y && isDeepEqualElements xs ys
  | _, _ => false

def isDeepEqualFields : List (String × Json) → List (String × Json) → Bool
  | [], _ => true
  | (k, v) :: fs, gs =>
    (match gs.lookup k with
      | some w => isDeepEqualJson v w
      | none => false) && isDeepEqualFields fs gs

end

/-- The event at a relative log position, `none` outside the log. -/
def eventAt (events : List SessionEvent) (index : Int) : Option SessionEvent :=
  if 0 ≤ index then events[index.toNat]? else none

/-- An event's data with the content of its first content block blanked. -/
def resultRest (data : Json) : Except JsError Json := do
  let message ← jsGet (some data) "message"
  let result ← jsGet (← jsGet message "content") "0"
  let blanked := JsonText.setField (ownFields result) "content" .null
  let message := JsonText.setField (ownFields message) "content" (.arr [.obj blanked])
  return .obj (JsonText.setField (ownFields (some data)) "message" (.obj message))

/-- Restrict a tool-result replacement to one current result's content. -/
def assertToolResultRewrite (event : SessionEvent) (shadowedSeqs : List Int)
    (events : List SessionEvent) (baseSeq : Int) : Except JsError Unit :=
  if event.type ≠ "tool/result" then .ok ()
  else
    match shadowedSeqs with
    | [originalSeq] =>
      match (eventAt events (originalSeq - baseSeq)).filter (·.type = "tool/result") with
      | none => .error (.error "tool/result surface replacement must target a current tool/result")
      | some original => do
        let originalRest ← resultRest original.data
        let replacementRest ← resultRest event.data
        if isDeepEqualJson originalRest replacementRest then return ()
        else throw (.error "tool/result surface replacement may change only content")
    | _ => .error (.error "tool/result surface replacement must rewrite exactly one current node")

/-! ## One event -/

variable (state : SurfaceFoldState)

/-- Validate one event at its replay boundary and prepare its atomic fold transition. -/
def planSurfaceEvent (event : SessionEvent) (expectedSeq : Int)
    (events : List SessionEvent) (baseSeq : Int) : Except JsError (Option SurfacePlan) :=
  if event.seq ≠ expectedSeq then
    .error (.error s!"session event seq {event.seq} is not contiguous; expected {expectedSeq}")
  else do
    match ← surfaceOpOf event with
    | none => return none
    | some .append =>
      assertProvenance event []
      return some (.append event.seq)
    | some (.replace start stop) =>
      let range ← replacementRange state start stop
      assertProvenance event range.shadowedSeqs
      assertToolResultRewrite event range.shadowedSeqs events baseSeq
      return some (.replace { seq := event.seq, start, stop, shadowedSeqs := range.shadowedSeqs }
        range.startIdx range.endIdx)

/-- Commit one previously validated surface transition, and report the replacement it made. -/
def applySurfacePlan : Option SurfacePlan → SurfaceFoldState × Option SurfaceFoldReplacement
  | none => (state, none)
  | some (.append seq) => ({ state with nodes := state.nodes ++ [seq] }, none)
  | some (.replace replacement startIdx endIdx) =>
    ({ nodes := state.nodes.take startIdx ++ replacement.seq :: state.nodes.drop (startIdx + (endIdx - startIdx + 1))
       replaceGeneration := state.replaceGeneration + 1 }, some replacement)

/-- Apply one event and return replacement metadata only when one occurred. -/
def applySurfaceEvent (event : SessionEvent) (expectedSeq : Int) (events : List SessionEvent) (baseSeq : Int) :
    Except JsError (SurfaceFoldState × Option SurfaceFoldReplacement) := do
  let plan ← planSurfaceEvent state event expectedSeq events baseSeq
  return applySurfacePlan state plan

/-! ## A whole log -/

def foldSurfaceLoop (events : List SessionEvent) :
    Nat → SurfaceFoldState → List SurfaceFoldReplacement → List SessionEvent →
      Except JsError (SurfaceFoldState × List SurfaceFoldReplacement)
  | _, state, replacements, [] => .ok (state, replacements)
  | index, state, replacements, event :: rest => do
    let (state, replacement) ← applySurfaceEvent state event index events 0
    foldSurfaceLoop events (index + 1) state (replacements ++ replacement.toList) rest

/-- Replay a complete session log through the canonical surface fold. -/
def foldSurface (events : List SessionEvent) : Except JsError SurfaceFoldResult := do
  let (state, replacements) ← foldSurfaceLoop events 0 {} [] events
  return { nodes := state.nodes, replacements }

end CocoHarness.SessionLog
