/-
# CocoHarness.Agent.ToolCalls — one assistant step's tool calls, scheduled.

Exclusive calls form barriers; parallel calls use a bounded rolling pool and are reclassified before they start.
Abort stops starts, drains what was started and records synthetic results for the rest; a scheduler failure drains
and rejects.

What it calls is not part of it: the classes read from the tool registry, what a call prepares to, how and in which
order dispatches settle, what the post-policy makes of a result, and whether an append or a listener throws are
chosen by the action taken.
-/
import CocoHarness.Lib.Machine
import CocoHarness.SessionLog.JsonValue

namespace CocoHarness.Agent

open Lib SessionLog

/-! ## Data -/

structure ToolCallBlock where
  id : String
  name : String
  arguments : String

inductive ToolExecutionMode where
  | parallel
  | exclusive
  deriving DecidableEq

/-- The result the call came to, or the synthetic error of a skipped call. -/
inductive ToolOutcome (Result : Type) where
  | settled (result : Result)
  | abortedBeforeDispatch

/-- The log, as far as it is about this step's calls; `index` is the place of the call in the model's order. -/
inductive ToolEvent (Result : Type) where
  | call (index : Nat) (block : ToolCallBlock)
  | result (index : Nat) (callId : String) (callSeq : Nat) (outcome : ToolOutcome Result)
  | other

structure Slot (Result : Type) where
  result : Result
  needsPost : Bool

inductive Point where
  /-- `executeToolCalls` at the head of its loop. -/
  | select
  /-- `fillPool` at the head of its loop. -/
  | fill
  /-- `startCall`, awaiting the pre-execute policy. -/
  | prepare
  /-- `commitReady` at the head of its loop. -/
  | commit
  /-- `runGroup` at the head of its loop, or awaiting a settlement in it. -/
  | race
  /-- `runGroup` in its `catch`, awaiting every started dispatch. -/
  | drain
  /-- Recording results for the calls skipped after an abort. -/
  | skip
  | returned
  | threw (error : JsError)
  deriving DecidableEq

structure Scheduler (Result : Type) where
  planned : List ToolCallBlock
  maxParallelToolCalls : Nat
  log : List (ToolEvent Result)
  point : Point := .select
  /-- `signal.aborted`. -/
  signalAborted : Bool := false
  /-- The first call of the current group, and the first one after it. -/
  base : Nat := 0
  groupEnd : Nat := 0
  mode : ToolExecutionMode := .exclusive
  nextToStart : Nat := 0
  /-- How many calls are logged, and how many results. -/
  started : Nat := 0
  committed : Nat := 0
  aborted : Bool := false
  concluded : Bool := false
  schedulerFailure : Option JsError := none
  slots : Nat → Option (Slot Result) := fun _ => none
  callSeqs : Nat → Nat := fun _ => 0
  inFlight : List Nat := []
  /-- The dispatches that have not settled. -/
  running : List Nat := []
  /-- The class each call was last read as before it started. -/
  startedAs : Nat → ToolExecutionMode := fun _ => .exclusive

inductive Prepared (Result : Type) where
  | dispatch
  | postResult (result : Result)
  | finalResult (result : Result)

/-- What publishing a settled call comes to: a throw may come before the result is logged, or after it. -/
inductive Published (Result : Type) where
  | threw (error : JsError)
  | result (result : Result) (concludesTurn : Bool) (accepted : Except JsError Unit)

abbrev Settlement (Result : Type) := Except JsError (Slot Result)

namespace Scheduler

variable {Result : Type}

/-! ## The steps of the scheduler -/

variable (s : Scheduler Result)

/-- A throw inside `runGroup`: the first failure stays, and what was started is awaited. -/
def fail (error : JsError) : Scheduler Result :=
  { s with schedulerFailure := s.schedulerFailure.or (some error), point := .drain }

def throwSchedulerFailure (next : Scheduler Result) : Scheduler Result :=
  match s.schedulerFailure with
  | some error => s.fail error
  | none => next

/-- The next group: an exclusive call alone, or everything left. -/
def select (mode : Except JsError ToolExecutionMode) : Scheduler Result :=
  if s.planned.length ≤ s.started then { s with point := .returned }
  else
    match mode with
    | .error error => { s with point := .threw error }
    | .ok mode =>
      { s with
        base := s.started
        groupEnd := if mode = .parallel then s.planned.length else s.started + 1
        mode
        nextToStart := s.started
        aborted := s.signalAborted
        point := .fill }

def startCall (appended : Except JsError Unit) : Scheduler Result :=
  match s.planned[s.nextToStart]?, appended with
  | some block, .ok () =>
    { s with
      log := s.log ++ [.call s.nextToStart block]
      callSeqs := Function.update s.callSeqs s.nextToStart s.log.length
      startedAs := Function.update s.startedAs s.nextToStart s.mode
      started := s.started + 1
      point := .prepare }
  | _, .error error => s.fail error
  | none, .ok () => s.fail (.typeError "undefined" "block")

/-- `fillPool`: start the next call when there is room and its class still allows. -/
def fillPool (mode : Except JsError ToolExecutionMode) (appended : Except JsError Unit) : Scheduler Result :=
  if s.aborted ∨ s.groupEnd ≤ s.nextToStart ∨ s.maxParallelToolCalls ≤ s.inFlight.length then
    { s with point := .race }
  else if s.base < s.nextToStart ∧ s.mode = .parallel then
    match mode with
    | .error error => s.fail error
    | .ok .exclusive => { s with point := .race }
    | .ok .parallel => s.startCall appended
  else s.startCall appended

def prepared (outcome : Except JsError (Prepared Result)) : Scheduler Result :=
  match outcome with
  | .error error => s.fail error
  | .ok prepared =>
    let next := { s with nextToStart := s.nextToStart + 1, point := .commit }
    s.throwSchedulerFailure <|
      match prepared with
      | .dispatch => { next with inFlight := s.inFlight ++ [s.nextToStart], running := s.running ++ [s.nextToStart] }
      | .postResult result =>
        { next with slots := Function.update s.slots s.nextToStart (some { result, needsPost := true }) }
      | .finalResult result =>
        { next with slots := Function.update s.slots s.nextToStart (some { result, needsPost := false }) }

/-- `commitReady`: publish the next result in order, or go back to fill the pool. -/
def commitReady (published : Published Result) : Scheduler Result :=
  match (if s.committed < s.groupEnd then s.slots s.committed else none), s.planned[s.committed]? with
  | some _, some block =>
    match published with
    | .threw error => s.fail error
    | .result result concludesTurn accepted =>
      let s := { s with log := s.log ++
        [ToolEvent.result s.committed block.id (s.callSeqs s.committed) (.settled result)] }
      match accepted with
      -- the result is logged, though the group ends before it counts it
      | .error error => { s with committed := s.committed + 1 }.fail error
      | .ok () => { s with committed := s.committed + 1, concluded := s.concluded || concludesTurn }
  | _, _ => s.throwSchedulerFailure { s with aborted := s.aborted || s.signalAborted, point := .fill }

def endGroup : Scheduler Result :=
  if s.aborted then { s with point := .skip }
  else if s.committed ≠ s.started then
    { s with point := .threw (.error "tool-call scheduler: uncommitted settled calls") }
  else { s with point := .select }

def race (index : Nat) : Scheduler Result :=
  let s := { s with inFlight := s.inFlight.erase index }
  s.throwSchedulerFailure { s with point := .commit }

/-- `appendSkippedToolCall` for the next call, until none is left. -/
def skip (call result : Except JsError Unit) : Scheduler Result :=
  match s.planned[s.started]? with
  | none => { s with point := .returned }
  | some block =>
    match call with
    | .error error => { s with point := .threw error }
    | .ok () =>
      let logged := { s with log := s.log ++ [ToolEvent.call s.started block], started := s.started + 1 }
      match result with
      | .error error => { logged with point := .threw error }
      | .ok () =>
        { logged with
          log := logged.log ++ [ToolEvent.result s.started block.id s.log.length .abortedBeforeDispatch]
          committed := s.committed + 1 }

def settle (index : Nat) (outcome : Settlement Result) : Scheduler Result :=
  let s := { s with running := s.running.erase index }
  match outcome with
  | .ok slot => { s with slots := Function.update s.slots index (some slot) }
  | .error error => { s with schedulerFailure := s.schedulerFailure.or (some error) }

end Scheduler

/-! ## Actions -/

/-- What the scheduler does next, with what it is answered, and what happens around it. -/
inductive ToolAct (Result : Type) where
  | select (mode : Except JsError ToolExecutionMode)
  | fill (mode : Except JsError ToolExecutionMode) (appended : Except JsError Unit)
  | prepared (outcome : Except JsError (Prepared Result))
  | commit (published : Published Result)
  /-- `Promise.race` gives a settled dispatch, if any is in flight. -/
  | race (index : Nat)
  | drained
  | skip (call result : Except JsError Unit)
  | settle (index : Nat) (outcome : Settlement Result)
  | abort
  | other

def ToolAct.own {Result : Type} : ToolAct Result → Bool
  | .settle _ _ | .abort | .other => false
  | _ => true

namespace Scheduler

variable {Result : Type}

def step (s : Scheduler Result) : ToolAct Result → Option (Scheduler Result)
  | .select mode => if s.point = .select then some (s.select mode) else none
  | .fill mode appended => if s.point = .fill then some (s.fillPool mode appended) else none
  | .prepared outcome => if s.point = .prepare then some (s.prepared outcome) else none
  | .commit published => if s.point = .commit then some (s.commitReady published) else none
  | .race index =>
    if s.point = .race then
      if s.inFlight = [] then some s.endGroup
      else if index ∈ s.inFlight ∧ index ∉ s.running then some (s.race index)
      else none
    else none
  | .drained =>
    match s.schedulerFailure with
    | some error => if s.point = .drain ∧ s.running = [] then some { s with point := .threw error } else none
    | none => none
  | .skip call result => if s.point = .skip then some (s.skip call result) else none
  | .settle index outcome => if index ∈ s.running then some (s.settle index outcome) else none
  | .abort => some { s with signalAborted := true }
  | .other => some { s with log := s.log ++ [.other] }

/-- `executeToolCalls` is called, on a log with that many events. -/
def init (planned : List ToolCallBlock) (maxParallelToolCalls before : Nat) : Scheduler Result :=
  { planned, maxParallelToolCalls, log := List.replicate before .other }

end Scheduler

end CocoHarness.Agent
