/-
# CocoHarness.Agent.Driver — the driver of an agent: turns, steps and wake-ups.

A driver runs turns while its inbox holds work.  A turn proposes steps, each a model request with its tool calls,
until the model is answered and no steering waits; then the driver goes idle.

The driver is suspended at one `Point` at a time, and everything others do happens between its actions: sends and
other splices of the inbox, cancellation, maintenance, and what listeners do when they are called.  What the driver
is answered is chosen by the action taken: whether the session takes an event, what assembly, listeners, the model
and its stream come to, and, through the scheduler, what the tools do.
-/
import CocoHarness.Agent.ToolCalls
import CocoHarness.Agent.Inbox

namespace CocoHarness.Agent

open Lib Lib.SafeInteger SessionLog

/-! ## Data -/

inductive CancelCause where
  | user
  | parent
  | hook (reason : String)
  | disposed
  deriving DecidableEq

inductive TurnEndReason where
  | completed
  | maxTokens
  | blocked
  | aborted (cause : CancelCause)
  | error (error : JsError)
  deriving DecidableEq

inductive StepEndReason where
  | completed
  | maxTokens
  deriving DecidableEq

def StepEndReason.toTurnEnd : StepEndReason → TurnEndReason
  | .completed => .completed
  | .maxTokens => .maxTokens

/-- How the model finished: a failure, the output-token ceiling, or anything else. -/
inductive FinishReason where
  | failed (error : JsError)
  | maxTokens
  | stop
  deriving DecidableEq

abbrev MessageId := String

inductive PreStepDecision where
  | reject
  | enter (messages : List MessageId)
  deriving DecidableEq

inductive DriverEvent where
  | turnStart (turn : Int)
  | turnEnd (turn : Int) (reason : TurnEndReason)
  | stepStart (turn step : Int)
  | stepEnd (turn step : Int)
  | userMessage (message : MessageId)
  /-- A `request/header` or a `request/context`. -/
  | request
  | assistantChunk (turn step : Int)
  | assistantMessage (turn step : Int) (toolCalls : List String) (truncated : Bool)
  | toolCall (turn step : Int) (callId : String)
  | toolResult (turn step : Int) (callId : String)
  | spliced (target : InboxTarget) (start removedCount : Nat) (inserted : List MessageId)
      (canceled : Bool)
  | other
  deriving DecidableEq

inductive Moment where
  | appended (event : DriverEvent)
  /-- The derived messages are sent to the model. -/
  | requested
  /-- A batch of tool calls concluded the turn. -/
  | concluded
  deriving DecidableEq

/-! ## The pending messages -/

structure Queues where
  nextTurn : List MessageId := []
  nextStep : List MessageId := []
  deriving DecidableEq

namespace Queues

variable (q : Queues)

def list : InboxTarget → List MessageId
  | .nextTurn => q.nextTurn
  | .nextStep => q.nextStep

def set (target : InboxTarget) (messages : List MessageId) : Queues :=
  match target with
  | .nextTurn => { q with nextTurn := messages }
  | .nextStep => { q with nextStep := messages }

def pending : List MessageId := q.nextTurn ++ q.nextStep

def hasPending : Bool := q.nextTurn ≠ [] || q.nextStep ≠ []

end Queues

/-! ## The state -/

inductive PhaseKind where
  | idle
  | maintenance
  | running
  deriving DecidableEq

/-- `turn` is the last one of an agent that is not running, `abort` the reason of the phase's aborted signal. -/
structure Phase where
  kind : PhaseKind := .idle
  turn : Int
  step : Int := 0
  abort : Option CancelCause := none
  wakeRequested : Bool := false
  deriving DecidableEq

inductive DriverPoint (Result : Type) where
  /-- No driver runs. -/
  | rest
  /-- `turn` is called. -/
  | begin
  /-- The head of its loop. -/
  | head
  /-- `preStep`, awaiting the assembly and the listeners on the claimed messages. -/
  | preStep (claimed : List MessageId)
  /-- The step is open, and its messages are being logged. -/
  | entering (messages : List MessageId)
  /-- `buildRequest`, awaiting the configuration and the adapter. -/
  | building
  /-- The request is built. -/
  | dispatching
  /-- Awaiting the stream. -/
  | streaming
  /-- Awaiting the listeners on a failed request. -/
  | recovering (error : JsError)
  | tools (scheduler : Scheduler Result)
  /-- `step` came to its end or threw, and the step is still open. -/
  | closing (outcome : Except JsError (Option StepEndReason))
  /-- The step is closed. -/
  | closed (outcome : Except JsError Unit)
  /-- Awaiting the listeners on the stopping turn. -/
  | stopping
  /-- The body of `turn` threw. -/
  | caught (error : JsError)
  /-- The turn is to end for the reason, and the driver with it. -/
  | failing (reason : TurnEndReason)
  /-- The turn has ended, and the inbox is still to be looked at. -/
  | ended
  /-- `turn` returned `false` or threw. -/
  | leaving

structure Driver (Result : Type) where
  maxParallelToolCalls : Nat
  phase : Phase
  inbox : Queues := {}
  moments : List Moment := []
  point : DriverPoint Result := .rest
  /-- The locals of `turn`. -/
  target : InboxTarget := .nextTurn
  turnEnds : Option StepEndReason := none
  /-- The sends whose wake is still to come, each with what it was classified as. -/
  wakes : List Bool := []
  /-- The latch of a driver that has set the idle phase and is still to replay it. -/
  converging : Option Bool := none

def abortError : JsError := .error "aborted"

namespace Driver

variable {Result : Type}

variable (s : Driver Result)

def did (moments : List Moment) : Driver Result := { s with moments := s.moments ++ moments }

def append (event : DriverEvent) : Driver Result := s.did [.appended event]

def goto (point : DriverPoint Result) : Driver Result := { s with point }

def aborted : Bool := s.phase.abort.isSome

/-! ## Inbox -/

/-- `mutate`: one normalized splice, logged and then applied. A message that is pending twice is refused. -/
def mutate (target : InboxTarget) (start deleteCount : JsNumber)
    (inserted : List MessageId) (discardRemoved : Bool) (appended : Except JsError Unit) :
    Except JsError (Driver Result) :=
  let inbox := s.inbox.list target
  let actualStart := start.toIntegerOrInfinity.relativeIndex inbox.length
  let actualDeleteCount := deleteCount.toIntegerOrInfinity.clampCount (inbox.length - actualStart)
  if actualDeleteCount = 0 ∧ inserted = [] then .ok s
  else
    let next := s.inbox.set target (cut inbox actualStart actualDeleteCount inserted).2
    if ¬ next.pending.Nodup then .error (.error "message is already pending")
    else
      appended.map fun _ =>
        { s.append (.spliced target actualStart actualDeleteCount inserted
            (discardRemoved && actualDeleteCount ≠ 0)) with inbox := next }

/-- `claim`: take all of the next step's input and, at a turn boundary, one queued prompt. -/
def claim (steps turns : Except JsError Unit) : Driver Result × Except JsError (List MessageId) :=
  match s.mutate .nextStep (.finite (.int 0)) (.finite (.int s.inbox.nextStep.length)) [] false steps with
  | .error error => (s, .error error)
  | .ok claimed =>
    match s.target with
    | .nextStep => (claimed, .ok s.inbox.nextStep)
    | .nextTurn =>
      match claimed.mutate .nextTurn (.finite (.int 0)) (.finite (.int 1)) [] false turns with
      | .error error => (claimed, .error error)
      | .ok both => (both, .ok (s.inbox.nextStep ++ s.inbox.nextTurn.take 1))

/-! ## Waking -/

/-- `wakeDriver`: start a driver, or latch the wake behind maintenance or an aborted activity. -/
def wakeDriver (wakeAfterAbort : Bool) : Driver Result :=
  match s.phase.kind with
  | .idle => { s with phase := { kind := .running, turn := s.phase.turn }, point := .begin }
  | .maintenance =>
    if s.phase.abort ≠ some .disposed then
      { s with phase := { s.phase with wakeRequested := true } }
    else s
  | .running =>
    if s.phase.abort ≠ some .disposed ∧ wakeAfterAbort = true then
      { s with phase := { s.phase with wakeRequested := true } }
    else s

/-- `send`, up to its wake: a waking message cannot join an aborted activity. -/
def send (message : MessageId) (target : InboxTarget) (wakeup : Bool)
    (appended : Except JsError Unit) : Driver Result :=
  let wakingAfterAbort := wakeup && s.phase.kind ≠ .idle && s.aborted
  let resolvedTarget := if wakingAfterAbort then .nextTurn else target
  match s.mutate resolvedTarget (.infinity false) (.finite (.int 0)) [message] true appended with
  | .error _ => s
  | .ok sent => if wakeup then { sent with wakes := wakingAfterAbort :: sent.wakes } else sent

/-- An abort of the phase's signal: the first reason stays, and running tools see it. -/
def abort (cause : CancelCause) : Driver Result :=
  { s with
    phase := { s.phase with abort := s.phase.abort.or (some cause) }
    point := match s.point with
      | .tools scheduler => .tools { scheduler with signalAborted := true }
      | point => point }

def clearList (target : InboxTarget) : Driver Result :=
  match s.mutate target (.finite (.int 0)) (.finite (.int (s.inbox.list target).length)) [] true (.ok ()) with
  | .ok cleared => cleared
  | .error _ => s

def clear : Driver Result := (s.clearList .nextStep).clearList .nextTurn

/-- `cancel`.  One that throws in `clear` comes to no more than the splices before. -/
def cancel (cause : CancelCause) (keepInbox : Bool) : Driver Result :=
  let s := if keepInbox then s else s.clear
  if s.phase.kind = .idle then s
  else if keepInbox then s.abort cause
  else { s with phase := { s.phase with wakeRequested := false } }.abort cause

/-! ## Turns -/

def throws (error : JsError) : Driver Result := s.goto (.caught error)

/-- `turn/end` on a path that returns; an append that fails throws. -/
def endTurn (reason : TurnEndReason) (next : DriverPoint Result) (appended : Except JsError Unit) : Driver Result :=
  match appended with
  | .error _ => s.goto .leaving
  | .ok () => (s.append (.turnEnd s.phase.turn reason)).goto next

def begin (appended : Except JsError Unit) : Driver Result :=
  if s.aborted then s.goto .leaving
  else
    match appended with
    | .error _ => s.goto .leaving
    | .ok () =>
      let turn := fadd s.phase.turn 1
      { s.append (.turnStart turn) with
        phase := { s.phase with turn }, turnEnds := none, target := .nextTurn, point := .head }

def head (steps turns : Except JsError Unit) : Driver Result :=
  if s.aborted then s.throws abortError
  else
    match s.claim steps turns with
    | (s, .error error) => s.throws error
    | (s, .ok claimed) => s.goto (.preStep claimed)

def openStep (messages : List MessageId) (appended : Except JsError Unit) : Driver Result :=
  match appended with
  | .error error => s.throws error
  | .ok () =>
    let step := fadd s.phase.step 1
    { s.append (.stepStart s.phase.turn step) with
      phase := { s.phase with step }, point := .entering messages }

/-- The decision on the proposed step; `opened` and `ended` are what the appends come to. -/
def decided (decision : Except JsError PreStepDecision) (opened ended : Except JsError Unit) : Driver Result :=
  match decision with
  | .error error => s.throws error
  | .ok decision =>
    if s.aborted then s.throws abortError
    else
      match decision with
      | .reject => s.endTurn .blocked .leaving ended
      | .enter messages =>
        match s.turnEnds, messages with
        | some reason, [] => s.endTurn reason.toTurnEnd .ended ended
        | _, _ =>
          if s.phase.step = 0 ∧ messages = [] then s.endTurn .completed .leaving ended
          else s.openStep messages opened

def boundary (outcome : Except JsError Unit) : Driver Result :=
  match outcome with
  | .error error => s.throws error
  | .ok () =>
    if s.aborted then s.throws abortError
    else if s.turnEnds.isSome ∧ s.inbox.nextStep = [] then s.goto .stopping
    else { s with target := .nextStep, point := .head }

def stopped (outcome : Except JsError Unit) (ended : Except JsError Unit) : Driver Result :=
  match outcome with
  | .error error => s.throws error
  | .ok () =>
    if s.aborted then s.throws abortError
    else
      match s.turnEnds, s.inbox.nextStep with
      | some reason, [] => s.endTurn reason.toTurnEnd .ended ended
      | _, _ => { s with target := .nextStep, point := .head }

def failure (error : JsError) : TurnEndReason :=
  match s.phase.abort with
  | some cause => .aborted cause
  | none => .error error

/-- Past the end of a turn: go on while the inbox holds work, under a fresh signal. -/
def look : Driver Result :=
  if ¬ s.inbox.hasPending then s.goto .leaving
  else
    { s with
      phase := { s.phase with abort := none, wakeRequested := false, step := 0 }
      point := .begin }

def leave : Driver Result :=
  { s with
    phase := { kind := .idle, turn := s.phase.turn }
    point := .rest
    converging := some s.phase.wakeRequested }

/-- `kick` after its `finally` has set the idle phase: the latched wake is replayed. -/
def replay (wakeRequested : Bool) : Driver Result :=
  let s := { s with converging := none }
  if wakeRequested ∧ s.inbox.hasPending then s.wakeDriver false else s

/-! ## Steps -/

def close (outcome : Except JsError (Option StepEndReason)) : Driver Result :=
  s.goto (.closing outcome)

/-- The messages of the step are logged one by one, then `step` is called. -/
def enter (messages : List MessageId) (appended : Except JsError Unit) : Driver Result :=
  match messages with
  | [] => if s.aborted then s.close (.error abortError) else s.goto .building
  | message :: rest =>
    match appended with
    | .error error => s.close (.error error)
    | .ok () => (s.append (.userMessage message)).goto (.entering rest)

/-- `buildRequest`: the header and the context are logged where they have changed. -/
def build (prepared : Except JsError Unit) (header context : Option (Except JsError Unit)) : Driver Result :=
  match prepared with
  | .error error => s.close (.error error)
  | .ok () =>
    if s.aborted then s.close (.error abortError)
    else
      match header, context with
      | some (.error error), _ => s.close (.error error)
      | some (.ok ()), some (.error error) => (s.append .request).close (.error error)
      | none, some (.error error) => s.close (.error error)
      | some (.ok ()), some (.ok ()) => ((s.append .request).append .request).goto .dispatching
      | some (.ok ()), none => (s.append .request).goto .dispatching
      | none, some (.ok ()) => (s.append .request).goto .dispatching
      | none, none => s.goto .dispatching

def dispatch (opened : Except JsError Unit) : Driver Result :=
  if s.aborted then s.close (.error abortError)
  else
    match opened with
    | .error error => s.close (.error error)
    | .ok () => (s.did [.requested]).goto .streaming

def chunk (appended : Except JsError Unit) : Driver Result :=
  if s.aborted then s.close (.error abortError)
  else
    match appended with
    | .error error => s.close (.error error)
    | .ok () => s.append (.assistantChunk s.phase.turn s.phase.step)

/-- The end of the stream.  Truncation drops the tool calls; a failure goes to the listeners. -/
def finish (finish : FinishReason) (toolCalls : List ToolCallBlock) (appended : Except JsError Unit) : Driver Result :=
  if s.aborted then s.close (.error abortError)
  else
    match finish, appended with
    | .failed error, _ => s.goto (.recovering error)
    | _, .error error => s.close (.error error)
    | .maxTokens, .ok () =>
      (s.append (.assistantMessage s.phase.turn s.phase.step [] true)).close (.ok (some .maxTokens))
    | .stop, .ok () =>
      let s := s.append (.assistantMessage s.phase.turn s.phase.step (toolCalls.map (·.id)) false)
      if toolCalls = [] then s.close (.ok (some .completed))
      else s.goto (.tools (Scheduler.init toolCalls s.maxParallelToolCalls 0))

def recovered (failure : JsError) (retry : Except JsError Bool) : Driver Result :=
  match retry with
  | .error error => s.close (.error error)
  | .ok retry =>
    if s.aborted then s.close (.error abortError)
    else if retry then s.goto .building
    else s.close (.error failure)

def toolEvent (turn step : Int) : ToolEvent Result → Moment
  | .call _ block => .appended (.toolCall turn step block.id)
  | .result _ callId _ _ => .appended (.toolResult turn step callId)
  | .other => .appended .other

def schedule (scheduler scheduler' : Scheduler Result) : Driver Result :=
  (s.did ((scheduler'.log.drop scheduler.log.length).map
    (toolEvent s.phase.turn s.phase.step))).goto (.tools scheduler')

def scheduled (scheduler : Scheduler Result) : Option (Driver Result) :=
  match scheduler.point with
  | .returned =>
    if scheduler.concluded then some ((s.did [.concluded]).close (.ok (some .completed)))
    else some (s.close (.ok none))
  | .threw error => some (s.close (.error error))
  | _ => none

/-- What a step came to is kept for the turn: max-tokens is sticky. -/
def keep (outcome : Except JsError (Option StepEndReason)) : Driver Result :=
  match outcome with
  | .ok stepEnd => if s.turnEnds = some StepEndReason.maxTokens then s else { s with turnEnds := stepEnd }
  | .error _ => s

def closeStep (outcome : Except JsError (Option StepEndReason)) (appended : Except JsError Unit) : Driver Result :=
  match appended with
  | .error error => (s.keep outcome).throws error
  | .ok () =>
    ((s.keep outcome).append (.stepEnd s.phase.turn s.phase.step)).goto
      (.closed (outcome.map fun _ => ()))

end Driver

/-! ## Actions -/

/-- What the driver does next, with what it is answered, and what others do. -/
inductive DriverAct (Result : Type) where
  | begin (appended : Except JsError Unit)
  | head (steps turns : Except JsError Unit)
  | decided (decision : Except JsError PreStepDecision) (opened ended : Except JsError Unit)
  | enter (appended : Except JsError Unit)
  | build (prepared : Except JsError Unit) (header context : Option (Except JsError Unit))
  | dispatch (opened : Except JsError Unit)
  | chunk (appended : Except JsError Unit)
  /-- The stream throws, or what it carried does not assemble. -/
  | broken (error : JsError)
  | finish (finish : FinishReason) (toolCalls : List ToolCallBlock) (appended : Except JsError Unit)
  | recovered (retry : Except JsError Bool)
  | tool (act : ToolAct Result)
  | scheduled
  | closeStep (appended : Except JsError Unit)
  | boundary
  | stopped (outcome ended : Except JsError Unit)
  | caught
  | fail (appended : Except JsError Unit)
  | look
  | leave
  | replay
  | send (message : MessageId) (target : InboxTarget) (wakeup : Bool) (appended : Except JsError Unit)
  /-- The innermost send under way comes to its wake. -/
  | wake
  | splice (target : InboxTarget) (start deleteCount : JsNumber) (inserted : List MessageId)
      (appended : Except JsError Unit)
  | cancel (cause : CancelCause) (keepInbox : Bool)
  | maintain
  | maintained
  | other

def DriverAct.outside {Result : Type} : DriverAct Result → Bool
  | .replay | .send _ _ _ _ | .wake | .splice _ _ _ _ _ | .cancel _ _ | .maintain | .maintained
  | .other => true
  | _ => false

namespace Driver

variable {Result : Type}

def step (s : Driver Result) : DriverAct Result → Option (Driver Result)
  | .begin appended =>
    match s.point with
    | .begin => some (s.begin appended)
    | _ => none
  | .head steps turns =>
    match s.point with
    | .head => some (s.head steps turns)
    | _ => none
  | .decided decision opened ended =>
    match s.point with
    | .preStep _ => some (s.decided decision opened ended)
    | _ => none
  | .enter appended =>
    match s.point with
    | .entering messages => some (s.enter messages appended)
    | _ => none
  | .build prepared header context =>
    match s.point with
    | .building => some (s.build prepared header context)
    | _ => none
  | .dispatch opened =>
    match s.point with
    | .dispatching => some (s.dispatch opened)
    | _ => none
  | .chunk appended =>
    match s.point with
    | .streaming => some (s.chunk appended)
    | _ => none
  | .broken error =>
    match s.point with
    | .streaming => some (s.close (.error error))
    | _ => none
  | .finish finish toolCalls appended =>
    match s.point with
    | .streaming => some (s.finish finish toolCalls appended)
    | _ => none
  | .recovered retry =>
    match s.point with
    | .recovering error => some (s.recovered error retry)
    | _ => none
  | .tool act =>
    match s.point with
    | .tools scheduler =>
      -- the scheduler shares the signal and the log of the driver
      match act with
      | .abort | .other => none
      | act => (scheduler.step act).map (s.schedule scheduler)
    | _ => none
  | .scheduled =>
    match s.point with
    | .tools scheduler => s.scheduled scheduler
    | _ => none
  | .closeStep appended =>
    match s.point with
    | .closing outcome => some (s.closeStep outcome appended)
    | _ => none
  | .boundary =>
    match s.point with
    | .closed outcome => some (s.boundary outcome)
    | _ => none
  | .stopped outcome ended =>
    match s.point with
    | .stopping => some (s.stopped outcome ended)
    | _ => none
  | .caught =>
    match s.point with
    | .caught error => some (s.goto (.failing (s.failure error)))
    | _ => none
  | .fail appended =>
    match s.point with
    | .failing reason => some (s.endTurn reason .leaving appended)
    | _ => none
  | .look =>
    match s.point with
    | .ended => some s.look
    | _ => none
  | .leave =>
    match s.point, s.converging with
    | .leaving, none => some s.leave
    | _, _ => none
  | .replay => s.converging.map s.replay
  | .send message target wakeup appended => some (s.send message target wakeup appended)
  | .wake =>
    match s.wakes with
    | [] => none
    | wakingAfterAbort :: rest => some ({ s with wakes := rest }.wakeDriver wakingAfterAbort)
  | .splice target start deleteCount inserted appended =>
    match s.mutate target start deleteCount inserted true appended with
    | .ok s' => some s'
    | .error _ => some s
  | .cancel cause keepInbox => some (s.cancel cause keepInbox)
  | .maintain =>
    if s.phase.kind = .idle then
      some { s with phase := { kind := .maintenance, turn := s.phase.turn } }
    else none
  | .maintained =>
    if s.phase.kind = .maintenance then
      let wakeRequested := s.phase.wakeRequested
      let s := { s with phase := { kind := .idle, turn := s.phase.turn } }
      some (if wakeRequested ∧ s.inbox.hasPending then s.wakeDriver false else s)
    else none
  | .other => some (s.append .other)

/-- An agent is made for a session whose last turn was that one. -/
def init (maxParallelToolCalls : Nat) (lastTurn : Int) (inbox : Queues) : Driver Result :=
  { maxParallelToolCalls, phase := { turn := lastTurn }, inbox }

end Driver

end CocoHarness.Agent
