/-
# CocoHarness.Persistence.WriteBehind — one session's write-behind queue.

The controller buffers events behind a fixed deadline and writes them in batches, each batch a promise chain whose
handlers run as jobs of their own: the write itself, the `catch` that puts a failed batch back, the `finally` that
clears `active`, and the continuations waiting on the chain.  An `Action` is one call, one timer, one answer of the
storage or one such job; jobs run in any order between the others, but a timer only fires once no job of the
controller is queued.
-/
import Mathlib.Data.List.Basic

namespace CocoHarness.Persistence

universe u v

/-! ## The state -/

inductive WriteStage (ε : Type v) where
  /-- `Promise.resolve().then(…)` is queued. -/
  | scheduled
  | writing
  /-- The write resolved; `finally` is queued. -/
  | fulfilled
  /-- The write rejected; the `catch` handler is queued. -/
  | rejected (error : ε)
  /-- The batch is back in front; `finally` is queued. -/
  | caught (error : ε)
  deriving DecidableEq

structure DurableWrite (E : Type u) (ε : Type v) where
  id : Nat
  batch : List E
  background : Bool
  stage : WriteStage ε
  deriving DecidableEq

/-- The part of the batch that is neither durably written nor back in front. -/
def DurableWrite.inFlight {E : Type u} {ε : Type v} (w : DurableWrite E ε) : List E :=
  match w.stage with
  | .scheduled | .writing | .rejected _ => w.batch
  | .fulfilled | .caught _ => []

inductive DrainPhase (ε : Type v) where
  /-- Awaiting `Promise.allSettled` of the write that was active. -/
  | overlapping (id : Nat)
  /-- That write settled; the drain is queued. -/
  | overlapSettled
  /-- Awaiting its own write. -/
  | draining (id : Nat)
  /-- Its own write resolved; the drain is queued. -/
  | drained
  /-- Its own write rejected; the drain is queued. -/
  | failed (error : ε)
  deriving DecidableEq

/-- The shared barrier: its drain, and for each flush the number of events enqueued before it. -/
structure Barrier (ε : Type v) where
  phase : DrainPhase ε
  joined : List Nat
  deriving DecidableEq

/-- The controller, its part of the event loop, and what has become of its events. -/
structure SessionWriteBehind (E : Type u) (ε : Type v) where
  pending : List E := []
  timer : Option Nat := none
  active : Option Nat := none
  barrier : Option (Barrier ε) := none
  deadlineExpired : Bool := false
  automaticPaused : Bool := false
  /-- The timers that can still fire. -/
  timeouts : List Nat := []
  /-- The promise chains that have not run their `finally`. -/
  writes : List (DurableWrite E ε) := []
  /-- How many `continueAutomatic` jobs are queued. -/
  continuations : Nat := 0
  nextId : Nat := 0
  enqueued : List E := []
  /-- The batches durably written, in order. -/
  written : List (List E) := []
  /-- For each flush that resolved, the number of events enqueued before it was called. -/
  resolved : List Nat := []
  rejected : List (Nat × ε) := []
  /-- The errors `reportBackgroundFailure` was given. -/
  reported : List ε := []
  deriving DecidableEq

namespace SessionWriteBehind

variable {E : Type u} {ε : Type v}

variable (s : SessionWriteBehind E ε)

def inFlight : List E := s.writes.flatMap DurableWrite.inFlight

/-- Whether this controller owns queued events or an active durable write. -/
def hasWork : Bool := !s.pending.isEmpty || s.active.isSome

/-! ## The controller -/

def armTimer : SessionWriteBehind E ε :=
  { s with timer := some s.nextId, timeouts := s.timeouts ++ [s.nextId], nextId := s.nextId + 1 }

def cancelTimer : SessionWriteBehind E ε :=
  match s.timer with
  | none => s
  | some id => { s with timer := none, timeouts := s.timeouts.erase id }

/-- Cancel the current automatic deadline without draining retained work. -/
def cancelAutomaticWait : SessionWriteBehind E ε :=
  { s.cancelTimer with deadlineExpired := false }

/-- Queue an event and start a fixed deadline when the automatic path is idle. -/
def enqueue (event : E) : SessionWriteBehind E ε :=
  let wasEmpty := s.pending.isEmpty
  let s := { s with pending := s.pending ++ [event], enqueued := s.enqueued ++ [event] }
  if s.barrier.isSome then s
  else if s.automaticPaused then
    armTimer { s with automaticPaused := false, deadlineExpired := false }
  else if wasEmpty then s.armTimer
  else s

def startWrite (background : Bool) : SessionWriteBehind E ε :=
  let write := { id := s.nextId, batch := s.pending, background, stage := .scheduled }
  let s := cancelTimer { s with pending := [] }
  { s with
    deadlineExpired := false, active := some s.nextId, writes := s.writes ++ [write]
    nextId := s.nextId + 1 }

/-- Start one detached write; its continuation is queued when it settles. -/
def startBackground : SessionWriteBehind E ε := s.startWrite true

/-- Start a background write now, or remember that an active write used the budget. -/
def onDeadline : SessionWriteBehind E ε :=
  let s := { s with timer := none }
  if s.active.isSome then { s with deadlineExpired := true } else s.startBackground

/-- Continue immediately after an over-budget active write, otherwise keep its timer. -/
def continueAutomatic : SessionWriteBehind E ε :=
  if s.barrier.isSome || s.pending.isEmpty then s
  else if s.deadlineExpired then startBackground { s with deadlineExpired := false }
  else s

def drainLoop (joined : List Nat) : SessionWriteBehind E ε :=
  if s.pending.isEmpty then { s with barrier := none, resolved := s.resolved ++ joined }
  else { s.startWrite false with barrier := some { phase := .draining s.nextId, joined } }

/-- Durably drain through a quiescent point; concurrent callers join the same barrier. -/
def flush : SessionWriteBehind E ε :=
  match s.barrier with
  | some barrier => { s with barrier := some { barrier with joined := barrier.joined ++ [s.enqueued.length] } }
  | none =>
    let s := { s.cancelTimer with deadlineExpired := false, automaticPaused := false }
    match s.active with
    | some overlapping =>
      { s with barrier := some { phase := .overlapping overlapping, joined := [s.enqueued.length] } }
    | none => s.drainLoop [s.enqueued.length]

/-- Resume the drain behind the `await` it was queued at; `none` while it is not queued. -/
def resumeDrain : Option (SessionWriteBehind E ε) :=
  match s.barrier with
  | some { phase := .overlapSettled, joined } => some (drainLoop { s with automaticPaused := false } joined)
  | some { phase := .drained, joined } => some (s.drainLoop joined)
  | some { phase := .failed error, joined } =>
    some { s with barrier := none, rejected := s.rejected ++ joined.map (·, error) }
  | _ => none

/-! ## The promise chain of a write -/

def setStage (id : Nat) (stage : WriteStage ε) : SessionWriteBehind E ε :=
  { s with writes := s.writes.map fun w => if w.id = id then { w with stage } else w }

/-- The `catch` handler: retain the batch in order, pause, and report a background failure. -/
def catchFailure (w : DurableWrite E ε) (error : ε) : SessionWriteBehind E ε :=
  let s := cancelTimer { s.setStage w.id (.caught error) with pending := w.batch ++ s.pending }
  { s with
    deadlineExpired := false, automaticPaused := true
    reported := if w.background then s.reported ++ [error] else s.reported }

end SessionWriteBehind

/-- What the settled write, failed or not, makes of the drain that awaits it. -/
def Barrier.settled {ε : Type v} (barrier : Barrier ε) (id : Nat) (failure : Option ε) : Barrier ε :=
  match barrier.phase, failure with
  | .overlapping awaited, _ => if awaited = id then { barrier with phase := .overlapSettled } else barrier
  | .draining awaited, none => if awaited = id then { barrier with phase := .drained } else barrier
  | .draining awaited, some error => if awaited = id then { barrier with phase := .failed error } else barrier
  | _, _ => barrier

namespace SessionWriteBehind

variable {E : Type u} {ε : Type v}

variable (s : SessionWriteBehind E ε)

def finish (w : DurableWrite E ε) (failure : Option ε) : SessionWriteBehind E ε :=
  { s with
    active := none
    writes := s.writes.filter (·.id ≠ w.id)
    continuations := if w.background && failure.isNone then s.continuations + 1 else s.continuations
    barrier := s.barrier.map (·.settled w.id failure) }

/-! ## Actions -/

inductive WriteEvent (ε : Type v) where
  /-- The scheduled job calls `options.write`. -/
  | called
  | succeeded
  | failed (error : ε)
  | catchJob
  | finallyJob

inductive Action (E : Type u) (ε : Type v) where
  | enqueue (event : E)
  | flush
  | cancelAutomaticWait
  /-- A timer fires. -/
  | deadline (id : Nat)
  | write (id : Nat) (event : WriteEvent ε)
  | continueAutomatic
  | resumeDrain

def Action.event? : Action E ε → Option E
  | .enqueue event => some event
  | _ => none

/-- Take one step of a write's promise chain; `none` when the write is not that far. -/
def advance (w : DurableWrite E ε) : WriteEvent ε → Option (SessionWriteBehind E ε)
  | .called => match w.stage with
    | .scheduled => some (s.setStage w.id .writing)
    | _ => none
  | .succeeded => match w.stage with
    | .writing => some { s.setStage w.id .fulfilled with written := s.written ++ [w.batch] }
    | _ => none
  | .failed error => match w.stage with
    | .writing => some (s.setStage w.id (.rejected error))
    | _ => none
  | .catchJob => match w.stage with
    | .rejected error => some (s.catchFailure w error)
    | _ => none
  | .finallyJob => match w.stage with
    | .fulfilled => some (s.finish w none)
    | .caught error => some (s.finish w (some error))
    | _ => none

def drainQueued : Bool :=
  match s.barrier with
  | some { phase := .overlapSettled, .. } | some { phase := .drained, .. }
  | some { phase := .failed _, .. } => true
  | _ => false

def jobsDone : Bool :=
  s.writes.all (fun w => match w.stage with | .writing => true | _ => false)
    && s.continuations == 0 && !s.drainQueued

def step : Action E ε → Option (SessionWriteBehind E ε)
  | .enqueue event => some (s.enqueue event)
  | .flush => some s.flush
  | .cancelAutomaticWait => some s.cancelAutomaticWait
  | .deadline id =>
    if id ∈ s.timeouts ∧ s.jobsDone then
      some (onDeadline { s with timeouts := s.timeouts.erase id })
    else none
  | .write id event => (s.writes.find? (·.id = id)).bind fun w => s.advance w event
  | .continueAutomatic =>
    if 0 < s.continuations then
      some (continueAutomatic { s with continuations := s.continuations - 1 })
    else none
  | .resumeDrain => s.resumeDrain

end SessionWriteBehind

end CocoHarness.Persistence
