/-
# CocoHarness.Goal.Service — the goal service over a session log.

The service keeps a cache of what the log folds to and catches it up before every read and every mutation.  A
mutation checks its ref and its transition against the cache, then appends one change; the activation the change
leaves crosses the append in a slot of the cache.  While an append is being published — the listeners of the dispatch
may still veto it, the observers run after the commit — listeners may read, disarm and call, but the session refuses
a second append.
-/
import CocoHarness.Goal.Fold

namespace CocoHarness.Goal

open Lib Lib.SafeInteger SessionLog
open SessionLog.SessionEvent (intField)
open Schedule (trim)

/-! ## Data -/

/-- `Date.now()`, of a clock that is not before the epoch: a time value. -/
structure WallClock where
  ms : Nat
  bound : ms ≤ 8640000000000000

def maxArrayLength : Nat := 4294967295

structure EventLog where
  events : List SessionEvent
  contiguous : ∀ (i : Nat) e, events[i]? = some e → e.seq = i
  bounded : events.length ≤ maxArrayLength

def EventLog.push (log : EventLog) (event : SessionEvent) : Option EventLog :=
  if h : event.seq = log.events.length ∧ log.events.length < maxArrayLength then
    some
      { events := log.events ++ [event]
        contiguous := by
          intro i e hi
          rcases Nat.lt_trichotomy i log.events.length with hlt | rfl | hgt
          · rw [List.getElem?_append_left hlt] at hi
            exact log.contiguous i e hi
          · rw [List.getElem?_concat_length] at hi
            exact Option.some.inj hi ▸ h.1
          · rw [List.getElem?_eq_none (by simp; omega)] at hi
            cases hi
        bounded := by rw [List.length_append]; exact h.2 }
  else none

inductive GoalErrorCode where
  | agentNotLive
  | alreadyExists
  | notFound
  | staleRevision
  | invalidTransition
  | invalidObjective
  | invalidMaxRounds
  | invalidEdit
  | invalidBlockReason
  deriving DecidableEq, Repr

inductive Thrown where
  | goalError (message : String) (code : GoalErrorCode)
  | error (error : JsError)
  deriving DecidableEq

inductive GoalActivation where
  | armed
  | disarmed
  deriving DecidableEq, Repr

structure CreateGoalRequest where
  objective : Option Json
  maxGoalRounds : Option Json

structure EditGoalRequest where
  objective : Option Json
  maxGoalRounds : Option Json

structure GoalView extends GoalSnapshot where
  roundsStarted : Nat
  createdAt : Nat
  updatedAt : Nat
  activation : GoalActivation
  deriving DecidableEq, Repr

structure ResolvedConfig where
  defaultMaxGoalRounds : Nat
  positive : 1 ≤ defaultMaxGoalRounds
  safe : IsSafe defaultMaxGoalRounds

/-- What a session folds to, and the activation that crosses an append. -/
structure GoalCache where
  state : GoalFoldState
  activation : GoalActivation := .disarmed
  observedSeq : Nat
  pendingActivation : Option (Int × GoalActivation) := none

/-- An append that is being published; `mine` when the service appends. -/
structure Publication where
  event : SessionEvent
  mine : Option Bool := none
  committed : Bool := false

structure GoalService where
  /-- The id of the agent that owns the session. -/
  agent : String
  log : EventLog
  cache : Option GoalCache := none
  publication : Option Publication := none
  /-- Ghost: the last goal change of this process has left the goal armed, and nothing has disarmed it. -/
  armed : Bool := false

/-! ## Requests -/

def resolveMaxGoalRounds (value : Json) : Except Thrown Nat :=
  match (safeInt? value).filter (1 ≤ ·) with
  | some n => return n.toNat
  | none => throw (.goalError "maxGoalRounds must be a positive safe integer" .invalidMaxRounds)

def resolveObjective (value : Option Json) : Except Thrown String :=
  match (value.bind Json.str?).filter (trim · ≠ "") with
  | some s => return trim s
  | none => throw (.goalError "goal objective must be a non-empty string" .invalidObjective)

structure ResolvedCreateGoal where
  objective : String
  maxGoalRounds : Nat

def resolveCreateGoal (config : ResolvedConfig) (request : CreateGoalRequest) : Except Thrown ResolvedCreateGoal := do
  let objective ← resolveObjective request.objective
  let maxGoalRounds ← match request.maxGoalRounds with
    | none | some .null => resolveMaxGoalRounds (intField config.defaultMaxGoalRounds)
    | some value => resolveMaxGoalRounds value
  return { objective, maxGoalRounds }

def resolveBlockReason (reason : Json) : Except Thrown GoalBlockReason :=
  let record := reason.obj?
  let code := (record.bind fun fields => (fields.lookup "code").bind Json.str?).filter isKebab
  let message := (record.bind fun fields => (fields.lookup "message").bind Json.str?).filter (trim · ≠ "")
  match code, message with
  | some code, some message => return { code, message := trim message }
  | _, _ =>
    throw (.goalError "goal block reason requires a lower-kebab-case code and a non-empty message" .invalidBlockReason)

/-! ## The cache -/

/-- A goal change disarms, unless it is the one that is awaited. -/
def activationAfter (pending : Option (Int × GoalActivation)) (activation : GoalActivation) (event : SessionEvent) :
    GoalActivation :=
  if event.type = "goal/change" then
    match pending with
    | some (seq, pendingActivation) => if seq = event.seq then pendingActivation else .disarmed
    | none => .disarmed
  else activation

def syncEvents : GoalCache → List SessionEvent → GoalCache × Except JsError Unit
  | cache, [] => (cache, .ok ())
  | cache, event :: events =>
    match applyGoalEvent cache.state event with
    | .error e => (cache, .error e)
    | .ok state =>
      syncEvents
        { cache with
          state, activation := activationAfter cache.pendingActivation cache.activation event
          observedSeq := cache.observedSeq + 1 } events

namespace GoalService

variable (m : GoalService)

/-- `cache` and `sync`: the session's cache, folded when there is none, and caught up. -/
def sync : GoalService × Except Thrown GoalCache :=
  match m.cache with
  | none =>
    match foldState m.log.events with
    | .error e => (m, .error (.error e))
    | .ok state =>
      let cache : GoalCache := { state, observedSeq := m.log.events.length }
      ({ m with cache := some cache }, .ok cache)
  | some cache =>
    match syncEvents cache (m.log.events.drop cache.observedSeq) with
    | (cache, .error e) => ({ m with cache := some cache }, .error (.error e))
    | (cache, .ok ()) => ({ m with cache := some cache }, .ok cache)

variable (cache : GoalCache)

def view : Except Thrown (Option GoalView) :=
  match cache.state.goal with
  | none => return none
  | some goal =>
    match cache.state.createdAt, cache.state.updatedAt with
    | some createdAt, some updatedAt =>
      return some
        { toGoalSnapshot := goal, roundsStarted := cache.state.roundsStarted, createdAt, updatedAt
          activation := cache.activation }
    | _, _ => throw (.error (.error s!"goal \"{goal.id}\" cache lacks timestamps"))

def agentNotLive : Thrown :=
  .goalError s!"agent \"{m.agent}\" is not live in this registry" .agentNotLive

def prepareMutation (live : Bool) : GoalService × Except Thrown GoalCache :=
  if live then m.sync else (m, .error m.agentNotLive)

def get (live : Bool) : GoalService × Except Thrown (Option GoalView) :=
  match m.prepareMutation live with
  | (m, .error e) => (m, .error e)
  | (m, .ok cache) => (m, view cache)

def disarm (live : Bool) : GoalService × Except Thrown (Option GoalView) :=
  match m.prepareMutation live with
  | (m, .error e) => (m, .error e)
  | (m, .ok cache) =>
    let disarmed := { cache with activation := .disarmed }
    ({ m with cache := some disarmed, armed := false }, view disarmed)

/-- The service hears of the start of the agent's session; the cache is not caught up. -/
def sessionStart : GoalService × Except Thrown Unit :=
  match m.cache with
  | some cache => ({ m with cache := some { cache with activation := .disarmed }, armed := false }, .ok ())
  | none =>
    match m.sync with
    | (m, .error e) => (m, .error e)
    | (m, .ok cache) => ({ m with cache := some { cache with activation := .disarmed }, armed := false }, .ok ())

/-! ## Mutations -/

def expectCurrent (ref : GoalRef) : Except Thrown GoalSnapshot :=
  match cache.state.goal with
  | none => throw (.goalError "no current goal" .notFound)
  | some current =>
    if ref.id ≠ current.id ∨ ref.revision ≠ current.revision then
      throw (.goalError (s!"stale goal ref \"{ref.id}\" revision {ref.revision}; current is "
          ++ s!"\"{current.id}\" revision {current.revision}")
        .staleRevision)
    else return current

def transitionError (current : GoalSnapshot) (operation : String) (allowed : List GoalPhase) : Thrown :=
  let expected := " or ".intercalate (allowed.map GoalPhase.text)
  .goalError
    s!"cannot {operation} goal \"{current.id}\" from phase \"{current.phase.text}\"; expected {expected}"
    .invalidTransition

def withPhase (current : GoalSnapshot) (phase : GoalPhase) : GoalSnapshot :=
  { id := current.id, revision := current.revision + 1, objective := current.objective, phase
    maxGoalRounds := current.maxGoalRounds }

def nextMutationTime (now : WallClock) : Except Thrown Nat :=
  match cache.state.updatedAt with
  | none => throw (.error (.error "current goal cache lacks updatedAt"))
  | some updatedAt => return max now.ms updatedAt

structure Mutation where
  change : GoalChangeMeta
  activation : GoalActivation

def currentChange (operation : GoalOperation) (goal : GoalSnapshot) (activation : GoalActivation)
    (now : WallClock) : Except Thrown Mutation :=
  match cache.state.createdAt with
  | none => throw (.error (.error "current goal cache lacks createdAt"))
  | some createdAt => do
    let updatedAt ← nextMutationTime cache now
    return { change := .snapshot operation goal cache.state.roundsStarted createdAt updatedAt, activation }

def create (spec : ResolvedCreateGoal) (uuid : String) (now : WallClock) : Except Thrown Mutation :=
  match cache.state.goal.filter (·.phase ≠ .complete) with
  | some current =>
    throw (.goalError s!"goal \"{current.id}\" already exists with phase \"{current.phase.text}\"" .alreadyExists)
  | none =>
    let goal : GoalSnapshot :=
      { id := s!"goal-{uuid}", revision := 1, objective := spec.objective, phase := .active
        maxGoalRounds := spec.maxGoalRounds }
    return { change := .snapshot .create goal 0 now.ms now.ms, activation := .armed }

def edit (ref : GoalRef) (request : EditGoalRequest) (now : WallClock) : Except Thrown Mutation := do
  let current ← expectCurrent cache ref
  if request.objective.isNone ∧ request.maxGoalRounds.isNone then
    throw (.goalError "goal edit requires objective and/or maxGoalRounds" .invalidEdit)
  else
    let objective ← request.objective.elim (pure current.objective) fun value => resolveObjective (some value)
    let maxGoalRounds ← request.maxGoalRounds.elim (pure current.maxGoalRounds) resolveMaxGoalRounds
    currentChange cache .edit { current with revision := current.revision + 1, objective, maxGoalRounds } cache.activation now

def transition (ref : GoalRef) (operation : GoalOperation) (allowed : List GoalPhase)
    (phase : GoalPhase) (activation : GoalActivation) (now : WallClock) : Except Thrown Mutation := do
  let current ← expectCurrent cache ref
  if current.phase ∉ allowed then throw (transitionError current operation.text allowed)
  else currentChange cache operation (withPhase current phase) activation now

def pause (ref : GoalRef) (now : WallClock) : Except Thrown Mutation :=
  transition cache ref .pause [.active] .paused .disarmed now

def resume (ref : GoalRef) (now : WallClock) : Except Thrown Mutation := do
  let current ← expectCurrent cache ref
  let resumable := [GoalPhase.active, .paused, .blocked]
  if current.phase ∉ resumable then throw (transitionError current "resume" resumable)
  else if current.phase = .active ∧ cache.activation = .armed then
    throw (.goalError s!"goal \"{current.id}\" is already active and armed" .invalidTransition)
  else if cache.state.roundsStarted ≥ current.maxGoalRounds then
    throw (.goalError s!"goal \"{current.id}\" exhausted {current.maxGoalRounds} goal rounds; increase maxGoalRounds before resuming"
      .invalidTransition)
  else currentChange cache .resume (withPhase current .active) .armed now

def complete (ref : GoalRef) (now : WallClock) : Except Thrown Mutation :=
  transition cache ref .complete [.active, .paused, .blocked] .complete .disarmed now

def block (ref : GoalRef) (reason : Json) (now : WallClock) : Except Thrown Mutation := do
  let current ← expectCurrent cache ref
  if current.phase ≠ .active then throw (transitionError current "block" [.active])
  else
    let blockedReason ← resolveBlockReason reason
    currentChange cache .block { withPhase current .blocked with blockedReason := some blockedReason } .disarmed now

def clear (ref : GoalRef) (now : WallClock) : Except Thrown Mutation := do
  let current ← expectCurrent cache ref
  let clearedAt ← nextMutationTime cache now
  return { change := .clear { id := current.id, revision := current.revision + 1 } clearedAt, activation := .disarmed }

inductive Operation where
  | create (request : CreateGoalRequest) (uuid : String)
  | edit (ref : GoalRef) (request : EditGoalRequest)
  | pause (ref : GoalRef)
  | resume (ref : GoalRef)
  | complete (ref : GoalRef)
  | block (ref : GoalRef) (reason : Json)
  | clear (ref : GoalRef)

/-- The change of an operation on the cache; a create resolves its request before anything else. -/
def plan (config : ResolvedConfig) (operation : Operation) (now : WallClock) :
    Except Thrown (GoalCache → Except Thrown Mutation) :=
  match operation with
  | .create request uuid => (fun spec cache => create cache spec uuid now) <$> resolveCreateGoal config request
  | .edit ref request => return fun cache => edit cache ref request now
  | .pause ref => return fun cache => pause cache ref now
  | .resume ref => return fun cache => resume cache ref now
  | .complete ref => return fun cache => complete cache ref now
  | .block ref reason => return fun cache => block cache ref reason now
  | .clear ref => return fun cache => clear cache ref now

def Operation.leaves : Operation → Bool → Bool
  | .create _ _, _ => true
  | .resume _, _ => true
  | .edit _ _, armed => armed
  | _, _ => false

def commit (cache : GoalCache) (mutation : Mutation) (leaves : Bool) (now : WallClock) :
    GoalService × Except Thrown Unit :=
  let seq : Int := m.log.events.length
  if m.publication.isSome then
    ({ m with cache := some { cache with pendingActivation := none } },
      .error (.error (.error "session append cannot reenter while another append is being published")))
  else
    let event : SessionEvent := { type := "goal/change", seq, time := now.ms, data := mutation.change.toJson }
    ({ m with
      cache := some { cache with pendingActivation := some (seq, mutation.activation) }
      publication := some { event, mine := some leaves } }, .ok ())

def start (config : ResolvedConfig) (live : Bool) (operation : Operation) (now : WallClock) :
    GoalService × Except Thrown Unit :=
  match plan config operation now with
  | .error e => (m, .error e)
  | .ok change =>
    match m.prepareMutation live with
    | (m, .error e) => (m, .error e)
    | (m, .ok cache) =>
      match change cache with
      | .error e => (m, .error e)
      | .ok mutation => m.commit cache mutation (operation.leaves m.armed) now

def clearPending : GoalService :=
  { m with cache := m.cache.map fun cache => { cache with pendingActivation := none } }

/-! ## Publication -/

def push : Option GoalService := do
  let publication ← m.publication
  guard (publication.committed = false)
  let log ← m.log.push publication.event
  let armed := publication.mine.getD (m.armed && publication.event.type ≠ "goal/change")
  return { m with log, publication := some { publication with committed := true }, armed }

/-- A listener of the dispatch, or the array, refuses the event, and the append throws. -/
def veto : Option GoalService := do
  let publication ← m.publication
  guard (publication.committed = false)
  return { if publication.mine.isSome then m.clearPending else m with publication := none }

/-- The append returns; the service catches up with its change and empties the slot. -/
def finish : Option GoalService := do
  let publication ← m.publication
  guard (publication.committed = true)
  return { if publication.mine.isSome then m.sync.1.clearPending else m with publication := none }

def isPlain (event : SessionEvent) : Bool := event.type ≠ "goal/change" ∧ event.type ≠ "user/message"

def admits (event : SessionEvent) : Bool := (foldState (m.log.events ++ [event])).isOk

inductive Act where
  | get (live : Bool)
  | disarm (live : Bool)
  /-- A session starts when it has been entered and announced, not inside an append to it. -/
  | sessionStart
  | call (live : Bool) (operation : Operation) (now : WallClock)
  /-- An append of another origin. -/
  | append (event : SessionEvent)
  | push
  | veto
  | finish
  /-- The process restarts with a part of the log, and what repair has added. -/
  | restart (log : EventLog) (kept : Nat)

def isFresh : Operation → Bool
  | .create _ uuid => (foldState m.log.events).toOption.all fun state => s!"goal-{uuid}" ∉ state.seenGoalIds
  | _ => true

def step (config : ResolvedConfig) (m : GoalService) : Act → Option GoalService
  | .get live => some (m.get live).1
  | .disarm live => some (m.disarm live).1
  | .sessionStart => if m.publication.isNone then some m.sessionStart.1 else none
  | .call live operation now => if m.isFresh operation then some (m.start config live operation now).1 else none
  | .append event =>
    if m.publication.isNone ∧ event.seq = m.log.events.length ∧ m.admits event then
      some { m with publication := some { event } }
    else none
  | .push => m.push
  | .veto => m.veto
  | .finish => m.finish
  | .restart log kept =>
    if log.events.take kept = m.log.events.take kept ∧ (log.events.drop kept).all isPlain then some { agent := m.agent, log } else none

def boot (agent : String) (log : EventLog) : GoalService := { agent, log }

end GoalService

end CocoHarness.Goal
