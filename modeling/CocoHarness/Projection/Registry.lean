/-
# CocoHarness.Projection.Registry — projection units and the drive over committed events.

A unit is a reducer over the session log with a view of its state.  The registry keeps a cell for each unit and
session: the state, and the seq of the last event passed through `apply`.  A cell is built when it is first touched,
by folding the log, and from then on driven by every committed event.
-/
import CocoHarness.Lib.InsertionMap
import CocoHarness.Lib.Machine
import CocoHarness.Lib.Reducer
import CocoHarness.SessionLog.Event

namespace CocoHarness.Projection

open Lib SessionLog

/-! ## Units -/

structure ErasedDefinition (State : Type) where
  key : String
  /-- Validates the wire payload. -/
  schema : Json → Except JsError Json
  init : State
  /-- The next state; `none` is the same state reference. -/
  apply : State → SessionEvent → Option State
  view : State → Json
  stateVersion : Int

def ErasedDefinition.reducer {State : Type} (definition : ErasedDefinition State) : Reducer State SessionEvent where
  init := definition.init
  step state event := (definition.apply state event).getD state

structure UnitCell (State : Type) where
  state : State
  /-- Seq of the last event passed through `apply` (regardless of change). -/
  observedSeq : Int

/-- One live registration; its identity is the order it was made in. -/
structure Registration (State : Type) where
  id : Nat
  definition : ErasedDefinition State
  /-- Live registrants sharing this unit. -/
  refs : Nat := 1

/-! ## Dispatches -/

inductive Progress where
  /-- The registry's own listener has not been called. -/
  | before
  /-- The drive goes on from `next`; while `notifying`, listeners of the one before are running. -/
  | driving (next : Nat) (notifying : Bool)
  | after
  deriving DecidableEq

structure Dispatch where
  session : Nat
  event : SessionEvent
  progress : Progress := .before

structure Registry (State : Type) where
  log : Nat → List SessionEvent
  registrations : InsertionMap String (Registration State) := ∅
  registrationCount : Nat := 0
  /-- The cells of a registration, by session. -/
  cells : Nat → Nat → Option (UnitCell State) := fun _ _ => none
  /-- How many change listeners are subscribed. -/
  listeners : Nat := 0
  /-- Dispatches in progress, innermost first. -/
  dispatches : List Dispatch := []

/-- One consistent read cut over every registered unit for one session. -/
structure Snapshot where
  asOfSeq : Int
  values : List (String × Json)

structure CheckpointRow (State : Type) where
  ver : Int
  seq : Int
  val : State

abbrev Checkpoint (State : Type) := InsertionMap String (CheckpointRow State)

def stringify (s : String) : String := .ofList (JsonText.quoted s.toList)

namespace Registry

variable {State : Type}

/-! ## Registration -/

variable (s : Registry State)

def register (definition : ErasedDefinition State) : Registry State × Except JsError Unit :=
  if ¬ (SafeInteger.IsSafe definition.stateVersion ∧ 0 ≤ definition.stateVersion) then
    (s, .error (.error (s!"session projection {stringify definition.key} stateVersion must be "
      ++ s!"a non-negative integer, got {definition.stateVersion}")))
  else
    match s.registrations.lookup definition.key with
    | none =>
      let registration := { id := s.registrationCount, definition }
      ({ s with
          registrations := s.registrations.set definition.key registration
          registrationCount := s.registrationCount + 1 }, .ok ())
    | some existing =>
      if existing.definition.stateVersion ≠ definition.stateVersion then
        (s, .error (.error (s!"session projection key {stringify definition.key} is already registered "
          ++ s!"at stateVersion {existing.definition.stateVersion}; refusing to share it with "
          ++ s!"stateVersion {definition.stateVersion}")))
      else
        let registration := { existing with refs := existing.refs + 1 }
        ({ s with registrations := s.registrations.set definition.key registration }, .ok ())

def unregister (key : String) : Registry State :=
  match s.registrations.lookup key with
  | none => s
  | some live =>
    if live.refs = 1 then { s with registrations := s.registrations.erase key }
    else
      let registration := { live with refs := live.refs - 1 }
      { s with registrations := s.registrations.set key registration }

/-! ## Cells -/

/-- Fold one unit from init over the events, producing a cell watermarked at the last one. -/
def buildCell (definition : ErasedDefinition State) (events : List SessionEvent) : UnitCell State where
  state := definition.reducer.fold events
  observedSeq := (events.getLast?.map (·.seq)).getD (-1)

def setCell (id session : Nat) (cell : UnitCell State) : Registry State :=
  { s with cells := Function.update s.cells id (Function.update (s.cells id) session (some cell)) }

/-- Read (or lazily build, folding the full in-memory log) one unit's cell. -/
def cellFor (registration : Registration State) (session : Nat) : Registry State × UnitCell State :=
  match s.cells registration.id session with
  | some cell => (s, cell)
  | none =>
    let cell := buildCell registration.definition (s.log session)
    (s.setCell registration.id session cell, cell)

/-! ## Reads -/

/-- The values one after the other; the first view its schema refuses throws. -/
def snapshotOver (session : Nat) : List (String × Registration State) → Registry State →
    Registry State × Except JsError (List (String × Json))
  | [], s => (s, .ok [])
  | (_, registration) :: rest, s =>
    let (s, cell) := s.cellFor registration session
    match registration.definition.schema (registration.definition.view cell.state) with
    | .error e => (s, .error e)
    | .ok value =>
      let (s, values) := snapshotOver session rest s
      (s, values.map ((registration.definition.key, value) :: ·))

/-- One cut over every registered unit for one session, read from the watermark cache. -/
def snapshot (session : Nat) : Registry State × Except JsError Snapshot :=
  let (s, values) := snapshotOver session s.registrations.entries s
  (s, values.map fun values => { asOfSeq := (s.log session).length - 1, values })

def checkpointOver (session : Nat) : List (String × Registration State) → Registry State →
    Checkpoint State → Registry State × Checkpoint State
  | [], s, rows => (s, rows)
  | (_, registration) :: rest, s, rows =>
    let (s, cell) := s.cellFor registration session
    checkpointOver session rest s (rows.set registration.definition.key
      { ver := registration.definition.stateVersion, seq := cell.observedSeq, val := cell.state })

/-- State-level checkpoint of every registered unit for one session. -/
def checkpoint (session : Nat) : Registry State × Checkpoint State :=
  checkpointOver session s.registrations.entries s ∅

/-! ## Drive -/

/-- The cell the drive starts from: history before the event is folded when there is none. -/
def driveCell (registration : Registration State) (session : Nat) (event : SessionEvent) : UnitCell State :=
  match s.cells registration.id session with
  | some cell => cell
  | none => buildCell registration.definition ((s.log session).take event.seq.toNat)

/-- Eager drive: pass the event through the next unit, and notify on a change. A refused view throws. -/
def driveNext (dispatch : Dispatch) (rest : List Dispatch) (next : Nat) : Registry State :=
  match s.registrations.entries.find? fun kv => next ≤ kv.2.id with
  | none => { s with dispatches := { dispatch with progress := .after } :: rest }
  | some (_, registration) =>
    let cell := s.driveCell registration dispatch.session dispatch.event
    let applied := registration.definition.apply cell.state dispatch.event
    let s := s.setCell registration.id dispatch.session
      { state := applied.getD cell.state, observedSeq := dispatch.event.seq }
    let goOn (progress : Progress) : Registry State := { s with dispatches := { dispatch with progress } :: rest }
    match applied with
    | none => goOn (.driving (registration.id + 1) false)
    | some state =>
      if s.listeners = 0 then goOn (.driving (registration.id + 1) false)
      else
        match registration.definition.schema (registration.definition.view state) with
        | .error _ => goOn .after
        | .ok _ => goOn (.driving (registration.id + 1) true)

/-- Whether listeners are running, or nothing is: only then can anybody act. -/
def canAct : Bool :=
  match s.dispatches with
  | { progress := .driving _ false, .. } :: _ => false
  | _ => true

end Registry

/-! ## Actions -/

inductive RegistryAct (State : Type) where
  | register (definition : ErasedDefinition State)
  | unregister (key : String)
  | subscribe
  | unsubscribe
  | snapshot (session : Nat)
  | checkpoint (session : Nat)
  /-- A session commits an event, which reaches the registry's listener when it is attached. -/
  | append (session : Nat) (event : SessionEvent) (reached : Bool)
  /-- The registry's own listener is called. -/
  | drive
  | driveNext
  /-- The change listeners return. -/
  | notified
  /-- A change listener throws. -/
  | notifyThrows
  /-- The innermost dispatch ends. -/
  | dispatched

namespace Registry

variable {State : Type}

def step (s : Registry State) : RegistryAct State → Option (Registry State)
  | .register definition => if s.canAct then some (s.register definition).1 else none
  | .unregister key => if s.canAct then some (s.unregister key) else none
  | .subscribe => if s.canAct then some { s with listeners := s.listeners + 1 } else none
  | .unsubscribe => if s.canAct then some { s with listeners := s.listeners - 1 } else none
  | .snapshot session => if s.canAct then some (s.snapshot session).1 else none
  | .checkpoint session => if s.canAct then some (s.checkpoint session).1 else none
  | .append session event reached =>
    -- a session does not append while it publishes
    if s.canAct ∧ (∀ d ∈ s.dispatches, d.session ≠ session) ∧ event.seq = (s.log session).length then
      let s := { s with log := Function.update s.log session (s.log session ++ [event]) }
      some (if reached then { s with dispatches := { session, event } :: s.dispatches } else s)
    else none
  | .drive =>
    match s.dispatches with
    | dispatch :: rest =>
      if dispatch.progress = .before then
        some { s with dispatches := { dispatch with progress := .driving 0 false } :: rest }
      else none
    | [] => none
  | .driveNext =>
    match s.dispatches with
    | dispatch :: rest =>
      match dispatch.progress with
      | .driving next false => some (s.driveNext dispatch rest next)
      | _ => none
    | [] => none
  | .notified =>
    match s.dispatches with
    | dispatch :: rest =>
      match dispatch.progress with
      | .driving next true => some { s with dispatches := { dispatch with progress := .driving next false } :: rest }
      | _ => none
    | [] => none
  | .notifyThrows =>
    match s.dispatches with
    | dispatch :: rest =>
      match dispatch.progress with
      | .driving _ true => some { s with dispatches := { dispatch with progress := .after } :: rest }
      | _ => none
    | [] => none
  | .dispatched =>
    match s.dispatches with
    | dispatch :: rest => if dispatch.progress = .after then some { s with dispatches := rest } else none
    | [] => none

end Registry

end CocoHarness.Projection
