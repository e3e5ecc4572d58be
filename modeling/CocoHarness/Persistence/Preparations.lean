/-
# CocoHarness.Persistence.Preparations — bounded sharing and exclusive reservation of cold sessions.

A cold session is loaded once for all callers that ask for it.  Its entry in the table goes from loading to ready; a
reserver takes a ready entry through committing to reserved, and either consumes it or gives it back.  Callers wait
on promises: for the load on the entry's `result`, and for a reservation to end on the `reservationSettled` promise
of that reservation.

Entries, promises, calls and reservations are objects with identity, named by the order of their creation.
-/
import CocoHarness.Lib.InsertionMap
import CocoHarness.Lib.Machine
import CocoHarness.SessionLog.JsonValue

namespace CocoHarness.Persistence

open Lib SessionLog

/-! ## Data -/

inductive PreparationPhase where
  | loading
  | ready
  | committing
  | reserved
  deriving DecidableEq

inductive LoadResult (Source : Type) where
  | pending
  | resolved (source : Source)
  | rejected (reason : JsError)

structure PreparationEntry (Source : Type) where
  id : String
  /-- Whether the loader's own promise is still pending. -/
  loads : Bool := true
  result : LoadResult Source := .pending
  phase : PreparationPhase := .loading
  source : Option Source := none
  reservation : Option Nat := none
  /-- `reservationSettled`, with `settleReservation`. -/
  reservationSettled : Option Nat := none

/-- One exclusively held prepared source and its committed persistence state. -/
structure Reservation (Source CommitState : Type) where
  entry : Nat
  source : Source
  state : CommitState

inductive Outcome (Source : Type) where
  | source (source : Source)
  | reservation (reservation : Nat)
  | undefined
  | threw (reason : JsError)

inductive Call (Source : Type) where
  /-- `inspect`, awaiting the load. -/
  | inspect (entry : Nat)
  /-- `reserve`, awaiting the load. -/
  | loading (entry : Nat)
  /-- `reserve`, awaiting the end of another reservation. -/
  | waiting (entry promise : Nat)
  /-- `reserve`, awaiting its commit of the source. -/
  | committing (entry : Nat)
  | done (outcome : Outcome Source)

structure Preparations (Source CommitState : Type) where
  capacity : Nat
  /-- The table of entries by session id, in LRU order. -/
  entries : InsertionMap String Nat := ∅
  entry : Nat → PreparationEntry Source := fun _ => { id := "", loads := false }
  entryCount : Nat := 0
  /-- Which reservation promises are settled. -/
  settled : Nat → Bool := fun _ => false
  promiseCount : Nat := 0
  call : Nat → Call Source := fun _ => .done .undefined
  callCount : Nat := 0
  reservation : Nat → Option (Reservation Source CommitState) := fun _ => none
  reservationCount : Nat := 0

namespace Preparations

variable {Source CommitState : Type}

/-! ## The table -/

variable (s : Preparations Source CommitState)

def inTable (e : Nat) : Bool := s.entries.lookup (s.entry e).id == some e

def has (id : String) : Bool := (s.entries.lookup id).isSome

def readyCount : Nat :=
  s.entries.entries.countP fun kv => (s.entry kv.2).phase = .ready

def update (e : Nat) (f : PreparationEntry Source → PreparationEntry Source) : Preparations Source CommitState :=
  { s with entry := Function.update s.entry e (f (s.entry e)) }

def setCall (c : Nat) (call : Call Source) : Preparations Source CommitState :=
  { s with call := Function.update s.call c call }

def settleReservation (e : Nat) : Preparations Source CommitState :=
  match (s.entry e).reservationSettled with
  | none => s
  | some p =>
    { s.update e fun entry => { entry with reservationSettled := none } with
      settled := Function.update s.settled p true }

/-- Remove an entry, settling those who wait for its reservation. -/
def remove (e : Nat) : Preparations Source CommitState :=
  if ¬ s.inTable e then s
  else { s with entries := s.entries.erase (s.entry e).id }.settleReservation e

/-- Make an entry the last in the order, and evict the first ready one when there are too many. -/
def touch (e : Nat) : Preparations Source CommitState :=
  let s := { s with entries := (s.entries.erase (s.entry e).id).set (s.entry e).id e }
  if s.readyCount ≤ s.capacity then s
  else
    match s.entries.entries.find? fun kv => (s.entry kv.2).phase = .ready with
    | none => s
    | some kv => { s with entries := s.entries.erase kv.1 }

def makeReady (e : Nat) : Preparations Source CommitState :=
  if ¬ s.inTable e then s
  else ((s.update e fun entry => { entry with phase := .ready }).settleReservation e).touch e

def entryFor (id : String) : Preparations Source CommitState × Nat :=
  match s.entries.lookup id with
  | some e => (s, e)
  | none =>
    ({ s with
        entries := s.entries.set id s.entryCount
        entry := Function.update s.entry s.entryCount { id }
        entryCount := s.entryCount + 1 }, s.entryCount)

def start (call : Call Source) : Preparations Source CommitState :=
  { s with call := Function.update s.call s.callCount call, callCount := s.callCount + 1 }

/-! ## Loads -/

def loaded (e : Nat) (source : Source) : Preparations Source CommitState :=
  let s := s.update e fun entry => { entry with loads := false }
  let s := if s.inTable e then (s.update e fun entry => { entry with source := some source }).makeReady e
    else s
  s.update e fun entry => { entry with result := .resolved source }

def loadFailed (e : Nat) (reason : JsError) : Preparations Source CommitState :=
  ((s.update e fun entry => { entry with loads := false }).remove e).update e fun entry =>
    { entry with result := .rejected reason }

/-! ## Calls -/

/-- `inspect` after the load: the entry counts as used, if it is still ready. -/
def inspected (c e : Nat) (loaded : Source) : Preparations Source CommitState :=
  let source := (s.entry e).source.getD loaded
  let s := if s.inTable e ∧ (s.entry e).phase = .ready then s.touch e else s
  s.setCall c (.done (.source source))

/-- `reserve` at the head of its loop: wait, give up on an entry that has left, or start the commit. -/
def tryReserve (c e : Nat) : Preparations Source CommitState :=
  if ¬ s.inTable e then s.setCall c (.done .undefined)
  else if (s.entry e).phase ≠ .ready then
    match (s.entry e).reservationSettled with
    | none => s.setCall c (.done (.threw (.error
        s!"session \"{(s.entry e).id}\" preparation lost its reservation waiter")))
    | some p => s.setCall c (.waiting e p)
  else
    { s.update e fun entry =>
        { entry with phase := .committing, reservationSettled := some s.promiseCount } with
      settled := Function.update s.settled s.promiseCount false
      promiseCount := s.promiseCount + 1 }.setCall c (.committing e)

inductive Commit (Source CommitState : Type) where
  | failed (reason : JsError)
  | refused
  /-- The source was committed; the caller's signal may have aborted meanwhile. -/
  | committed (source : Source) (state : CommitState) (aborted : Option JsError)

def committed (c e : Nat) : Commit Source CommitState → Preparations Source CommitState
  | .failed reason => (s.remove e).setCall c (.done (.threw reason))
  | .refused => (s.remove e).setCall c (.done .undefined)
  | .committed source state aborted =>
    let s := s.update e fun entry => { entry with source := some source }
    match aborted with
    | some reason => (s.makeReady e).setCall c (.done (.threw reason))
    | none =>
      if ¬ s.inTable e then s.setCall c (.done .undefined)
      else
        { s.update e fun entry =>
            { entry with phase := .reserved, reservation := some s.reservationCount } with
          reservation := Function.update s.reservation s.reservationCount
            (some { entry := e, source, state })
          reservationCount := s.reservationCount + 1
        }.setCall c (.done (.reservation s.reservationCount))

/-! ## Reservations -/

/-- Whether a reservation is the one its entry, still in the table, is held by. -/
def current (r : Nat) (reservation : Reservation Source CommitState) : Bool :=
  s.inTable reservation.entry && (s.entry reservation.entry).reservation == some r

def attach (r : Nat) (reservation : Reservation Source CommitState) :
    Preparations Source CommitState × Except JsError Unit :=
  if ¬ s.current r reservation then
    (s, .error (.error s!"session \"{(s.entry reservation.entry).id}\" preparation is no longer reserved"))
  else (s.remove reservation.entry, .ok ())

/-- Consume a reservation whose caller only needs the committed inspection. -/
def discard (r : Nat) (reservation : Reservation Source CommitState) : Preparations Source CommitState :=
  if ¬ s.current r reservation then s else s.remove reservation.entry

def release (r : Nat)
    (reservation : Reservation Source CommitState) (reusable : Bool) : Preparations Source CommitState :=
  if ¬ (s.current r reservation ∧ (s.entry reservation.entry).phase = .reserved) then s
  else if ¬ reusable then s.remove reservation.entry
  else (s.update reservation.entry fun entry => { entry with reservation := none }).makeReady
    reservation.entry

/-! ## Requests by id -/

def invalidate (id : String) : Preparations Source CommitState :=
  match s.entries.lookup id with
  | none => s
  | some e => s.remove e

/-- Discard an exact stale ready source; the flag is whether it was. -/
def discardReady [DecidableEq Source] (s : Preparations Source CommitState) (id : String)
    (expected : Source) : Preparations Source CommitState × String :=
  match s.entries.lookup id with
  | none => (s, "missing")
  | some e =>
    if (s.entry e).source ≠ some expected then (s, "missing")
    else if (s.entry e).phase ≠ .ready then (s, "retained")
    else (s.remove e, "discarded")

def takeReady (id : String) : Preparations Source CommitState × Option Source :=
  match s.entries.lookup id with
  | none => (s, none)
  | some e =>
    match (s.entry e).phase, (s.entry e).source with
    | .ready, some source => (s.remove e, some source)
    | _, _ => (s, none)

def assertWritable (id : String) : Except JsError Unit :=
  match (s.entries.lookup id).map fun e => (s.entry e).phase with
  | some .committing | some .reserved => .error (.error
      s!"cannot append session \"{id}\" while its persisted preparation is reserved")
  | _ => .ok ()

/-- The reservation of a session about to be published; `sessionOf` names the session of a source. -/
def reservationFor {Session : Type} [DecidableEq Session] (s : Preparations Source CommitState)
    (sessionOf : Source → Session) (id : String) (session : Session) : Except JsError (Option Nat) :=
  match s.entries.lookup id with
  | none => .ok none
  | some e =>
    match (s.entry e).phase, (s.entry e).reservation with
    | .reserved, some r =>
      if (s.entry e).source.map sessionOf = some session then .ok (some r)
      else .error (.error s!"cannot publish session \"{id}\": persisted state already owns this identity")
    | _, _ => .error (.error s!"cannot publish session \"{id}\": persisted state already owns this identity")

end Preparations

/-! ## Actions -/

inductive PreparationAct (Source CommitState : Type) where
  | inspect (id : String)
  | reserve (id : String)
  | loaded (entry : Nat) (source : Source)
  | loadFailed (entry : Nat) (reason : JsError)
  /-- A call goes on after a promise it awaited has settled. -/
  | resume (call : Nat)
  /-- The signal of a call aborts while it is waiting. -/
  | abort (call : Nat) (reason : JsError)
  | commit (call : Nat) (outcome : Preparations.Commit Source CommitState)
  | attach (reservation : Nat)
  | discard (reservation : Nat)
  | release (reservation : Nat) (reusable : Bool)
  | invalidate (id : String)
  | discardReady (id : String) (expected : Source)
  | takeReady (id : String)

namespace Preparations

variable {Source CommitState : Type} [DecidableEq Source]

variable (s : Preparations Source CommitState)

def resume (c : Nat) : Option (Preparations Source CommitState) :=
  match s.call c with
  | .inspect e =>
    match (s.entry e).result with
    | .pending => none
    | .resolved source => some (s.inspected c e source)
    | .rejected reason => some (s.setCall c (.done (.threw reason)))
  | .loading e =>
    match (s.entry e).result with
    | .pending => none
    | .resolved _ => some (s.tryReserve c e)
    | .rejected reason => some (s.setCall c (.done (.threw reason)))
  | .waiting e p => if s.settled p then some (s.tryReserve c e) else none
  | .committing _ | .done _ => none

/-- Abort a call that is waiting; a commit in progress is not abandoned. -/
def abort (c : Nat) (reason : JsError) : Option (Preparations Source CommitState) :=
  match s.call c with
  | .inspect _ | .loading _ | .waiting _ _ => some (s.setCall c (.done (.threw reason)))
  | .committing _ | .done _ => none

def step : PreparationAct Source CommitState → Option (Preparations Source CommitState)
  | .inspect id => some ((s.entryFor id).1.start (.inspect (s.entryFor id).2))
  | .reserve id => some ((s.entryFor id).1.start (.loading (s.entryFor id).2))
  | .loaded e source => if (s.entry e).loads then some (s.loaded e source) else none
  | .loadFailed e reason => if (s.entry e).loads then some (s.loadFailed e reason) else none
  | .resume c => s.resume c
  | .abort c reason => s.abort c reason
  | .commit c outcome =>
    match s.call c with
    | .committing e => some (s.committed c e outcome)
    | _ => none
  | .attach r => (s.reservation r).map fun reservation => (s.attach r reservation).1
  | .discard r => (s.reservation r).map fun reservation => s.discard r reservation
  | .release r reusable => (s.reservation r).map fun reservation => s.release r reservation reusable
  | .invalidate id => some (s.invalidate id)
  | .discardReady id expected => some (s.discardReady id expected).1
  | .takeReady id => some (s.takeReady id).1

/-! ## Who holds an id -/

inductive Holder where
  /-- A call committing the source. -/
  | committing (call : Nat)
  | reserved (reservation : Nat)
  deriving DecidableEq

/-- The call or reservation holds the id: the table's entry is being committed by it, or reserved for it. -/
def Holds (id : String) : Holder → Prop
  | .committing c => ∃ e, s.call c = .committing e ∧ s.entries.lookup id = some e
  | .reserved r => ∃ reservation, s.reservation r = some reservation ∧ s.entries.lookup id = some reservation.entry
      ∧ (s.entry reservation.entry).reservation = some r

end Preparations

end CocoHarness.Persistence
