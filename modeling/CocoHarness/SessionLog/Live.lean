/-
# CocoHarness.SessionLog.Live — the event-sourced session.

A session is an append-only log with the surface manager over it, caches of what it has derived, and, while a store
holds it, the lifecycle flags of its store entry.  An append snapshots its input, validates it against the surface,
opens the publication boundary (`appending`), lets the dispatch listeners veto, commits, and lets the observers run;
whatever happens, the boundary closes again and a detach requested meanwhile is carried out.

What a listener does to the session is a script of calls (`ListenerAct`), each of which may throw into the listener.
-/
import CocoHarness.SessionLog.Admission
import CocoHarness.SessionLog.SurfaceManager

namespace CocoHarness.SessionLog

open Lib Lib.SafeInteger

/-! ## Data -/

structure EpochMs where
  ms : Int
  safe : IsSafe ms

theorem isSafe_zero : IsSafe 0 := by decide

/-- Surface metadata of an append; `undefined` is a field left out. -/
structure SurfaceIntent where
  sourceEventSeqs : JsValue := .undefined
  surfaceOp : JsValue := .undefined

structure AppendRequest where
  type : String
  data : JsValue
  opts : SurfaceIntent := {}
  now : EpochMs

/-- The mutable lifecycle state of a store entry; `entered` is the unspent detach capability. -/
structure SessionEntry where
  announced : Bool := false
  announcing : Bool := false
  appending : Bool := false
  detachRequested : Bool := false
  entered : Bool := true
  deriving DecidableEq

structure Session where
  id : String
  surfaceManager : SurfaceManager := { log := [] }
  firstLiveSeq : Nat := 0
  /-- Cached immutable public snapshot of the private log. -/
  eventsSnapshot : Option (List EventRef) := none
  /-- The derived-message cache, extended per unseen node. -/
  derived : List Json := []
  derivedNodes : Nat := 0
  derivedGeneration : Nat := 0
  /-- The identity the next event object gets. -/
  nextRef : Nat := 0
  entry : Option SessionEntry := none

/-! ## Candidates -/

def SurfaceIntent.metadata (opts : SurfaceIntent) : JsValue :=
  .obj ((match opts.sourceEventSeqs with | .undefined => [] | v => [("sourceEventSeqs", v)])
    ++ match opts.surfaceOp with | .undefined => [] | v => [("surfaceOp", v)])

def candidate (seq : Int) (request : AppendRequest) : Except JsError SessionEvent := do
  let some data := snapshotJsonValue request.data
    | throw (.error s!"session event \"{request.type}\" carries non-JSON-serializable data")
  assertSupportedRequestHeader request.type data s!"session event \"{request.type}\""
  let some metadata := snapshotJsonValue request.opts.metadata
    | throw (.error
        s!"session event \"{request.type}\" carries non-JSON-serializable surface metadata")
  return { type := request.type, seq, time := request.now.ms, data
           sourceEventSeqs := metadata.get? "sourceEventSeqs"
           surfaceOp := metadata.get? "surfaceOp" }

def reentrantAppend : JsError := .error "session append cannot reenter while another append is being published"

variable (entry : Option SessionEntry)

def isAppending : Bool := entry.any (·.appending)

/-! ## Lifecycle -/

/-- Detach: immediate, unless an announcement or an append is being published. -/
def detachEntry : Option SessionEntry :=
  entry.bind fun entry =>
    if ¬ entry.entered then some entry
    else if entry.announcing || entry.appending then
      some { entry with entered := false, detachRequested := true }
    else none

def openEntry (entry : SessionEntry) : SessionEntry := { entry with appending := true }

/-- Close the publication boundary, and carry out a detach requested while it was open. -/
def settleEntry : Option SessionEntry :=
  entry.bind fun entry =>
    if entry.detachRequested && !entry.announcing then none
    else some { entry with appending := false }

/-- Enter the store: a fresh entry, unless the session is attached already. -/
def enterEntry (id : String) (entry : Option SessionEntry) : Option SessionEntry × Except JsError Unit :=
  match entry with
  | none => (some {}, .ok ())
  | some entry => (some entry, .error (.error s!"session \"{id}\" is already attached to a store"))

def announceBeginEntry (id : String) (entry : Option SessionEntry) : Option SessionEntry × Except JsError Unit :=
  match entry with
  | none => (none, .error (.error s!"session \"{id}\" is not live in this store"))
  | some entry =>
    if entry.announced || entry.announcing then
      (some entry, .error (.error s!"session \"{id}\" was already announced"))
    else (some { entry with announced := true, announcing := true }, .ok ())

/-- End the announcement, and carry out a detach requested meanwhile. -/
def announceEndEntry : Option SessionEntry :=
  entry.bind fun entry =>
    if entry.detachRequested && !entry.appending then none
    else some { entry with announcing := false }

/-! ## Deriving messages -/

/-- Project the nodes one by one onto `messages`, and the error that stopped the projection. -/
def projectNodes (log : List SessionEvent) : List Json → List Int → List Json × Except JsError Unit
  | messages, [] => (messages, .ok ())
  | messages, seq :: nodes =>
    match eventAt log seq with
    | none => (messages, .error (.typeError "undefined" "type"))
    | some event =>
      match deriveEventMessage event with
      | .error e => (messages, .error e)
      | .ok message => projectNodes log (messages ++ (message.filter truthy).toList) nodes

namespace Session

variable (s : Session)

def log : List EventRef := s.surfaceManager.log

/-! ## Reads -/

/-- An immutable snapshot of the log, reused until the next append. -/
def events : Session × List EventRef :=
  match s.eventsSnapshot with
  | some snapshot => (s, snapshot)
  | none => ({ s with eventsSnapshot := some s.log }, s.log)

def surface : Session × Except JsError (List Int × Nat) :=
  match s.surfaceManager.nodes with
  | (m, .error e) => ({ s with surfaceManager := m }, .error e)
  | (m, .ok nodes) =>
    match m.replaceGeneration with
    | (m, .error e) => ({ s with surfaceManager := m }, .error e)
    | (m, .ok generation) => ({ s with surfaceManager := m }, .ok (nodes, generation))

/-- Drop the cache when the surface was rewritten since it was built. -/
def refreshCache (generation : Nat) : Session :=
  if generation ≠ s.derivedGeneration then
    { s with derived := [], derivedNodes := 0, derivedGeneration := generation }
  else s

/-- Derive the message history: project the nodes not seen yet and extend the cache. -/
def deriveMessages : Session × Except JsError (List Json) :=
  match s.surface with
  | (s, .error e) => (s, .error e)
  | (s, .ok (nodes, generation)) =>
    let s := s.refreshCache generation
    match projectNodes (eventsOf s.log) s.derived (nodes.drop s.derivedNodes) with
    | (derived, .error e) => ({ s with derived }, .error e)
    | (derived, .ok ()) => ({ s with derived, derivedNodes := nodes.length }, .ok derived)

def detach : Session := { s with entry := detachEntry s.entry }

def settle : Session := { s with entry := settleEntry s.entry }

/-! ## Append -/

/-- Everything an append does before it opens the publication boundary. -/
def admitAppend (request : AppendRequest) : Session × Except JsError EventRef :=
  match candidate s.log.length request with
  | .error e => (s, .error e)
  | .ok event =>
    if isAppending s.entry then (s, .error reentrantAppend)
    else
      let ref : EventRef := { ref := s.nextRef, event }
      match s.surfaceManager.validateNext ref with
      | (m, .error e) => ({ s with surfaceManager := m, nextRef := s.nextRef + 1 }, .error e)
      | (m, .ok ()) => ({ s with surfaceManager := m, nextRef := s.nextRef + 1 }, .ok ref)

def commit (event : EventRef) : Session :=
  { s with surfaceManager := s.surfaceManager.push event, eventsSnapshot := none }

end Session

/-! ## Listeners -/

inductive ListenerCall where
  | readSurface
  | deriveMessages
  | readEvents
  | append (request : AppendRequest)
  | detach

/-- One step of a listener: a call whose throw it catches or not, or a throw of its own. -/
inductive ListenerAct where
  | call (call : ListenerCall) (caught : Bool)
  | throw (error : JsError)

/-- The listeners of one append: what runs at dispatch, before the commit, and the observers. -/
structure Listeners where
  dispatch : List ListenerAct := []
  observers : List (List ListenerAct) := []

namespace Session

/-- Run one call of a listener; an append it attempts is refused. -/
def runCall (s : Session) : ListenerCall → Session × Except JsError Unit
  | .readSurface => (s.surface.1, s.surface.2.map fun _ => ())
  | .deriveMessages => (s.deriveMessages.1, s.deriveMessages.2.map fun _ => ())
  | .readEvents => (s.events.1, .ok ())
  | .append request =>
    match s.admitAppend request with
    | (s, .error e) => (s, .error e)
    | (s, .ok event) => (s.commit event, .ok ())
  | .detach => (s.detach, .ok ())

def runListener (s : Session) : List ListenerAct → Session × Except JsError Unit
  | [] => (s, .ok ())
  | .throw e :: _ => (s, .error e)
  | .call call caught :: rest =>
    match s.runCall call with
    | (s, .ok ()) => s.runListener rest
    | (s, .error e) => if caught then s.runListener rest else (s, .error e)

def runObservers (s : Session) (observers : List (List ListenerAct)) : Session :=
  observers.foldl (fun s listener => (s.runListener listener).1) s

def append (s : Session) (request : AppendRequest) (listeners : Listeners) : Session × Except JsError EventRef :=
  match s.admitAppend request with
  | (s, .error e) => (s, .error e)
  | (s, .ok event) =>
    match s.entry with
    | none => (s.commit event, .ok event)
    | some entry =>
      let s := { s with entry := some (openEntry entry) }
      match s.runListener listeners.dispatch with
      | (s, .error e) => (s.settle, .error e)
      | (s, .ok ()) => (((s.commit event).runObservers listeners.observers).settle, .ok event)

/-! ## Construction -/

def endSeed (now : EpochMs) : AppendRequest := { type := "session/end-seed", data := .obj [], now }

/-- The checks of one seed event by itself: lossless, its shape, the vocabulary, and its seq. -/
def admitSeed (source : JsValue) (index : Nat) : Except JsError SessionEvent := do
  let some snapshot := snapshotJsonValue source
    | throw (.error s!"seed event at index {index} is not losslessly JSON-serializable")
  let event ← assertSessionEventEnvelope snapshot index
  assertSupportedRequestHeader event.type event.data s!"seed event at index {index}"
  if event.seq ≠ index then
    throw (.error (s!"seed event at index {index} has seq {event.seq} (expected {index}); "
      ++ "seed must be contiguous from 0"))
  else return event

/-- The constructor's loop over the seed events from position `index` on. -/
def seedLoop (s : Session) (index : Nat) : List JsValue → Except JsError Session
  | [] => .ok s
  | source :: rest => do
    let event ← admitSeed source index
    let ref : EventRef := { ref := s.nextRef, event }
    match s.surfaceManager.validateNext ref with
    | (_, .error e) => throw (.error s!"invalid seed event at index {index}: {e.message}")
    | (m, .ok ()) => seedLoop { s with surfaceManager := m.push ref, nextRef := s.nextRef + 1 } (index + 1) rest

/-- Validate and snapshot the seed events. Values fresh from the JSON parser are their own snapshots. -/
def create (id : String) (seed : Option (List JsValue)) (now : EpochMs) : Except JsError Session := do
  let s ← seedLoop { id } 0 (seed.getD [])
  let s := { s with firstLiveSeq := s.log.length }
  if seed.isSome ∧ s.log.getLast?.map (·.event.type) ≠ some "session/end-seed" then
    match s.append (endSeed now) {} with
    | (_, .error e) => throw e
    | (s, .ok _) => return s
  else return s

end Session

/-! ## Operations -/

/-- One operation; an announcement is its two edges, with its listeners in between. -/
inductive SessionOp where
  | append (request : AppendRequest) (listeners : Listeners)
  | readSurface
  | deriveMessages
  | readEvents
  | enter
  | announceBegin
  | announceEnd
  | detach

inductive SessionReply where
  | done
  | appended (event : SessionEvent)
  | surface (nodes : List Int) (generation : Nat)
  | messages (messages : List Json)
  | events (events : List SessionEvent)
  | threw (error : JsError)
  deriving DecidableEq

def SessionReply.of {α : Type} (ok : α → SessionReply) : Except JsError α → SessionReply
  | .ok a => ok a
  | .error e => .threw e

def sessionStep (s : Session) : SessionOp → Session × SessionReply
  | .append request listeners => (s.append request listeners).map id (.of fun event => .appended event.event)
  | .readSurface => s.surface.map id (.of fun p => .surface p.1 p.2)
  | .deriveMessages => s.deriveMessages.map id (.of .messages)
  | .readEvents => s.events.map id fun events => .events (eventsOf events)
  | .enter => ({ s with entry := (enterEntry s.id s.entry).1 }, .of (fun _ => .done) (enterEntry s.id s.entry).2)
  | .announceBegin =>
    ({ s with entry := (announceBeginEntry s.id s.entry).1 }, .of (fun _ => .done) (announceBeginEntry s.id s.entry).2)
  | .announceEnd => ({ s with entry := announceEndEntry s.entry }, .done)
  | .detach => (s.detach, .done)

/-- The states of sessions: created from some seed and worked on by some operations. -/
inductive Session.Reachable : Session → Prop
  | create {id : String} {seed : Option (List JsValue)} {now : EpochMs} {s : Session} :
      Session.create id seed now = .ok s → Reachable s
  | step {s : Session} (op : SessionOp) : Reachable s → Reachable (sessionStep s op).1

end CocoHarness.SessionLog
