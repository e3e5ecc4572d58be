/-
# CocoHarness.Agent.Inbox — the pending messages of an agent, projected from its session.

An inbox keeps two lists of messages and owns no other record of them than the session's log: every change is one
normalized splice, which is validated against the lists, appended to the session as an `agent/inbox/spliced` event,
and applied from the event that entered the log.  Constructing an inbox replays the splices the session has logged
after its seed.

The listeners of a splice's event run inside its append, before the lists change, so what they attempt on the inbox
is refused with the session's own re-entrancy error and is part of the append's listeners here.
-/
import CocoHarness.Lib.ArraySplice
import CocoHarness.SessionLog.Live

namespace CocoHarness.Agent

open Lib Lib.SafeInteger SessionLog

/-! ## Messages -/

inductive InboxTarget where
  | nextTurn
  | nextStep
  deriving DecidableEq

def InboxTarget.text : InboxTarget → String
  | .nextTurn => "next-turn"
  | .nextStep => "next-step"

def InboxTarget.read? : String → Option InboxTarget
  | "next-turn" => some .nextTurn
  | "next-step" => some .nextStep
  | _ => none

/-- A message as a caller passes it: its identity, and its other fields. -/
structure UserMessage where
  id : String
  fields : List (String × JsValue)
  own : "id" ∉ fields.map Prod.fst

def UserMessage.toJs (message : UserMessage) : JsValue := .obj (("id", .str message.id) :: message.fields)

def messageId? (value : Json) : Option String := (field? (some value) "id").bind Json.str?

structure Pending where
  value : Json
  id : String
  typed : messageId? value = some id

def Pending.read? (value : Json) : Option Pending :=
  match h : messageId? value with
  | some id => some ⟨value, id, h⟩
  | none => none

/-! ## The durable splice -/

structure Splice where
  target : InboxTarget
  start : Number
  removedCount : Option Number
  inserted : List Pending
  canceled : Bool

def spliced : String := "agent/inbox/spliced"

def Splice.read? (data : Json) : Option Splice := do
  let target ← (field? (some data) "target").bind Json.str? >>= InboxTarget.read?
  let start ← (field? (some data) "start").bind Json.num?
  let removedCount ← match field? (some data) "removedCount" with
    | none => some none
    | some count => count.num?.map some
  let inserted ← (field? (some data) "inserted").bind Json.arr?
  let inserted ← inserted.mapM Pending.read?
  return { target, start, removedCount, inserted, canceled := (field? (some data) "outcome").isSome }

/-! ## Normalization -/

inductive Truncated where
  | nan
  | infinity (negative : Bool)
  | negZero
  | int (n : Int)

/-- `Math.trunc`; it keeps the sign of what it truncates to zero. -/
def trunc : JsNumber → Truncated
  | .nan => .nan
  | .infinity negative => .infinity negative
  | .negZero => .negZero
  | .finite (.int n) => .int n
  | .finite (.frac m p h) =>
    if (Number.frac m p h).integral = 0 ∧ m < 0 then .negZero else .int (Number.frac m p h).integral

/-- Where a splice starts: a position, or negative zero, which `Math.min` passes on. -/
inductive ActualStart where
  | position (n : Nat)
  | negZero

def ActualStart.toNat : ActualStart → Nat
  | .position n => n
  | .negZero => 0

def ActualStart.toJs : ActualStart → JsValue
  | .position n => .num (.int n)
  | .negZero => .unserializableNumber

def actualStart (length : Nat) (start : JsNumber) : ActualStart :=
  match trunc start with
  | .nan => .position 0
  | .infinity true => .position 0
  | .infinity false => .position length
  | .negZero => .negZero
  | .int n => if n < 0 then .position (max (length + n) 0).toNat else .position (min n length).toNat

/-- Clamp the truncated delete count; `Math.max(-0, 0)` is zero. -/
def actualDeleteCount (room : Nat) (deleteCount : JsNumber) : Nat :=
  match trunc deleteCount with
  | .nan => 0
  | .infinity true => 0
  | .infinity false => room
  | .negZero => 0
  | .int n => min (max n 0).toNat room

/-! ## The lists -/

structure InboxState where
  nextTurn : List Pending := []
  nextStep : List Pending := []

namespace InboxState

variable (s : InboxState)

def get : InboxTarget → List Pending
  | .nextTurn => s.nextTurn
  | .nextStep => s.nextStep

def set (messages : List Pending) : InboxTarget → InboxState
  | .nextTurn => { s with nextTurn := messages }
  | .nextStep => { s with nextStep := messages }

def hasPending : Bool := !s.nextTurn.isEmpty || !s.nextStep.isEmpty

/-- Every pending identity, in the order validation visits them. -/
def ids : List String := s.nextTurn.map Pending.id ++ s.nextStep.map Pending.id

def locate (id : String) : Option (InboxTarget × Nat) :=
  match s.nextTurn.findIdx? (·.id == id) with
  | some index => some (.nextTurn, index)
  | none => (s.nextStep.findIdx? (·.id == id)).map fun index => (.nextStep, index)

def checkIds (seen : List String) : List String → Except JsError Unit
  | [] => .ok ()
  | id :: rest =>
    if id ∈ seen then .error (.error s!"message \"{id}\" is already pending")
    else checkIds (id :: seen) rest

def candidateIds (target : InboxTarget) (position count : Nat) (inserted : List String) : List String :=
  let candidate := (cut ((s.get target).map Pending.id) position count inserted).2
  match target with
  | .nextTurn => candidate ++ s.nextStep.map Pending.id
  | .nextStep => s.nextTurn.map Pending.id ++ candidate

def validate (target : InboxTarget) (start removedCount : Number) (inserted : List String) : Except JsError Unit :=
  match start, removedCount with
  | .int start, .int removed =>
    if ¬ IsSafe start ∨ start < 0 ∨ start > (s.get target).length ∨ ¬ IsSafe removed ∨ removed < 0
        ∨ start + removed > (s.get target).length then .error (.error "invalid inbox splice")
    else checkIds [] (s.candidateIds target start.toNat removed.toNat inserted)
  | _, _ => .error (.error "invalid inbox splice")

def apply (splice : Splice) : Except JsError InboxState :=
  match s.validate splice.target splice.start (splice.removedCount.getD (.int 0))
    (splice.inserted.map Pending.id) with
  | .error e => .error e
  | .ok () =>
    let position := splice.start.integral.toNat
    let count := (splice.removedCount.getD (.int 0)).integral.toNat
    .ok (s.set (cut (s.get splice.target) position count splice.inserted).2 splice.target)

/-- One event of the replay; data that does not have its static type is an invalid splice. -/
def replayEvent (event : SessionEvent) : Except JsError InboxState :=
  if event.type ≠ spliced then .ok s
  else
    match Splice.read? event.data with
    | none => .error (.error s!"invalid persisted inbox splice at session seq {event.seq}")
    | some splice =>
      match s.apply splice with
      | .error _ => .error (.error s!"invalid persisted inbox splice at session seq {event.seq}")
      | .ok s => .ok s

/-- The lists the constructor replays from a log, whose first `seedLength` events are inherited. -/
def replay (seedLength : Nat) (log : List SessionEvent) : Except JsError InboxState :=
  (log.drop seedLength).foldlM replayEvent {}

end InboxState

/-! ## The inbox -/

structure Inbox where
  session : Session
  state : InboxState

/-- What the append of a splice event meets: its listeners, and the clock. -/
structure Publication where
  listeners : Listeners := {}
  now : EpochMs

def spliceData (target : InboxTarget) (start : ActualStart) (count : Nat) (inserted : List UserMessage)
    (canceled : Bool) : JsValue :=
  .obj ([("target", .str target.text), ("start", start.toJs)]
    ++ (if count = 0 then [] else [("removedCount", .num (.int count))])
    ++ [("inserted", .arr (inserted.map UserMessage.toJs))]
    ++ (if canceled then [("outcome", .str "canceled")] else []))

namespace Inbox

def create (session : Session) (seedLength : Nat) : Except JsError Inbox :=
  match InboxState.replay seedLength (eventsOf session.log) with
  | .error e => .error e
  | .ok state => .ok { session, state }

variable (inbox : Inbox)

def mutate (target : InboxTarget) (start deleteCount : JsNumber)
    (inserted : List UserMessage) (discardRemoved : Bool) (p : Publication) :
    Inbox × Except JsError (List Pending) :=
  let messages := inbox.state.get target
  let start := actualStart messages.length start
  let count := actualDeleteCount (messages.length - start.toNat) deleteCount
  if count = 0 ∧ inserted = [] then (inbox, .ok [])
  else
    match inbox.state.validate target (.int start.toNat) (.int count) (inserted.map UserMessage.id) with
    | .error e => (inbox, .error e)
    | .ok () =>
      let canceled := discardRemoved && decide (0 < count)
      let data := spliceData target start count inserted canceled
      match inbox.session.append { type := spliced, data, now := p.now } p.listeners with
      | (session, .error e) => ({ inbox with session }, .error e)
      | (session, .ok event) =>
        let inserted := ((Splice.read? event.event.data).map Splice.inserted).getD []
        let spliced := cut messages start.toNat count inserted
        ({ session, state := inbox.state.set spliced.2 target }, .ok spliced.1)

/-- Apply standard splice semantics and durably record the normalized result. -/
def splice (target : InboxTarget) (start deleteCount : JsNumber)
    (inserted : List UserMessage) (p : Publication) : Inbox × Except JsError (List Pending) :=
  inbox.mutate target start deleteCount inserted true p

def position (n : Nat) : JsNumber := .finite (.int n)

def append (target : InboxTarget) (message : UserMessage) (p : Publication) : Inbox × Except JsError (List Pending) :=
  inbox.splice target (position (inbox.state.get target).length) (position 0) [message] p

def prepend (target : InboxTarget) (message : UserMessage) (p : Publication) : Inbox × Except JsError (List Pending) :=
  inbox.splice target (position 0) (position 0) [message] p

def replace (id : String) (message : UserMessage) (p : Publication) : Inbox × Except JsError (List Pending) :=
  match inbox.state.locate id with
  | none => (inbox, .ok [])
  | some (target, index) => inbox.splice target (position index) (position 1) [message] p

def remove (id : String) (p : Publication) : Inbox × Except JsError (List Pending) :=
  match inbox.state.locate id with
  | none => (inbox, .ok [])
  | some (target, index) => inbox.splice target (position index) (position 1) [] p

/-- Cancel all pending input: one splice for each list, next-step first. -/
def clear (p q : Publication) : Inbox × Except JsError (List Pending) :=
  match inbox.splice .nextStep (position 0) (position inbox.state.nextStep.length) [] p with
  | (inbox, .error e) => (inbox, .error e)
  | (inbox, .ok _) => inbox.splice .nextTurn (position 0) (position inbox.state.nextTurn.length) [] q

/-- The batch proposed for one step: all next-step input, and one queued turn when requested. -/
def claim (target : InboxTarget) (p q : Publication) : Inbox × Except JsError (List Pending) :=
  match inbox.mutate .nextStep (position 0) (position inbox.state.nextStep.length) [] false p with
  | (inbox, .error e) => (inbox, .error e)
  | (inbox, .ok claimed) =>
    match target with
    | .nextStep => (inbox, .ok claimed)
    | .nextTurn =>
      match inbox.mutate .nextTurn (position 0) (position 1) [] false q with
      | (inbox, .error e) => (inbox, .error e)
      | (inbox, .ok queued) => (inbox, .ok (claimed ++ queued))

end Inbox

/-! ## Operations -/

/-- An operation on an inbox, or one on its session that is not a splice. -/
inductive InboxOp where
  | splice (target : InboxTarget) (start deleteCount : JsNumber) (inserted : List UserMessage)
      (p : Publication)
  | append (target : InboxTarget) (message : UserMessage) (p : Publication)
  | prepend (target : InboxTarget) (message : UserMessage) (p : Publication)
  | replace (id : String) (message : UserMessage) (p : Publication)
  | remove (id : String) (p : Publication)
  | clear (p q : Publication)
  | claim (target : InboxTarget) (p q : Publication)
  | session (op : SessionOp) (other : ∀ request listeners, op = .append request listeners → request.type ≠ spliced)

def inboxStep (inbox : Inbox) : InboxOp → Inbox × Except JsError (List Pending)
  | .splice target start deleteCount inserted p => inbox.splice target start deleteCount inserted p
  | .append target message p => inbox.append target message p
  | .prepend target message p => inbox.prepend target message p
  | .replace id message p => inbox.replace id message p
  | .remove id p => inbox.remove id p
  | .clear p q => inbox.clear p q
  | .claim target p q => inbox.claim target p q
  | .session op _ => ({ inbox with session := (sessionStep inbox.session op).1 }, .ok [])

end CocoHarness.Agent
