/-
# CocoHarness.Client.SessionManager — the requests a client is asked to answer, across reconnects.

A request of the host, an approval or a question, is kept in up to three places of the client.  The list
shows it, for every session.  A session that is instantiated has it among its pending interactions, from
where the user answers it; for one that is not, its frame waits in a buffer until the instance is built.

Frames come over one mux stream, in order.  A connection generation opens its stream with the baseline
frames of the sessions and a replay of every request that still waits; the connected notification comes
from the readiness handshake, at any moment between frames.
-/
import CocoHarness.Lib.InsertionMap
import CocoHarness.Lib.Machine

namespace CocoHarness.Client

open Lib Function

/-! ## Frames -/

/-- What decides how the list shows a question; `intent` is the label that approves a plan review. -/
structure Question where
  intent : Option String := none
  detail : Option String := none
  multiSelect : Option Bool := none
  options : Option (List String) := none
  deriving DecidableEq

structure Approval where
  approvalId : String
  toolName : String
  callId : Option String := none
  reason : Option String := none
  deriving DecidableEq

inductive MuxFrame where
  | approvalRequested (approval : Approval)
  | approvalResolved (approvalId : String)
  | questionRequested (questions : List Question)
  | questionResolved (questionRpcId : String)
  | queue
  | subscribed
  deriving DecidableEq

structure Envelope where
  rpcId : String
  sessionId : String
  payload : MuxFrame
  deriving DecidableEq

inductive PendingInteractionStatus where
  | approval
  | planReview
  | question
  deriving DecidableEq

def questionInteractionStatus : List Question → PendingInteractionStatus
  | [question] =>
    match question.intent with
    | some approve =>
      if question.detail = none then .question
      else if question.multiSelect = some true then .question
      else if (question.options.getD []).length > 2 then .question
      else if approve ∈ question.options.getD [] then .planReview
      else .question
    | none => .question
  | _ => .question

/-- Stable identity of a frame retained until an uninstantiated session can consume it. -/
inductive Identity where
  | approval (approvalId : String)
  | question (rpcId : String)
  | queue
  deriving DecidableEq

def bufferedRequestKey (e : Envelope) : Option Identity :=
  match e.payload with
  | .approvalRequested approval => some (.approval approval.approvalId)
  | .questionRequested _ => some (.question e.rpcId)
  | .queue => some .queue
  | _ => none

/-! ## The session's pending interactions -/

inductive PendingKind where
  | approval
  | question
  deriving DecidableEq

inductive Ask where
  | approval (approval : Approval)
  | question (questions : List Question)
  deriving DecidableEq

def Ask.kind : Ask → PendingKind
  | .approval _ => .approval
  | .question _ => .question

/-- A pending wait: the requested frame's fields, and the id a response is sent to. -/
structure PendingWait where
  rpcId : String
  ask : Ask
  deriving DecidableEq

/-- The key of a wait, which doubles as the key of the pending map. -/
def PendingWait.key (w : PendingWait) : PendingKind × String := (w.ask.kind, w.rpcId)

def PendingWait.hasApprovalId (w : PendingWait) (approvalId : String) : Bool :=
  match w.ask with
  | .approval approval => approval.approvalId = approvalId
  | .question _ => false

/-- The part of a client session that keeps its pending interactions, each under its own key. -/
structure PendingSession where
  cold : Bool := true
  pending : InsertionMap (PendingKind × String) PendingWait := ∅
  keyed : ∀ e ∈ pending.entries, e.1 = e.2.key := by simp

namespace PendingSession

variable (s : PendingSession)

def mint (w : PendingWait) : PendingSession where
  cold := s.cold
  pending := s.pending.set w.key w
  keyed := by
    intro e he
    rcases InsertionMap.mem_entries_set he with rfl | ⟨-, hold⟩
    · rfl
    · exact s.keyed e hold

def settle (w : PendingWait) : PendingSession where
  cold := s.cold
  pending := s.pending.erase w.key
  keyed := fun e he => s.keyed e (InsertionMap.mem_entries_erase.mp he).2

def handleMuxEnvelope (rpcId : String) : MuxFrame → PendingSession
  | .approvalRequested approval => s.mint ⟨rpcId, .approval approval⟩
  | .approvalResolved approvalId =>
    (s.pending.entries.map Prod.snd).foldl
      (fun s item => if item.hasApprovalId approvalId then s.settle item else s) s
  | .questionRequested questions => s.mint ⟨rpcId, .question questions⟩
  | .questionResolved questionRpcId =>
    match s.pending.lookup (.question, questionRpcId) with
    | some item => s.settle item
    | none => s
  | .queue | .subscribed => s

def «open» : PendingSession := { s with cold := false }

/-- Reconnect rebuild: the pending interactions wait for the baseline replay. -/
def resync : PendingSession := if s.cold then s else «open» { cold := true }

end PendingSession

/-! ## The manager -/

structure SessionManager where
  sessions : String → Option PendingSession := fun _ => none
  pendingBuffers : String → List Envelope := fun _ => []
  pendingInteractions : String → InsertionMap Identity PendingInteractionStatus := fun _ => ∅

namespace SessionManager

variable (m : SessionManager)

def trackPending (sessionId : String) (key : Identity) (status : PendingInteractionStatus) : SessionManager :=
  if (m.pendingInteractions sessionId).lookup key = some status then m
  else
    { m with
      pendingInteractions := update m.pendingInteractions sessionId
        ((m.pendingInteractions sessionId).set key status) }

/-- Settle one pending-interaction identity without disturbing sibling waits. -/
def resolvePending (sessionId : String) (key : Identity) : SessionManager :=
  { m with
    pendingInteractions := update m.pendingInteractions sessionId
      ((m.pendingInteractions sessionId).erase key) }

/-- The status of the list: tracked for every session, instantiated or not. -/
def trackFrame (e : Envelope) : SessionManager :=
  match e.payload with
  | .approvalRequested approval => m.trackPending e.sessionId (.approval approval.approvalId) .approval
  | .approvalResolved approvalId => m.resolvePending e.sessionId (.approval approvalId)
  | .questionRequested questions =>
    m.trackPending e.sessionId (.question e.rpcId) (questionInteractionStatus questions)
  | .questionResolved questionRpcId => m.resolvePending e.sessionId (.question questionRpcId)
  | .queue | .subscribed => m

variable (buffer : List Envelope)

def findKey (key : Identity) : Option Nat :=
  buffer.findIdx? fun item => bufferedRequestKey item = some key

/-- Put a frame in the buffer, in the place of the one with its identity. -/
def bufferFrame (key : Identity) (e : Envelope) : List Envelope :=
  match findKey buffer key with
  | none => buffer ++ [e]
  | some prior => buffer.set prior e

def unbufferFrame (key : Identity) : List Envelope :=
  match findKey buffer key with
  | none => buffer
  | some prior => buffer.eraseIdx prior

/-- What a frame does to the buffer of a session that is not instantiated. -/
def bufferAfter (e : Envelope) : List Envelope :=
  match e.payload with
  | .approvalRequested approval => bufferFrame buffer (.approval approval.approvalId) e
  | .questionRequested _ => bufferFrame buffer (.question e.rpcId) e
  | .queue => bufferFrame buffer .queue e
  | .approvalResolved approvalId => unbufferFrame buffer (.approval approvalId)
  | .questionResolved questionRpcId => unbufferFrame buffer (.question questionRpcId)
  | .subscribed => buffer

def rebaseline (e : Envelope) : SessionManager :=
  match e.payload with
  | .subscribed =>
    { m with
      pendingBuffers := update m.pendingBuffers e.sessionId
        ((m.pendingBuffers e.sessionId).filter fun item => item.payload ≠ .queue) }
  | _ => m

/-- A frame goes to the session it names, or waits in its buffer. -/
def route (e : Envelope) : SessionManager :=
  match m.sessions e.sessionId with
  | none =>
    { m with
      pendingBuffers := update m.pendingBuffers e.sessionId
        (bufferAfter (m.pendingBuffers e.sessionId) e) }
  | some session =>
    { m with
      sessions := update m.sessions e.sessionId
        (some (session.handleMuxEnvelope e.rpcId e.payload)) }

def handleMuxEnvelope (e : Envelope) : SessionManager := ((m.rebaseline e).trackFrame e).route e

/-- Return the existing instance, or construct one and replay the buffered frames to it. -/
def get (sessionId : String) : SessionManager :=
  match m.sessions sessionId with
  | some _ => m
  | none =>
    { m with
      sessions := update m.sessions sessionId (some ((m.pendingBuffers sessionId).foldl
        (fun session envelope => session.handleMuxEnvelope envelope.rpcId envelope.payload) {}))
      pendingBuffers := update m.pendingBuffers sessionId [] }

def withSession (sessionId : String) (f : PendingSession → PendingSession) : SessionManager :=
  { m with sessions := update m.sessions sessionId ((m.sessions sessionId).map f) }

def isRequest (e : Envelope) : Bool :=
  match e.payload with
  | .approvalRequested _ | .questionRequested _ => true
  | _ => false

/-- A connection generation dies: drop generation-scoped live state. -/
def handleDisconnected : SessionManager :=
  { m with
    pendingInteractions := fun _ => ∅
    pendingBuffers := fun sessionId => (m.pendingBuffers sessionId).filter fun item => ¬ isRequest item }

def handleConnected : SessionManager :=
  { m with sessions := fun sessionId => (m.sessions sessionId).map PendingSession.resync }

end SessionManager

/-! ## The host and its stream -/

structure HostRequest where
  rpcId : String
  sessionId : String
  ask : Ask
  deriving DecidableEq

namespace HostRequest

variable (r : HostRequest)

def requestedFrame : Envelope :=
  match r.ask with
  | .approval approval => ⟨r.rpcId, r.sessionId, .approvalRequested approval⟩
  | .question questions => ⟨r.rpcId, r.sessionId, .questionRequested questions⟩

def resolvedFrame : Envelope :=
  match r.ask with
  | .approval approval => ⟨"", r.sessionId, .approvalResolved approval.approvalId⟩
  | .question _ => ⟨"", r.sessionId, .questionResolved r.rpcId⟩

def identity : Identity :=
  match r.ask with
  | .approval approval => .approval approval.approvalId
  | .question _ => .question r.rpcId

def wait : PendingWait := ⟨r.rpcId, r.ask⟩

/-- Ids are minted at random, and an approval claims a record of its session that no other has. -/
def Distinct (q r : HostRequest) : Prop := q.rpcId ≠ r.rpcId ∧ (q.sessionId = r.sessionId → q.identity ≠ r.identity)

instance (q r : HostRequest) : Decidable (q.Distinct r) := inferInstanceAs (Decidable (_ ∧ (_ → _)))

end HostRequest

inductive Push where
  | requested (r : HostRequest)
  | resolved (r : HostRequest)
  | queue (sessionId : String)
  | subscribed (sessionId : String)
  deriving DecidableEq

def Push.envelope : Push → Envelope
  | requested r => r.requestedFrame
  | resolved r => r.resolvedFrame
  | queue sessionId => ⟨"", sessionId, .queue⟩
  | subscribed sessionId => ⟨"", sessionId, .subscribed⟩

/-- A manager and its host: every request asked, those that wait, and the frames in flight. The host is `streaming`
while it has a stream, `ready` from its connected notification on. -/
structure Connection where
  manager : SessionManager := {}
  asked : List HostRequest := []
  waiting : List HostRequest := []
  mux : List Push := []
  streaming : Bool := false
  ready : Bool := false
  reconnecting : Bool := false

namespace Connection

inductive Action where
  /-- The host asks. -/
  | ask (r : HostRequest)
  /-- The host has its answer, or withdraws the request. -/
  | settle (r : HostRequest)
  /-- The host pushes another frame. -/
  | push (p : Push)
  /-- The host opens the stream of a generation. -/
  | stream (baseline : List Push)
  /-- The next frame reaches the client. -/
  | deliver
  | connected
  | lost
  /-- A session is instantiated, or its window opened, or its subagent address changed. -/
  | get (sessionId : String)
  | «open» (sessionId : String)
  | readdress (sessionId : String)

def Plain : Push → Prop
  | .requested _ | .resolved _ => False
  | .queue _ | .subscribed _ => True

instance (p : Push) : Decidable (Plain p) :=
  match p with
  | .requested _ | .resolved _ => inferInstanceAs (Decidable False)
  | .queue _ | .subscribed _ => inferInstanceAs (Decidable True)

/-- The frames a stream opens with, in any order: every waiting request, and plain frames. -/
def Baseline (waiting : List HostRequest) (baseline : List Push) : Prop :=
  (∀ r ∈ waiting, .requested r ∈ baseline) ∧ ∀ p ∈ baseline, Plain p ∨ ∃ r ∈ waiting, p = .requested r

instance (waiting : List HostRequest) (baseline : List Push) : Decidable (Baseline waiting baseline) :=
  inferInstanceAs (Decidable ((∀ r ∈ waiting, .requested r ∈ baseline)
    ∧ ∀ p ∈ baseline, Plain p ∨ ∃ r ∈ waiting, p = .requested r))

def broadcast (c : Connection) (p : Push) : Connection := if c.streaming then { c with mux := c.mux ++ [p] } else c

def step (c : Connection) : Action → Option Connection
  | .ask r =>
    if ∀ q ∈ c.asked, q.Distinct r then
      some (broadcast { c with asked := c.asked ++ [r], waiting := c.waiting ++ [r] } (.requested r))
    else none
  | .settle r =>
    if r ∈ c.waiting then some (broadcast { c with waiting := c.waiting.filter (· ≠ r) } (.resolved r))
    else none
  | .push p => if Plain p then some (c.broadcast p) else none
  | .stream baseline =>
    if ¬ c.streaming ∧ Baseline c.waiting baseline then some { c with streaming := true, mux := baseline }
    else none
  | .deliver =>
    match c.mux with
    | [] => none
    | p :: mux => some { c with manager := c.manager.handleMuxEnvelope p.envelope, mux }
  | .connected =>
    if c.ready then none
    else some { c with manager := c.manager.handleConnected, ready := true, reconnecting := false }
  | .lost =>
    some { c with
      manager := if c.reconnecting then c.manager else c.manager.handleDisconnected
      mux := [], streaming := false, ready := false, reconnecting := true }
  | .get sessionId => some { c with manager := c.manager.get sessionId }
  | .«open» sessionId => some { c with manager := c.manager.withSession sessionId PendingSession.«open» }
  | .readdress sessionId => some { c with manager := c.manager.withSession sessionId PendingSession.resync }

inductive Reachable : Connection → Prop
  | start : Reachable {}
  | step {c c' : Connection} (a : Action) : Reachable c → c.step a = some c' → Reachable c'

/-- Every frame of the generation and its connected notification have been processed. -/
def Settled (c : Connection) : Prop := c.streaming = true ∧ c.ready = true ∧ c.mux = []

instance (c : Connection) : Decidable c.Settled :=
  inferInstanceAs (Decidable (c.streaming = true ∧ c.ready = true ∧ c.mux = []))

end Connection

namespace SessionManager

/-- Among the session's pending interactions, or in its buffer while it is not instantiated. -/
def Held (m : SessionManager) (r : HostRequest) : Prop :=
  match m.sessions r.sessionId with
  | some session => session.pending.lookup r.wait.key = some r.wait
  | none => r.requestedFrame ∈ m.pendingBuffers r.sessionId

instance (m : SessionManager) (r : HostRequest) : Decidable (m.Held r) :=
  match h : m.sessions r.sessionId with
  | some session => decidable_of_iff (session.pending.lookup r.wait.key = some r.wait) (by rw [Held, h])
  | none => decidable_of_iff (r.requestedFrame ∈ m.pendingBuffers r.sessionId) (by rw [Held, h])

def Listed (m : SessionManager) (r : HostRequest) : Prop := r.identity ∈ (m.pendingInteractions r.sessionId).keys

instance (m : SessionManager) (r : HostRequest) : Decidable (m.Listed r) := inferInstanceAs (Decidable (_ ∈ _))

end SessionManager

end CocoHarness.Client
