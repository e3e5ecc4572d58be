/-
# CocoHarness.Subagent.Continuation — residency of continuable subagents.

A continuable child is one durable session with at most one live Activation, an epoch in which its Agent is
resident.  The manager admits messages to a resident child or materializes it first, watches each Activation until it
is quiet and owns no child, and disposes it child-first; `drain` and `drainDescendants` close admission and dispose
whole forests.

Every action is one span without an `await`.  The Agents themselves, what a creation or a teardown comes to, and the
order of all spans are chosen by the actions.
-/
import Mathlib.Algebra.Ring.Nat
import Mathlib.Logic.Function.Basic
import CocoHarness.Lib.Machine

namespace CocoHarness.Subagent

open Lib Function

abbrev SessionId := Nat
abbrev AgentId := Nat
abbrev EpochId := Nat
abbrev RequestId := Nat
abbrev MessageId := Nat

/-! ## Data -/

/-- An Agent, by its session; `parent` is the Agent of its session's parent when it was created. -/
structure AgentInfo where
  session : SessionId
  parent : Option AgentId
  deriving DecidableEq

inductive Stage where
  | resident
  /-- The disposals of the owned children are awaited, then quiescence and the last flush. -/
  | children
  /-- `handle.dispose()` is awaited. -/
  | releasing (failed : Bool)
  /-- The Agent has left the registry. -/
  | released (failed : Bool)
  /-- The transaction has settled, and the Activation is gone. -/
  | ended (failed : Bool)
  /-- `Agent.cancel` threw as the transaction began: it is rejected, and nothing is released. -/
  | stuck
  deriving DecidableEq

/-- Where the settlement watcher is; `poked` numbers the `poke` that it has taken. -/
inductive Watcher where
  /-- `Promise.race([whenIdle(), poked])`. -/
  | racing (poked : Nat)
  /-- Its critical section waits for the lock of the child. -/
  | locking (poked : Nat)
  /-- It has found the Activation not settled. -/
  | undecided (poked : Nat)
  /-- `await poked`. -/
  | parked (poked : Nat)
  | done
  deriving DecidableEq

structure Activation where
  childId : SessionId
  agent : AgentId
  parentSession : SessionId
  ancestry : List AgentId
  /-- `ownedChildren`. -/
  owned : List SessionId := []
  stage : Stage := .resident
  /-- The children whose disposals this one awaits. -/
  waits : List EpochId := []
  accepted : List MessageId := []
  announced : Bool := false
  /-- How often `poke` has been renewed. -/
  poke : Nat := 0
  /-- Whether the start edge has been published. -/
  published : Bool := true
  watcher : Watcher := .racing 0
  deriving DecidableEq

def Activation.closing (a : Activation) : Bool := a.stage ≠ .resident

/-- Messages leave the set of accepted ones, and the watcher is woken if there were any. -/
def Activation.forget (gone : List MessageId) (a : Activation) : Activation :=
  { a with
    accepted := a.accepted.filter (· ∉ gone)
    poke := if a.accepted.any (· ∈ gone) then a.poke + 1 else a.poke }

def Activation.watchAgain (a : Activation) : Activation :=
  { a with watcher := if a.closing then .done else .racing a.poke }

def Stage.settled : Stage → Bool
  | .ended _ | .stuck => true
  | _ => false

def Stage.rejected : Stage → Bool
  | .ended failed => failed
  | .stuck => true
  | _ => false

def Stage.live : Stage → Bool
  | .ended _ => false
  | _ => true

/-- Where a `startContinuable` or `followup` is; it holds the child's lock from `inspecting` to `awaiting`. -/
inductive Phase where
  /-- `prepareContinuable` is awaited. -/
  | preparing
  /-- The critical section waits for the lock of the child. -/
  | waiting
  /-- The persisted session is inspected. -/
  | inspecting
  /-- The materialization is registered with its lineage, and its Agent is being created. -/
  | creating (lineage : List AgentId)
  /-- The Agent is in the registry, and its handle on its way. -/
  | entered (lineage : List AgentId) (agent : AgentId)
  /-- An Activation that could not be published is rolled back. -/
  | rollingBack (lineage : List AgentId) (epoch : EpochId)
  /-- The Activation is published, and the materialization about to be unregistered. -/
  | handed (lineage : List AgentId) (epoch : EpochId)
  /-- The message is about to be submitted to the fresh Activation. -/
  | submitting (epoch : EpochId)
  /-- A disposal is awaited; `again` when the delivery then starts over. -/
  | awaiting (epoch : EpochId) (again : Bool)
  /-- Settled, with the message that was accepted. -/
  | settled (accepted : Option MessageId)
  deriving DecidableEq

def Phase.lineage? : Phase → Option (List AgentId)
  | .creating lineage | .entered lineage _ | .rollingBack lineage _ | .handed lineage _ => some lineage
  | _ => none

def Phase.materializing (phase : Phase) : Bool := phase.lineage?.isSome

def Phase.locks : Phase → Bool
  | .preparing | .waiting | .settled _ => false
  | _ => true

structure Request where
  parent : AgentId
  child : SessionId
  fresh : Bool
  phase : Phase
  /-- The Activation it has materialized. -/
  made : Option EpochId := none
  deriving DecidableEq

inductive DrainPhase where
  | materializations
  | disposals
  | resolved
  | rejected
  deriving DecidableEq

structure Drain where
  below : Option (List AgentId)
  waits : List RequestId
  roots : List EpochId := []
  phase : DrainPhase := .materializations
  deriving DecidableEq

/-- By which Activation, to which Agent, whether it may wake it, and whether the Agent has taken it. -/
structure Notice where
  epoch : EpochId
  parent : AgentId
  waking : Bool
  delivered : Bool
  deriving DecidableEq

structure Manager where
  /-- The parent in the header of each session. -/
  header : SessionId → Option SessionId := fun _ => none
  sessions : Nat := 0
  /-- The sessions that have been entered once. -/
  persisted : SessionId → Bool := fun _ => false
  agents : List AgentInfo := []
  /-- `ctx.agents`. -/
  registry : SessionId → Option AgentId := fun _ => none
  /-- The messages that wait in the inbox of an Agent. -/
  pending : AgentId → List MessageId := fun _ => []
  /-- `Agent.status === 'running'`. -/
  running : AgentId → Bool := fun _ => false
  nextMessage : MessageId := 0
  activations : SessionId → Option EpochId := fun _ => none
  epochs : List Activation := []
  requests : List Request := []
  closingScopes : List (AgentId × List AgentId) := []
  draining : Bool := false
  drains : List Drain := []
  notices : List Notice := []

namespace Manager

/-! ## Lineage and admission -/

/-- The ancestors of a session that can be resolved one after another. -/
def liveAncestors (m : Manager) : Nat → SessionId → List AgentId
  | 0, _ => []
  | fuel + 1, session =>
    match m.header session with
    | none => []
    | some parentSession =>
      match m.registry parentSession with
      | none => []
      | some parent => parent :: m.liveAncestors fuel parentSession

variable (m : Manager)

/-- The resolvable ancestry of an Agent; each step goes to a smaller session. -/
def liveLineage (agent : AgentId) : List AgentId :=
  agent :: match m.agents[agent]? with
    | none => []
    | some info => m.liveAncestors info.session info.session

/-- A teardown has closed admission for the lineage of this Agent. -/
def closingTeardownFor (agent : AgentId) : Bool :=
  m.draining || m.closingScopes.any fun (root, members) =>
    members.contains agent || (m.liveLineage agent).contains root

def isLive (agent : AgentId) : Bool :=
  match m.agents[agent]? with
  | none => false
  | some info => m.registry info.session = some agent

def activationOf (agent : AgentId) : Option EpochId :=
  m.agents[agent]?.bind fun info => m.activations info.session

/-- `authorizeLineage`: the exact live Agent that the header of the child names. -/
def authorizes (parent : AgentId) (child : SessionId) : Bool :=
  m.isLive parent && m.header child = m.agents[parent]?.map (·.session)

def unlocked (child : SessionId) : Bool :=
  m.requests.all fun request => !(request.phase.locks && request.child = child)

def materializations : List RequestId :=
  (List.range m.requests.length).filter fun r => m.requests[r]?.any (·.phase.materializing)

/-! ## Updates -/

def setPhase (r : RequestId) (phase : Phase) : Manager :=
  { m with requests := m.requests.modify r fun request => { request with phase } }

def modifyEpoch (e : EpochId) (f : Activation → Activation) : Manager :=
  { m with epochs := m.epochs.modify e f }

/-- Messages leave an inbox, claimed or discarded; the Activation of that Agent hears of each. -/
def leaveInbox (agent : AgentId) (gone : List MessageId) : Manager :=
  { m with
    pending := update m.pending agent ((m.pending agent).filter (· ∉ gone))
    epochs := m.epochs.map fun a => if a.agent = agent then Activation.forget gone a else a }

/-- `Agent.cancel` without `keepInbox`, as far as the inbox is concerned. -/
def clearInbox (agent : AgentId) : Manager := m.leaveInbox agent (m.pending agent)

def enqueue (agent : AgentId) (message : MessageId) : Manager :=
  { m with pending := update m.pending agent (m.pending agent ++ [message]) }

/-- An Agent leaves the registry, and with it the scope that was closing below it. -/
def detach (agent : AgentId) : Manager :=
  { m with
    registry := fun session => if m.registry session = some agent then none else m.registry session
    closingScopes := m.closingScopes.filter (·.1 ≠ agent) }

/-! ## Messages -/

/-- `admitWaking`: accepted before it is sent, and no longer if sending throws. -/
def admitWaking (e : EpochId) (agent : AgentId) (delivered : Bool) : Manager :=
  let message := m.nextMessage
  let m := { m with nextMessage := message + 1 }
  if delivered then
    (m.modifyEpoch e fun a => { a with accepted := a.accepted ++ [message], poke := a.poke + 1 }).enqueue
      agent message
  else m

def sendPlain (agent : AgentId) (delivered : Bool) : Manager :=
  let message := m.nextMessage
  let m := { m with nextMessage := message + 1 }
  if delivered then m.enqueue agent message else m

/-- `sendWaking`: accounted against the Activation of the parent, if it has one. -/
def sendWaking (parent : AgentId) (delivered : Bool) : Manager :=
  match m.activationOf parent with
  | none => m.sendPlain parent delivered
  | some e =>
    if m.epochs[e]?.any (·.agent = parent) then m.admitWaking e parent delivered
    else m.sendPlain parent delivered

/-! ## Ownership -/

def insertChild (child : SessionId) (owned : List SessionId) : List SessionId :=
  if child ∈ owned then owned else owned ++ [child]

def acquireOwnership (parent : AgentId) (child : SessionId) : Option Manager :=
  match m.activationOf parent with
  | none => some m
  | some e =>
    if m.epochs[e]?.any Activation.closing then none
    else some (m.modifyEpoch e fun a => { a with owned := insertChild child a.owned })

/-- `releaseOwnership`: every Activation that has the child lets it go, and is woken. -/
def releaseOwnership (child : SessionId) : Manager :=
  { m with epochs := m.epochs.map fun a =>
      if child ∈ a.owned ∧ a.stage.live then
        { a with owned := a.owned.filter (· ≠ child), poke := a.poke + 1 }
      else a }

/-! ## Disposal -/

/-- The transaction is installed, the watcher woken, the Agent cancelled and the owned children read. -/
def openDisposal (e : EpochId) (cancels : Bool) : Manager :=
  match m.epochs[e]? with
  | none => m
  | some a =>
    if cancels then
      (m.modifyEpoch e fun a => { a with
        stage := .children
        waits := a.owned.filterMap m.activations
        poke := a.poke + 1 }).clearInbox a.agent
    else m.modifyEpoch e fun a => { a with stage := .stuck, poke := a.poke + 1 }

/-- `dispose` on some Activations: the span goes down through the owned children, parent first. -/
def disposeAll (cancels : EpochId → Bool) : Nat → List EpochId → Manager → Manager
  | 0, _, m => m
  | _, [], m => m
  | fuel + 1, e :: rest, m =>
    match m.epochs[e]? with
    | none => disposeAll cancels fuel rest m
    | some a =>
      if a.closing then disposeAll cancels fuel rest m
      else
        let children := if cancels e then a.owned.filterMap m.activations else []
        disposeAll cancels fuel (children ++ rest) (m.openDisposal e (cancels e))

/-- Each Activation is opened once, and adds as many as it owns. -/
def dispose (cancels : EpochId → Bool) (targets : List EpochId) : Manager :=
  disposeAll cancels (targets.length + (m.epochs.map (·.owned.length)).sum) targets m

def notifySettlement (e : EpochId) (delivered : Bool) : Manager :=
  match m.epochs[e]? with
  | none => m
  | some a =>
    if ¬ a.announced then m
    else
      match m.registry a.parentSession with
      | none => m
      | some parent =>
        -- a parent whose own lineage is closing is not woken
        let closing := m.closingTeardownFor parent
        let m := if closing then m.sendPlain parent delivered else m.sendWaking parent delivered
        { m with notices := m.notices ++ [{ epoch := e, parent, waking := !closing, delivered }] }

/-! ## Submission -/

/-- `submitAdmitted`: the message accepted, or what is left when that throws. -/
def submitAdmitted (parent : AgentId) (child : SessionId) (e : EpochId)
    (aborted delivered : Bool) : Manager × Option MessageId :=
  match m.epochs[e]? with
  | none => (m, none)
  | some a =>
    if aborted || m.closingTeardownFor parent || a.closing || !m.authorizes parent child then (m, none)
    else
      match m.acquireOwnership parent child with
      | none => (m, none)
      | some m' =>
        let message := m'.nextMessage
        let m' := m'.admitWaking e a.agent delivered
        if delivered then (m'.modifyEpoch e fun a => { a with announced := true }, some message)
        else (m', none)

/-- `materialize` up to its first `await`: refused, or registered. -/
def materialize (r : RequestId) (parent : AgentId) (aborted : Bool) : Manager :=
  if m.closingTeardownFor parent || aborted then m.setPhase r (.settled none)
  else m.setPhase r (.creating (m.liveLineage parent))

/-! ## Requests -/

/-- `startContinuable` up to its first `await`: a child id is reserved. -/
def startContinuable (parent : AgentId) : Option Manager := do
  let info ← m.agents[parent]?
  if m.closingTeardownFor parent then return m
  else return { m with
    header := update m.header m.sessions (some info.session)
    sessions := m.sessions + 1
    requests := m.requests ++ [{ parent, child := m.sessions, fresh := true, phase := .preparing }] }

def prepared (r : RequestId) (ok : Bool) : Option Manager := do
  let request ← m.requests[r]?
  guard (request.phase = .preparing)
  return m.setPhase r (if ok && !m.closingTeardownFor request.parent then .waiting else .settled none)

def followup (parent : AgentId) (child : SessionId) : Option Manager := do
  guard (m.agents[parent]?.isSome)
  if m.closingTeardownFor parent then return m
  else return { m with
    requests := m.requests ++ [{ parent, child, fresh := false, phase := .waiting }] }

def enterLock (r : RequestId) (aborted delivered : Bool) : Option Manager := do
  let request ← m.requests[r]?
  guard (request.phase = .waiting ∧ m.unlocked request.child)
  if request.fresh then return m.materialize r request.parent aborted
  else
    match m.activations request.child with
    | none => return m.setPhase r .inspecting
    | some e =>
      if m.epochs[e]?.any Activation.closing then return m.setPhase r (.awaiting e true)
      else
        let (m, accepted) := m.submitAdmitted request.parent request.child e aborted delivered
        return m.setPhase r (.settled accepted)

def inspected (r : RequestId) (ok aborted : Bool) : Option Manager := do
  let request ← m.requests[r]?
  guard (request.phase = .inspecting)
  if ok && m.persisted request.child && m.authorizes request.parent request.child then
    return m.materialize r request.parent aborted
  else return m.setPhase r (.settled none)

/-- The Agent of a child has been created, and enters the registry. -/
def agentEntered (r : RequestId) : Option Manager := do
  let request ← m.requests[r]?
  match request.phase with
  | .creating lineage =>
    guard (m.registry request.child = none)
    let agent := m.agents.length
    let m := m.setPhase r (.entered lineage agent)
    return { m with
      agents := m.agents ++ [{ session := request.child, parent := some request.parent }]
      registry := update m.registry request.child (some agent)
      persisted := update m.persisted request.child true }
  | _ => none

def creationFailed (r : RequestId) : Option Manager := do
  let request ← m.requests[r]?
  match request.phase with
  | .creating _ => return m.setPhase r (.settled none)
  | .entered _ agent => return (m.detach agent).setPhase r (.settled none)
  | _ => none

/-- `rollbackUnpublished`: the handle is disposed of at once. `clears` is false when its cancel throws. -/
def rollBack (r : RequestId) (lineage : List AgentId) (e : EpochId) (agent : AgentId) (clears : Bool) : Manager :=
  let m := m.setPhase r (.rollingBack lineage e)
  if clears then
    (m.modifyEpoch e fun a =>
      { a with stage := .releasing false, published := false, watcher := .done }).clearInbox agent
  else
    (m.modifyEpoch e fun a => { a with stage := .released true, published := false, watcher := .done }).detach agent

def install (r : RequestId) (request : Request) (parentSession : SessionId)
    (lineage : List AgentId) (agent : AgentId) : Manager :=
  let e := m.epochs.length
  { m with
    activations := update m.activations request.child (some e)
    epochs := m.epochs ++ [{ childId := request.child, agent, parentSession, ancestry := agent :: lineage }]
    requests := m.requests.modify r fun request => { request with phase := .handed lineage e, made := some e } }

/-- `materializeTracked` with the handle: installed, and published or rolled back. `registers` is false when that
throws. -/
def handedOver (r : RequestId) (aborted registers clears : Bool) : Option Manager := do
  let request ← m.requests[r]?
  let parent ← m.agents[request.parent]?
  match request.phase with
  | .entered lineage agent =>
    let e := m.epochs.length
    let installed := m.install r request parent.session lineage agent
    if aborted || installed.closingTeardownFor request.parent then
      return installed.rollBack r lineage e agent clears
    else
      match installed.acquireOwnership request.parent request.child with
      | none => return installed.rollBack r lineage e agent clears
      | some owned =>
        if registers then return owned
        else return owned.rollBack r lineage e agent clears
  | _ => none

/-- The materialization is unregistered: published, or rolled back. -/
def unregistered (r : RequestId) : Option Manager := do
  let request ← m.requests[r]?
  match request.phase with
  | .handed _ e => return m.setPhase r (.submitting e)
  | .rollingBack _ e =>
    guard (m.epochs[e]?.any (·.stage.settled))
    return m.setPhase r (.settled none)
  | _ => none

/-- `submitMaterialized`: the message is accepted, or the fresh Activation disposed of. -/
def submitMaterialized (r : RequestId) (aborted delivered : Bool) (cancels : EpochId → Bool) : Option Manager := do
  let request ← m.requests[r]?
  match request.phase with
  | .submitting e =>
    match m.submitAdmitted request.parent request.child e aborted delivered with
    | (m, some message) => return m.setPhase r (.settled (some message))
    | (m, none) => return (m.dispose cancels [e]).setPhase r (.awaiting e false)
  | _ => none

def disposalSettled (r : RequestId) (aborted : Bool) : Option Manager := do
  let request ← m.requests[r]?
  match request.phase with
  | .awaiting e again =>
    guard (m.epochs[e]?.any (·.stage.settled))
    if again && !m.closingTeardownFor request.parent && !aborted then return m.setPhase r .waiting
    else return m.setPhase r (.settled none)
  | _ => none

/-! ## Watching -/

def settledState (a : Activation) : Bool := !m.running a.agent && a.accepted.isEmpty && a.owned.isEmpty

/-- The race is over; `whenIdle()` may have resolved at any time before. -/
def raced (e : EpochId) : Option Manager := do
  let a ← m.epochs[e]?
  match a.watcher with
  | .racing poked =>
    return m.modifyEpoch e fun a => { a with watcher := if a.closing then .done else .locking poked }
  | _ => none

/-- The critical section of the watcher: the check, and the beginning of the disposal. -/
def settles (e : EpochId) (cancels : EpochId → Bool) : Option Manager := do
  let a ← m.epochs[e]?
  match a.watcher with
  | .locking poked =>
    guard (m.unlocked a.childId)
    if a.closing || !m.settledState a then
      return m.modifyEpoch e fun a => { a with watcher := .undecided poked }
    else return (m.dispose cancels [e]).modifyEpoch e fun a => { a with watcher := .done }
  | _ => none

def rechecked (e : EpochId) : Option Manager := do
  let a ← m.epochs[e]?
  match a.watcher with
  | .undecided poked =>
    if m.running a.agent then return m.modifyEpoch e Activation.watchAgain
    else return m.modifyEpoch e fun a => { a with watcher := .parked poked }
  | _ => none

def unparked (e : EpochId) : Option Manager := do
  let a ← m.epochs[e]?
  match a.watcher with
  | .parked poked =>
    guard (poked < a.poke)
    return m.modifyEpoch e Activation.watchAgain
  | _ => none

/-! ## Finishing a disposal -/

/-- The Agent is quiescent: the handle is disposed of next. `captured` and `clears` are false when the capture or the
cancel throws. -/
def quiesced (e : EpochId) (captured clears : Bool) : Option Manager := do
  let a ← m.epochs[e]?
  guard (a.stage = .children)
  guard (a.waits.all fun w => m.epochs[w]?.any (·.stage.settled))
  let failed := !captured || a.waits.any fun w => m.epochs[w]?.any (·.stage.rejected)
  if clears then
    return (m.modifyEpoch e fun a => { a with stage := .releasing failed }).clearInbox a.agent
  else return (m.modifyEpoch e fun a => { a with stage := .released true }).detach a.agent

/-- The handle has been disposed of: the Agent has left the registry. -/
def handleDisposed (e : EpochId) (ok : Bool) : Option Manager := do
  let a ← m.epochs[e]?
  match a.stage with
  | .releasing failed =>
    return (m.modifyEpoch e fun a => { a with stage := .released (failed || !ok) }).detach a.agent
  | _ => none

/-- The Activation is deleted, then the notice sent, then ownership released. -/
def finishDisposal (e : EpochId) (delivered : Bool) : Option Manager := do
  let a ← m.epochs[e]?
  match a.stage with
  | .released failed =>
    let m := { m with activations := update m.activations a.childId none }
    let m := if a.published then m.notifySettlement e delivered else m
    return (m.releaseOwnership a.childId).modifyEpoch e fun a => { a with stage := .ended failed }
  | _ => none

/-! ## Reports -/

/-- `reportFrom`: a resident child sends its direct parent a message, which may wake it. -/
def reportFrom (child : AgentId) (wakeup delivered : Bool) : Option Manager := do
  let info ← m.agents[child]?
  guard (¬ m.closingTeardownFor child)
  let e ← m.activations info.session
  let a ← m.epochs[e]?
  guard (a.agent = child ∧ ¬ a.closing)
  let parent ← (m.header info.session).bind m.registry
  return if wakeup then m.sendWaking parent delivered else m.sendPlain parent delivered

/-! ## Teardown -/

def drain : Manager :=
  { m with
    draining := true
    drains := m.drains ++ [{ below := none, waits := m.materializations }] }

def mapped : List EpochId :=
  (List.range m.epochs.length).filter fun e => m.epochs[e]?.any fun a => m.activations a.childId = some e

def rootsOf (targets : List EpochId) : List EpochId :=
  targets.filter fun e => m.epochs[e]?.any fun a =>
    targets.all fun e' => !m.epochs[e']?.any fun a' => a.childId ∈ a'.owned

def addMembers (scopes : List (AgentId × List AgentId)) (root : AgentId) (more : List AgentId) :
    List (AgentId × List AgentId) :=
  if scopes.any (·.1 = root) then scopes.map fun (r, members) => if r = root then (r, members ++ more) else (r, members)
  else scopes ++ [(root, more)]

/-- The strict descendants of a root among the Activations of the map. -/
def targetsOf (root : AgentId) : List EpochId :=
  m.mapped.filter fun e => m.epochs[e]?.any fun a => a.agent ≠ root && a.ancestry.contains root

def materializationsOf (root : AgentId) : List RequestId :=
  m.materializations.filter fun r => m.requests[r]?.any fun request => (request.phase.lineage?.getD []).contains root

def membersOf (root : AgentId) : List AgentId :=
  root :: ((m.targetsOf root).flatMap fun e => (m.epochs[e]?.map fun a => m.liveLineage a.agent).getD [])
    ++ (m.materializationsOf root).flatMap fun r => (m.requests[r]?.bind (·.phase.lineage?)).getD []

def drainDescendants (parents : List AgentId) (cancels : EpochId → Bool) : Manager :=
  let roots := parents.filter m.isLive
  if roots = [] then m
  else
    let targets := m.mapped.filter fun e => roots.any fun root => (m.targetsOf root).contains e
    let waits := m.materializations.filter fun r => roots.any fun root => (m.materializationsOf root).contains r
    let drain : Drain := { below := some roots, waits, roots := m.rootsOf targets }
    let closed := { m with
      closingScopes := roots.foldl (fun scopes root => addMembers scopes root (m.membersOf root)) m.closingScopes
      drains := m.drains ++ [drain] }
    closed.dispose cancels targets

/-- The materializations a teardown has waited for have settled: its roots are disposed of. -/
def drainOn (d : Nat) (cancels : EpochId → Bool) : Option Manager := do
  let drain ← m.drains[d]?
  guard (drain.phase = .materializations)
  guard (drain.waits.all fun r => m.requests[r]?.any (!·.phase.materializing))
  let roots := if drain.below.isSome then drain.roots else m.rootsOf m.mapped
  let m := { m with drains := m.drains.modify d fun drain => { drain with phase := .disposals, roots } }
  return m.dispose cancels roots

def drainEnd (d : Nat) : Option Manager := do
  let drain ← m.drains[d]?
  guard (drain.phase = .disposals)
  guard (drain.roots.all fun e => m.epochs[e]?.any (·.stage.settled))
  let phase : DrainPhase :=
    if drain.roots.any fun e => m.epochs[e]?.any (·.stage.rejected) then .rejected else .resolved
  return { m with drains := m.drains.modify d fun drain => { drain with phase } }

/-! ## The world -/

/-- A host creates an Agent on a new session, with the parent its header names. -/
def hostCreates (parent : Option SessionId) : Option Manager := do
  guard (parent.all (· < m.sessions))
  return { m with
    header := update m.header m.sessions parent
    sessions := m.sessions + 1
    persisted := update m.persisted m.sessions true
    agents := m.agents ++ [{ session := m.sessions, parent := parent.bind m.registry }]
    registry := update m.registry m.sessions (some m.agents.length) }

def hostResumes (session : SessionId) : Option Manager := do
  guard (m.persisted session ∧ m.registry session = none)
  return { m with
    agents := m.agents ++ [{ session, parent := (m.header session).bind m.registry }]
    registry := update m.registry session (some m.agents.length) }

def hostOwned (agent : AgentId) : Bool :=
  m.epochs.all (·.agent ≠ agent) && m.requests.all fun request =>
    match request.phase with
    | .entered _ a => a ≠ agent
    | _ => true

def hostDisposes (agent : AgentId) : Option Manager := do
  guard (m.isLive agent ∧ m.hostOwned agent)
  return m.detach agent

/-- A message of an inbox is claimed by its Agent, or discarded by someone else. -/
def leaves (agent : AgentId) (message : MessageId) : Option Manager := do
  guard (message ∈ m.pending agent)
  return m.leaveInbox agent [message]

end Manager

/-! ## Interleavings -/

inductive Act where
  | hostCreates (parent : Option SessionId)
  | hostResumes (session : SessionId)
  | hostDisposes (agent : AgentId)
  | leaves (agent : AgentId) (message : MessageId)
  | runs (agent : AgentId) (running : Bool)
  | startContinuable (parent : AgentId)
  | prepared (r : RequestId) (ok : Bool)
  | followup (parent : AgentId) (child : SessionId)
  | enterLock (r : RequestId) (aborted delivered : Bool)
  | inspected (r : RequestId) (ok aborted : Bool)
  | agentEntered (r : RequestId)
  | creationFailed (r : RequestId)
  | handedOver (r : RequestId) (aborted registers clears : Bool)
  | unregistered (r : RequestId)
  | submitMaterialized (r : RequestId) (aborted delivered : Bool) (cancels : EpochId → Bool)
  | disposalSettled (r : RequestId) (aborted : Bool)
  | raced (e : EpochId)
  | settles (e : EpochId) (cancels : EpochId → Bool)
  | rechecked (e : EpochId)
  | unparked (e : EpochId)
  | quiesced (e : EpochId) (captured clears : Bool)
  | handleDisposed (e : EpochId) (ok : Bool)
  | finishDisposal (e : EpochId) (delivered : Bool)
  | reportFrom (child : AgentId) (wakeup delivered : Bool)
  | drain
  | drainDescendants (parents : List AgentId) (cancels : EpochId → Bool)
  | drainOn (d : Nat) (cancels : EpochId → Bool)
  | drainEnd (d : Nat)

namespace Manager

def step (m : Manager) : Act → Option Manager
  | .hostCreates parent => m.hostCreates parent
  | .hostResumes session => m.hostResumes session
  | .hostDisposes agent => m.hostDisposes agent
  | .leaves agent message => m.leaves agent message
  | .runs agent running => some { m with running := update m.running agent running }
  | .startContinuable parent => m.startContinuable parent
  | .prepared r ok => m.prepared r ok
  | .followup parent child => m.followup parent child
  | .enterLock r aborted delivered => m.enterLock r aborted delivered
  | .inspected r ok aborted => m.inspected r ok aborted
  | .agentEntered r => m.agentEntered r
  | .creationFailed r => m.creationFailed r
  | .handedOver r aborted registers clears => m.handedOver r aborted registers clears
  | .unregistered r => m.unregistered r
  | .submitMaterialized r aborted delivered cancels => m.submitMaterialized r aborted delivered cancels
  | .disposalSettled r aborted => m.disposalSettled r aborted
  | .raced e => m.raced e
  | .settles e cancels => m.settles e cancels
  | .rechecked e => m.rechecked e
  | .unparked e => m.unparked e
  | .quiesced e captured clears => m.quiesced e captured clears
  | .handleDisposed e ok => m.handleDisposed e ok
  | .finishDisposal e delivered => m.finishDisposal e delivered
  | .reportFrom child wakeup delivered => m.reportFrom child wakeup delivered
  | .drain => some m.drain
  | .drainDescendants parents cancels => some (m.drainDescendants parents cancels)
  | .drainOn d cancels => m.drainOn d cancels
  | .drainEnd d => m.drainEnd d

end Manager

/-- The sessions of earlier processes, with the parent in each one's header. -/
structure Archive where
  sessions : Nat
  header : SessionId → Option SessionId
  older : ∀ c p, header c = some p → c < sessions ∧ p < c

def Archive.start (archive : Archive) : Manager where
  header := archive.header
  sessions := archive.sessions
  persisted := fun session => session < archive.sessions

end CocoHarness.Subagent
