/-
# CocoHarness.Terminal.Session — the send slot of a persistent terminal session.

A session takes one send at a time.  The send inspects the foreground, writes its input, and is polled until the
terminal is ready for the next one; its deadline, a cancellation, an exit or a close end it early.  A cancellation
signals the foreground, after a write that is still under way.  When the deadline passes during a write or a signal
the send settles, and keeps the slot until that is over.
-/
import Mathlib.Data.Option.Basic
import CocoHarness.Lib.Machine

namespace CocoHarness.Terminal

open Lib

/-! ## Sends -/

abbrev OpId := Nat

inductive WaitReason where
  | stdinRead
  | inferredIdle
  | timeout
  | sessionExit
  deriving DecidableEq, Repr

inductive Outcome where
  | settled (reason : WaitReason)
  | failed
  deriving DecidableEq, Repr

inductive BeginStage where
  | inspecting
  | writing
  | over
  deriving DecidableEq, Repr

structure LocalSendOperation where
  outcome : Option Outcome := none
  cancellationRequested : Bool := false
  /-- There is something to write. -/
  input : Bool := false
  stage : BeginStage := .inspecting
  deriving DecidableEq, Repr

inductive InterruptStage where
  | awaitsWrite
  /-- The write it has waited for is over. -/
  | resumes (written : Bool)
  | signals
  | over
  deriving DecidableEq, Repr

structure Interrupt where
  operation : OpId
  stage : InterruptStage
  deriving DecidableEq, Repr

/-- An interrupt that has waited for the write goes on when its turn comes. -/
def Interrupt.written (interrupt : Interrupt) (ok : Bool) : Interrupt :=
  if interrupt.stage = .awaitsWrite then { interrupt with stage := .resumes ok } else interrupt

inductive CloseStage where
  | none
  | terminating
  | terminated
  deriving DecidableEq, Repr

/-! ## The session -/

structure LocalPtySession where
  operations : OpId → LocalSendOperation := fun _ => {}
  /-- How many sends have been accepted. -/
  started : Nat := 0
  active : Option OpId := none
  activeTimer : Option OpId := none
  activeDeadlineTimer : Option OpId := none
  /-- The send whose signal is listened to. -/
  activeAbort : Option OpId := none
  interrupting : Option OpId := none
  activeWrite : Option OpId := none
  pollingReady : Option OpId := none
  /-- The send whose poll awaits its inspection. -/
  polling : Option OpId := none
  interrupts : Nat → Interrupt := fun _ => ⟨0, .over⟩
  issued : Nat := 0
  exited : Bool := false
  transportFailure : Bool := false
  closing : Bool := false
  closePromise : CloseStage := .none

namespace LocalPtySession

variable (m : LocalPtySession)

def modify (op : OpId) (f : LocalSendOperation → LocalSendOperation) : LocalPtySession :=
  { m with operations := Function.update m.operations op (f (m.operations op)) }

def settle (op : OpId) (outcome : Outcome) : LocalPtySession :=
  m.modify op fun operation => { operation with outcome := some (operation.outcome.getD outcome) }

def finished (op : OpId) : Bool := (m.operations op).outcome.isSome

def stopReadinessPolling : LocalPtySession := { m with activeTimer := none, pollingReady := none }

def stopPolling : LocalPtySession :=
  { m with activeTimer := none, pollingReady := none, activeDeadlineTimer := none }

def clearActive : LocalPtySession :=
  { m.stopPolling with
    activeAbort := none
    interrupting := if m.interrupting = m.active then none else m.interrupting
    active := none }

def settleActive (reason : WaitReason) (retainOwnership : Bool := false) : LocalPtySession :=
  match m.active with
  | none => m
  | some op =>
    (if retainOwnership then { m.stopPolling with activeAbort := none } else m.clearActive).settle op (.settled reason)

def failActive : LocalPtySession :=
  match m.active with
  | none => m
  | some op => m.clearActive.settle op .failed

def schedulePoll (op : OpId) : LocalPtySession :=
  if m.active ≠ some op ∨ m.interrupting = some op ∨ m.polling.isSome then m else { m with activeTimer := some op }

def onTransportFailure : LocalPtySession :=
  { m with transportFailure := true, exited := true }.failActive

/-! ## Starting a send -/

def startSend (input signal : Bool) : Option LocalPtySession := do
  guard (¬ m.closing)
  guard (¬ m.exited)
  guard (m.active = none)
  return { m with
    operations := Function.update m.operations m.started { input }
    started := m.started + 1
    active := some m.started
    activeAbort := if signal then some m.started else none
    activeDeadlineTimer := some m.started }

def begun (op : OpId) : LocalPtySession :=
  if (m.operations op).cancellationRequested then m
  else if m.active = some op ∧ m.finished op then m.clearActive
  else if m.active = some op ∧ ¬ m.closing then { m with pollingReady := some op }.schedulePoll op
  else m

/-- `beginSend` goes on after its inspection, which has failed or not. -/
def inspected (op : OpId) (ok : Bool) : Option LocalPtySession := do
  guard (op < m.started ∧ (m.operations op).stage = .inspecting)
  let ended := m.modify op fun operation => { operation with stage := .over }
  if ok then
    if m.active ≠ some op ∨ m.closing ∨ m.interrupting = some op then return ended
    else if (m.operations op).input ∧ ¬ (m.operations op).cancellationRequested then
      return { m.modify op fun operation => { operation with stage := .writing } with activeWrite := some op }
    else return ended.begun op
  else if m.active = some op ∧ ¬ m.closing ∧ m.interrupting ≠ some op then return ended.failActive
  else return ended

def wrote (op : OpId) (ok : Bool) : Option LocalPtySession := do
  guard (m.activeWrite = some op)
  let ended := { m.modify op fun operation => { operation with stage := .over } with
    activeWrite := none
    interrupts := fun i => (m.interrupts i).written ok }
  if ok then return ended.begun op
  else if m.active = some op ∧ ¬ m.closing then return if m.finished op then ended.clearActive else ended.failActive
  else return ended

/-! ## Cancelling -/

def interrupt (op : OpId) : LocalPtySession :=
  if m.active ≠ some op then m
  else { m.stopReadinessPolling with
    interrupting := some op
    interrupts := Function.update m.interrupts m.issued ⟨op, if m.activeWrite.isSome then .awaitsWrite else .signals⟩
    issued := m.issued + 1 }

def cancel (op : OpId) : Option LocalPtySession := do
  guard (op < m.started)
  if m.finished op then return m
  else return (m.modify op fun operation => { operation with cancellationRequested := true }).interrupt op

def abort : Option LocalPtySession := do
  let op ← m.activeAbort
  { m with activeAbort := none }.cancel op

def interrupted (i : Nat) : LocalPtySession :=
  { m with
    interrupting := if m.interrupting = some (m.interrupts i).operation then none else m.interrupting
    interrupts := Function.update m.interrupts i { m.interrupts i with stage := .over } }

def resumes (i : Nat) : Option LocalPtySession :=
  match (m.interrupts i).stage with
  | .resumes true => some { m with interrupts := Function.update m.interrupts i { m.interrupts i with stage := .signals } }
  | .resumes false => some (m.interrupted i)
  | _ => none

/-- The signal of an interrupt has been delivered, or has failed. -/
def signalled (i : Nat) (ok : Bool) : Option LocalPtySession := do
  guard ((m.interrupts i).stage = .signals)
  let op := (m.interrupts i).operation
  if ok then
    let ended := m.interrupted i
    if m.active = some op ∧ m.finished op then return ended.clearActive
    else if m.active = some op ∧ ¬ m.closing then return { ended with pollingReady := some op }.schedulePoll op
    else return ended
  else return (if m.active = some op ∧ ¬ m.closing then m.onTransportFailure else m).interrupted i

/-! ## Timers and polls -/

def deadline : Option LocalPtySession := do
  let op ← m.activeDeadlineTimer
  if m.active = some op then
    return m.settleActive .timeout (m.activeWrite.isSome || decide (m.interrupting = some op))
  else return { m with activeDeadlineTimer := none }

/-- The timer of the next poll fires, and the poll runs to its inspection. -/
def polls : Option LocalPtySession := do
  let op ← m.activeTimer
  let spent := { m with activeTimer := none }
  if m.active ≠ some op ∨ m.polling.isSome then return spent
  else if m.exited then return spent.settleActive .sessionExit
  else return { spent with polling := some op }

/-- What a poll makes of its inspection, which has failed, or concludes something or nothing. -/
def judged (op : OpId) (verdict : Option (Option WaitReason)) : LocalPtySession :=
  if m.active ≠ some op ∨ m.closing ∨ m.interrupting = some op then m
  else
    match verdict with
    | none => m.failActive
    | some none => m
    | some (some reason) => m.settleActive reason

def polled (verdict : Option (Option WaitReason)) : Option LocalPtySession := do
  let op ← m.polling
  let ended := { m.judged op verdict with polling := none }
  match ended.active with
  | none => return ended
  | some active => return if ended.pollingReady = some active then ended.schedulePoll active else ended

/-! ## Exit and close -/

def exits : LocalPtySession :=
  if m.transportFailure then m else { m with exited := true }.settleActive .sessionExit

def close : LocalPtySession :=
  match m.closePromise with
  | .none => { m.stopPolling with closing := true, closePromise := .terminating }
  | _ => { m with closing := true }

def terminated (ok : Bool) : Option LocalPtySession := do
  guard (m.closePromise = .terminating)
  if ok then return { m with closePromise := .terminated }.settleActive .sessionExit
  else return { m with closePromise := .none }.failActive

def closeFails : Option LocalPtySession := do
  guard (m.closePromise = .terminated ∧ m.transportFailure)
  return { m with closePromise := .none }.failActive

end LocalPtySession

/-! ## Interleavings -/

inductive Act where
  | startSend (input signal : Bool)
  | inspected (op : OpId) (ok : Bool)
  | wrote (op : OpId) (ok : Bool)
  | cancel (op : OpId)
  | abort
  | resumes (i : Nat)
  | signalled (i : Nat) (ok : Bool)
  | deadline
  | polls
  | polled (verdict : Option (Option WaitReason))
  | exits
  | transportFails
  | close
  | terminated (ok : Bool)
  | closeFails

def LocalPtySession.step (m : LocalPtySession) : Act → Option LocalPtySession
  | .startSend input signal => m.startSend input signal
  | .inspected op ok => m.inspected op ok
  | .wrote op ok => m.wrote op ok
  | .cancel op => m.cancel op
  | .abort => m.abort
  | .resumes i => m.resumes i
  | .signalled i ok => m.signalled i ok
  | .deadline => m.deadline
  | .polls => m.polls
  | .polled verdict => m.polled verdict
  | .exits => some m.exits
  | .transportFails => some m.onTransportFailure
  | .close => some m.close
  | .terminated ok => m.terminated ok
  | .closeFails => m.closeFails

def LocalPtySession.cancels (m : LocalPtySession) : Act → Option OpId
  | .cancel op => some op
  | .abort => m.activeAbort
  | _ => none

end CocoHarness.Terminal
