/-
# CocoHarness.Compaction.ToolPairing — where a surface may be cut.

A cut of the surface is balanced when no unanswered tool call crosses it: every assistant message before it adds the
calls it asks for, every tool result takes one away, and the count in progress stands at zero.  The balances of all
cuts are kept per session and extended when the surface has only grown; a surface that was rewritten since is paired
from the beginning.
-/
import CocoHarness.Lib.InsertionMap
import CocoHarness.SessionLog.Live

namespace CocoHarness.Compaction

open Lib SessionLog

/-! ## What one event counts for -/

def toolCallCount : List Json → Except JsError Nat
  | [] => .ok 0
  | block :: rest => do
    let type ← jsGet (some block) "type"
    let count ← toolCallCount rest
    return if type = some (.str "tool-call") then count + 1 else count

/-- How one surface event changes the count of tool calls in progress. -/
def eventDelta (event : SessionEvent) : Except JsError Int :=
  if event.type = "assistant/message" then do
    let message ← jsGet (some event.data) "message"
    match ← jsGet message "content" with
    | some (.arr blocks) => return ← toolCallCount blocks
    | content =>
      let _ ← jsGet content "filter"
      throw (.error "event.data.message.content.filter is not a function")
  else if event.type = "tool/result" then .ok (-1)
  else .ok 0

def eventForSeq (events : List SessionEvent) (seq : Int) : Except JsError SessionEvent :=
  match (eventAt events seq).filter (·.seq = seq) with
  | some event => .ok event
  | none => .error (.error (s!"tool-pairing balance: surface seq {seq} has no matching session event "
      ++ "(corrupt surface)"))

/-! ## Pairing -/

/-- The balance of the cut after each unseen sequence, and the count after the last. -/
def pairTail (events : List SessionEvent) : Int → List Int → Except JsError (List Bool × Int)
  | inProgress, [] => .ok ([], inProgress)
  | inProgress, seq :: rest => do
    let delta ← eventDelta (← eventForSeq events seq)
    if inProgress + delta < 0 then
      throw (.error (s!"tool-pairing balance: tool/result at surface seq {seq} has no matching tool-call "
        ++ "(corrupt surface)"))
    else
      let (cuts, last) ← pairTail events (inProgress + delta) rest
      return (decide (inProgress + delta = 0) :: cuts, last)

/-- The balance state of one surface generation: the cut before each sequence and after the tail, and their positions.
-/
structure BalanceCache where
  generation : Nat
  cutBalanced : List Bool := [true]
  indexBySeq : InsertionMap Int Nat := ∅
  inProgressToolCalls : Int := 0

def indexFrom (index : InsertionMap Int Nat) (position : Nat) : List Int → InsertionMap Int Nat
  | [] => index
  | seq :: rest => indexFrom (index.set seq position) (position + 1) rest

inductive CutSide where
  | before
  | after
  deriving DecidableEq

def CutSide.offset : CutSide → Nat
  | .before => 0
  | .after => 1

def seqNotFound (seq : Int) : JsError := .error s!"tool-pairing balance: surface seq {seq} not found"

def cutBalance (cache : BalanceCache) (seq : Int) (side : CutSide) : Except JsError Bool :=
  match (cache.indexBySeq.lookup seq).bind fun index => cache.cutBalanced[index + side.offset]? with
  | some balanced => .ok balanced
  | none => .error (seqNotFound seq)

/-- Fold the unseen sequences into the cache; they are validated before it is touched. -/
def extendCache (session : Session) (cache : BalanceCache) (seqs : List Int) : Session × Except JsError BalanceCache :=
  let processed := cache.cutBalanced.length - 1
  let tail := seqs.drop processed
  let (session, events) := session.events
  match pairTail (eventsOf events) cache.inProgressToolCalls tail with
  | .error e => (session, .error e)
  | .ok (pendingCuts, inProgressToolCalls) =>
    (session, .ok { cache with
      indexBySeq := indexFrom cache.indexBySeq processed tail
      cutBalanced := cache.cutBalanced ++ pendingCuts
      inProgressToolCalls })

structure PairedSession where
  session : Session
  cache : Option BalanceCache := none

namespace PairedSession

def extend (p : PairedSession) (cache : BalanceCache) (seqs : List Int) :
    PairedSession × Except JsError BalanceCache :=
  match extendCache p.session cache seqs with
  | (session, .error e) => ({ p with session }, .error e)
  | (session, .ok cache) => ({ session, cache := some cache }, .ok cache)

/-- Balance state synchronized with the current session surface. -/
def balanceCache (p : PairedSession) : PairedSession × Except JsError BalanceCache :=
  match p.session.surface with
  | (session, .error e) => ({ p with session }, .error e)
  | (session, .ok (seqs, generation)) =>
    let p := { p with session }
    match p.cache with
    | none => p.extend { generation } seqs
    | some cached =>
      if cached.generation ≠ generation ∨ cached.cutBalanced.length - 1 > seqs.length then
        p.extend { generation } seqs
      else if cached.cutBalanced.length - 1 < seqs.length then p.extend cached seqs
      else (p, .ok cached)

def toolPairingBalanced (p : PairedSession) (seq : Int) (side : CutSide) : PairedSession × Except JsError Bool :=
  match p.balanceCache with
  | (p, .error e) => (p, .error e)
  | (p, .ok cache) => (p, cutBalance cache seq side)

end PairedSession

/-! ## Operations -/

inductive PairingOp where
  | session (op : SessionOp)
  | balanced (seq : Int) (side : CutSide)

inductive PairingReply where
  | session (reply : SessionReply)
  | balanced (answer : Except JsError Bool)
  deriving DecidableEq

def pairingStep (p : PairedSession) : PairingOp → PairedSession × PairingReply
  | .session op =>
    let (session, reply) := sessionStep p.session op
    ({ p with session }, .session reply)
  | .balanced seq side =>
    let (p, answer) := p.toolPairingBalanced seq side
    (p, .balanced answer)

/-! ## From scratch -/

/-- The balances of all cuts of a surface, paired from its beginning. -/
def pairing (events : List SessionEvent) (seqs : List Int) : Except JsError (List Bool) := do
  let (cuts, _) ← pairTail events 0 seqs
  return true :: cuts

/-- The balance on one side of a sequence, from nothing but the log and the surface. -/
def pairedFromScratch (events : List SessionEvent) (seqs : List Int) (seq : Int) (side : CutSide) :
    Except JsError Bool := do
  let cuts ← pairing events seqs
  match (seqs.idxOf? seq).bind fun index => cuts[index + side.offset]? with
  | some balanced => return balanced
  | none => throw (seqNotFound seq)

def scratchPairingStep (session : Session) : PairingOp → Session × PairingReply
  | .session op =>
    let (session, reply) := sessionStep session op
    (session, .session reply)
  | .balanced seq side =>
    (session, .balanced do
      let (seqs, _) ← session.surface.2
      pairedFromScratch (eventsOf session.log) seqs seq side)

end CocoHarness.Compaction
