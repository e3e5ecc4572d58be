/-
# CocoHarness.Compaction.Transaction — the compaction transaction.

A transaction validates a span of the surface and logs `compaction/start`, which is the lock; it awaits the summary,
checks that the span is still what was priced and that the summary is smaller, and logs the summary, the replacement
and `compaction/end`.  Whatever fails after the start ends in one attempt to log the end.

`estimate` is the price of a message; what the summarizer answers, whether the rest of a measurement throws, whether
the signal is aborted, and what each publication comes to are chosen by the action taken.
-/
import CocoHarness.Compaction.Region

namespace CocoHarness.Compaction

open Lib SessionLog

/-! ## Metering -/

variable (estimate : Json → Except JsError Nat)

/-- The price of a surface event: that of its message, if it derives one. -/
def priceEvent (event : SessionEvent) : Except JsError Nat := do
  match ← deriveEventMessage event with
  | none => return 0
  | some message => estimate message

def foldSurfaceTokens (nodes : List TokenSurfaceNode)
    (event : SessionEvent) : Except JsError (List TokenSurfaceNode) := do
  let tokens ← priceEvent estimate event
  match ← surfaceOpOf event with
  | some (.replace start stop) =>
    match nodes.findIdx? (·.seq = start), nodes.findIdx? (·.seq = stop) with
    | some startIdx, some endIdx =>
      if startIdx > endIdx then
        throw (.error s!"token surface: replace at seq {event.seq} has invalid current range {start}-{stop}")
      else
        return nodes.take startIdx ++ { seq := event.seq, tokens } :: nodes.drop (endIdx + 1)
    | _, _ => throw (.error s!"token surface: replace at seq {event.seq} has invalid current range {start}-{stop}")
  | _ => return nodes ++ [{ seq := event.seq, tokens }]

def measuredNodes (log : List SessionEvent) : Except JsError (List TokenSurfaceNode) :=
  log.foldlM (fun nodes event =>
    if isSurfaceEvent event then foldSurfaceTokens estimate nodes event else .ok nodes) []

/-- `measure`, of which the priced surface is read; the rest of the replay may throw. -/
def measure (rest : Except JsError Unit) (log : List SessionEvent) : Except JsError (List TokenSurfaceNode) := do
  rest
  measuredNodes estimate log

/-! ## Errors -/

inductive ManualCompactionErrorCode where
  | busy
  | commit
  | changed
  | summary
  | persistence
  deriving DecidableEq

inductive CompactionError where
  | thrown (error : JsError)
  /-- `SurfaceChangedError`. -/
  | surfaceChanged (message : String) (cause : Option JsError)
  /-- `ManualCompactionError`. -/
  | manual (code : ManualCompactionErrorCode) (message : String)

/-- `errorChain`: the message, or the name for want of one, and that of the cause. -/
def errorChain : CompactionError → String
  | .thrown (.error "") => "Error"
  | .thrown error => error.message
  | .surfaceChanged message none => message
  | .surfaceChanged message (some cause) =>
    let causeText := errorChain (.thrown cause)
    if causeText = message then message else message ++ ": " ++ causeText
  | .manual _ message => message

/-! ## The state of the log at entry -/

structure CompactionEntryState where
  openTurn : Option (Option Json) := none
  openTurnStateKnown : Bool := false
  unmatchedCompactionStart : Option SessionEvent := none
  compactionEntryStateKnown : Bool := false
  latestEndSeedSeq : Option Int := none

namespace CompactionEntryState

variable (state : CompactionEntryState)

variable (event : SessionEvent)

def seeEndSeed : CompactionEntryState :=
  if state.latestEndSeedSeq = none ∧ event.type = "session/end-seed" then
    { state with latestEndSeedSeq := some event.seq }
  else state

def seeCompaction : CompactionEntryState :=
  if state.compactionEntryStateKnown then state
  else if event.type = "compaction/start" then
    { state with unmatchedCompactionStart := some event, compactionEntryStateKnown := true }
  else if event.type = "compaction/end" then { state with compactionEntryStateKnown := true }
  else state

def seeTurn : Except JsError CompactionEntryState :=
  if state.openTurnStateKnown then .ok state
  else if event.type = "turn/start" then do
    let turn ← jsGet (some event.data) "turn"
    -- a turn that is `null` is no open turn
    return { state with
      openTurn := if turn = some .null then none else some turn
      openTurnStateKnown := true }
  else if event.type = "turn/end" then .ok { state with openTurnStateKnown := true }
  else .ok state

def scan : CompactionEntryState → List SessionEvent → Except JsError CompactionEntryState
  | state, [] => .ok state
  | state, event :: earlier => do
    let state ← ((state.seeEndSeed event).seeCompaction event).seeTurn event
    if state.openTurnStateKnown && state.compactionEntryStateKnown && state.latestEndSeedSeq.isSome then
      return state
    else state.scan earlier

end CompactionEntryState

/-- Inspect open-turn, unmatched-compaction, and latest seed-boundary state independently. -/
def inspectCompactionEntryState (events : List SessionEvent) : Except JsError CompactionEntryState :=
  CompactionEntryState.scan {} events.reverse

/-- Reject an unmatched compaction marker behind the last seed boundary. -/
def assertCompactionInactive (state : CompactionEntryState) (stage : String) : Except CompactionError Unit :=
  match state.unmatchedCompactionStart with
  | none => .ok ()
  | some start =>
    if state.latestEndSeedSeq.any (start.seq < ·) then .ok ()
    else .error (.manual .busy
      s!"{stage}: compaction already in progress; the session compaction lock is already active")

/-! ## Requests and results -/

/-- The arguments of `compactSurfaceRegion`, with the id it draws. -/
structure CompactionRequest where
  start : Int
  stop : Int
  /-- `owner: null`. -/
  manual : Bool
  /-- `stability: 'whole-surface'`. -/
  wholeSurface : Bool
  flush : Bool
  sourceCommandId : Option String := none
  compactionId : String

structure SummaryResult where
  summary : JsValue
  provider : JsValue
  model : JsValue
  maxTokens : Option JsValue := none
  usage : Option JsValue := none
  rawOutput : Option JsValue := none
  llmStreamCall : Bool := false
  checkpointMessage : Json
  wf : checkpointMessage.WF

structure Publication where
  now : EpochMs
  listeners : Listeners := {}

structure PreparedCompaction where
  selection : SurfaceSelection
  measurement : List TokenSurfaceNode
  selectedNodes : List TokenSurfaceNode
  shadowedTokenCount : Nat

structure CompactionResult where
  compactionId : String
  startSeq : Int
  summarySeq : Int
  endSeq : Int
  shadowedRange : SurfaceSpan
  shadowedSeqs : List Int
  shadowedTokenCount : Nat
  deriving DecidableEq

inductive FailureStage where
  | summary
  | commit
  deriving DecidableEq

structure TransactionFailure where
  error : CompactionError
  stage : FailureStage

inductive TransactionPoint where
  | summarizing (prepared : PreparedCompaction)
  /-- The end is logged, and the durability checkpoint awaited. -/
  | flushing (outcome : Except TransactionFailure CompactionResult)
  | settled (outcome : Except CompactionError CompactionResult)

structure Transaction where
  request : CompactionRequest
  /-- The turn that owns it; `null` for a manual one. -/
  owner : JsValue
  selection : SurfaceSelection
  startSeq : Int
  point : TransactionPoint
  /-- What each attempt to log the end has come to. -/
  closings : List (Except JsError Int) := []
  /-- The replacement, once it is logged. -/
  replacement : Option Int := none

/-! ## Events -/

def optionalField (key : String) : Option JsValue → List (String × JsValue)
  | none => []
  | some value => [(key, value)]

def identityFields (request : CompactionRequest) : List (String × JsValue) :=
  ("compactionId", .str request.compactionId) :: optionalField "sourceCommandId" (request.sourceCommandId.map .str)

def lifecycle (request : CompactionRequest) (owner : JsValue) : List (String × JsValue) :=
  identityFields request ++ [("turn", owner)]

def jsInt (n : Int) : JsValue := .num (.int n)

variable (t : Transaction)

def endRequest (error : Option String) (now : EpochMs) : AppendRequest where
  type := "compaction/end"
  data := .obj (lifecycle t.request t.owner ++ optionalField "error" (error.map .str))
  now := now

def rangeFields (selection : SurfaceSelection) : List (String × JsValue) :=
  [("start", jsInt selection.start), ("end", jsInt selection.stop)]

def provenanceFields (answer : SummaryResult) : List (String × JsValue) :=
  if answer.llmStreamCall then
    [("rawOutput", answer.rawOutput.getD .undefined), ("llmStreamCall", .bool true)]
  else optionalField "rawOutput" answer.rawOutput

def summaryRequest (prepared : PreparedCompaction) (answer : SummaryResult) (now : EpochMs) : AppendRequest where
  type := "compaction/summary"
  data := .obj (identityFields t.request ++ [("summary", answer.summary)] ++ provenanceFields answer
    ++ [("shadowedRange", .obj (rangeFields prepared.selection)),
      ("shadowedSeqs", .arr (prepared.selection.shadowedSeqs.map jsInt)),
      ("shadowedTokenCount", jsInt prepared.shadowedTokenCount),
      ("provider", answer.provider), ("model", answer.model)]
    ++ optionalField "maxTokens" answer.maxTokens ++ optionalField "usage" answer.usage)
  now := now

def replacementRequest (prepared : PreparedCompaction) (answer : SummaryResult)
    (summarySeq : Int) (now : EpochMs) : AppendRequest where
  type := "user/message"
  data := .ofJson answer.checkpointMessage
  opts := {
    surfaceOp := .obj (("op", .str "replace") :: rangeFields prepared.selection)
    sourceEventSeqs := .arr (jsInt t.startSeq :: jsInt summarySeq :: prepared.selection.shadowedSeqs.map jsInt) }
  now := now

def PairedSession.append (p : PairedSession) (request : AppendRequest) (listeners : Listeners) :
    PairedSession × Except JsError EventRef :=
  let (session, result) := p.session.append request listeners
  ({ p with session }, result)

def PairedSession.events (p : PairedSession) : PairedSession × List SessionEvent :=
  let (session, events) := p.session.events
  ({ p with session }, eventsOf events)

/-! ## Answers -/

/-- How the attempt to log the end is published, and the abort reason after it. -/
structure CloseAnswers where
  publication : Publication
  aborted : Option JsError := none

structure BeginAnswers where
  aborted : Option JsError := none
  publication : Publication
  /-- Whether the rest of the measurement throws. -/
  measured : Except JsError Unit := .ok ()
  /-- Whether building the summarizer's input throws. -/
  input : Except JsError Unit := .ok ()
  close : CloseAnswers

structure SummaryAnswers where
  answer : Except JsError SummaryResult
  aborted : Option JsError := none
  measured : Except JsError Unit := .ok ()
  summary : Publication
  replacement : Publication
  close : CloseAnswers

def throwIfAborted (manual : Bool) : Option JsError → Except CompactionError Unit
  | some reason => if manual then .error (.thrown reason) else .ok ()
  | none => .ok ()

def thrown {α : Type} (result : Except JsError α) : Except CompactionError α := result.mapError .thrown

/-! ## Ending -/

def throwManualFailure (failure : TransactionFailure) : CompactionError :=
  match failure.stage, failure.error with
  | .commit, _ => .manual .commit "manual compaction did not commit cleanly"
  | .summary, .surfaceChanged .. => .manual .changed "the compacted history changed during manual compaction"
  | .summary, _ => .manual .summary "manual compaction could not produce a smaller summary"

namespace Transaction

variable (t : Transaction)

/-- What the transaction comes to once nothing is awaited any more. -/
def conclude (outcome : Except TransactionFailure CompactionResult)
    (flushFailure aborted : Option JsError) : Except CompactionError CompactionResult := do
  throwIfAborted t.request.manual aborted
  match outcome, flushFailure with
  | .error failure, _ => if t.request.manual then throw (throwManualFailure failure) else throw failure.error
  | .ok _, some _ => throw (.manual .persistence "manual compaction durability checkpoint failed")
  | .ok result, none => return result

/-- The end has been attempted: await the durability checkpoint, or conclude. -/
def attempted (closing : Except JsError Int)
    (outcome : Except TransactionFailure CompactionResult) (aborted : Option JsError) : Transaction :=
  let t := { t with closings := t.closings ++ [closing] }
  if closing.isOk && t.request.flush then { t with point := .flushing outcome }
  else { t with point := .settled (t.conclude outcome none aborted) }

def fail (p : PairedSession) (failure : TransactionFailure) (close : CloseAnswers) : PairedSession × Transaction :=
  match p.append (endRequest t (some (errorChain failure.error)) close.publication.now)
    close.publication.listeners with
  | (p, .ok event) => (p, t.attempted (.ok event.event.seq) (.error failure) close.aborted)
  | (p, .error closeError) =>
    (p, t.attempted (.error closeError) (.error ⟨.thrown closeError, .commit⟩) close.aborted)

end Transaction

/-! ## Beginning -/

def transactionOwner (manual : Bool) (entryState : CompactionEntryState) : Except CompactionError JsValue :=
  match manual, entryState.openTurn with
  | true, none => .ok .null
  | true, some _ => .error (.manual .busy "manual compaction: the session already has an open turn")
  | false, none =>
    .error (.thrown (.error ("compactRegion: no open turn — automatic compaction events must be "
      ++ "enclosed in a turn")))
  | false, some turn => .ok ((turn.map JsValue.ofJson).getD .undefined)

def startRequest (request : CompactionRequest) (owner : JsValue) (now : EpochMs) : AppendRequest where
  type := "compaction/start"
  data := .obj (lifecycle request owner)
  now := now

def selectedSlice (nodes : List TokenSurfaceNode) (selection : SurfaceSelection) : List TokenSurfaceNode :=
  (nodes.take (selection.endIdx + 1)).drop selection.startIdx

variable (estimate : Json → Except JsError Nat)

/-- Snapshot pricing and replay input for a validated surface range. -/
def prepareCompaction (log : List SessionEvent)
    (selection : SurfaceSelection) (answers : BeginAnswers) : Except CompactionError PreparedCompaction := do
  let measurement ← thrown (measure estimate answers.measured log)
  let selectedNodes := selectedSlice measurement selection
  if selectedNodes.map (·.seq) ≠ selection.shadowedSeqs then
    throw (.surfaceChanged "compaction: selected surface changed before summarization began" none)
  else
    thrown answers.input
    return { selection, measurement, selectedNodes, shadowedTokenCount := totalTokens selectedNodes }

variable (p : PairedSession)

/-- Everything up to the append of `compaction/start`: the span, and the owner. -/
def PairedSession.enter (request : CompactionRequest) (aborted : Option JsError) :
    PairedSession × Except CompactionError (SurfaceSelection × JsValue) :=
  match throwIfAborted request.manual aborted with
  | .error e => (p, .error e)
  | .ok () =>
    match p.validateSurfaceRegion request.start request.stop with
    | (p, .error e) => (p, .error (.thrown e))
    | (p, .ok selection) =>
      let (p, events) := p.events
      (p, do
        let entryState ← thrown (inspectCompactionEntryState events)
        assertCompactionInactive entryState "compaction"
        let owner ← transactionOwner request.manual entryState
        return (selection, owner))

def PairedSession.begin (request : CompactionRequest) (answers : BeginAnswers) :
    PairedSession × Except CompactionError Transaction :=
  match p.enter request answers.aborted with
  | (p, .error e) => (p, .error e)
  | (p, .ok (selection, owner)) =>
    match p.append (startRequest request owner answers.publication.now) answers.publication.listeners with
    | (p, .error e) => (p, .error (.thrown e))
    | (p, .ok startEvent) =>
      let (p, events) := p.events
      let t : TransactionPoint → Transaction := fun point =>
        { request, owner, selection, startSeq := startEvent.event.seq, point }
      match prepareCompaction estimate events selection answers with
      | .ok prepared => (p, .ok (t (.summarizing prepared)))
      | .error e =>
        let failure : TransactionFailure := ⟨e, .summary⟩
        (((t (.flushing (.error failure))).fail p failure answers.close).map id .ok)

/-! ## After the summary -/

def checkSummary (prepared : PreparedCompaction)
    (answer : Except JsError SummaryResult) : Except CompactionError SummaryResult := do
  let answer ← thrown answer
  let framedSummaryTokenCount ← thrown (estimate answer.checkpointMessage)
  if framedSummaryTokenCount ≥ prepared.shadowedTokenCount then
    throw (.thrown (.error (s!"summary is not smaller than the shadowed content "
      ++ s!"({framedSummaryTokenCount} estimated framed tokens >= {prepared.shadowedTokenCount})")))
  else return answer

/-- Reject a summary prepared against any earlier surface generation. -/
def assertWholeSurfaceUnchanged (log : List SessionEvent)
    (measured : Except JsError Unit) (prepared : PreparedCompaction) : Except CompactionError Unit := do
  let current ← thrown (measure estimate measured log)
  if current ≠ prepared.measurement then
    throw (.surfaceChanged "compaction: session surface changed during summarization" none)
  else return ()

/-- Require only that the span remain the same priced, balanced replacement target. -/
def assertSelectedSpanStable (measured : Except JsError Unit) (prepared : PreparedCompaction) :
    PairedSession × Except CompactionError Unit :=
  match p.validateSurfaceRegion prepared.selection.start prepared.selection.stop with
  | (p, .error e) =>
    (p, .error (.surfaceChanged "compaction: the selected span is no longer a valid replacement target" (some e)))
  | (p, .ok current) =>
    let (p, events) := p.events
    (p, do
      if current.shadowedSeqs ≠ prepared.selection.shadowedSeqs then
        throw (.surfaceChanged "compaction: the selected span changed during summarization" none)
      else
        let nodes ← thrown (measure estimate measured events)
        if selectedSlice nodes current ≠ prepared.selectedNodes then
          throw (.surfaceChanged "compaction: the selected span was rewritten during summarization" none)
        else return ())

def assertStable (wholeSurface : Bool) (measured : Except JsError Unit) (prepared : PreparedCompaction) :
    PairedSession × Except CompactionError Unit :=
  if wholeSurface then
    let (p, events) := p.events
    (p, assertWholeSurfaceUnchanged estimate events measured prepared)
  else assertSelectedSpanStable estimate p measured prepared

/-- Append one completed summary record and replacement body without yielding: their seqs. -/
def commitCompactionBody (t : Transaction) (prepared : PreparedCompaction)
    (answer : SummaryResult) (answers : SummaryAnswers) : PairedSession × Except JsError (Int × Int) :=
  match p.append (summaryRequest t prepared answer answers.summary.now) answers.summary.listeners with
  | (p, .error e) => (p, .error e)
  | (p, .ok summaryEvent) =>
    match p.append
      (replacementRequest t prepared answer summaryEvent.event.seq answers.replacement.now)
      answers.replacement.listeners with
    | (p, .error e) => (p, .error e)
    | (p, .ok replacement) => (p, .ok (summaryEvent.event.seq, replacement.event.seq))

def completeCompaction (t : Transaction) (prepared : PreparedCompaction) (summarySeq endSeq : Int) :
    CompactionResult where
  compactionId := t.request.compactionId
  startSeq := t.startSeq
  summarySeq := summarySeq
  endSeq := endSeq
  shadowedRange := { start := prepared.selection.start, stop := prepared.selection.stop }
  shadowedSeqs := prepared.selection.shadowedSeqs
  shadowedTokenCount := prepared.shadowedTokenCount

/-- `compactSurfaceRegion` from the answer of the summarizer to its next `await`. -/
def Transaction.summarized (t : Transaction) (p : PairedSession)
    (prepared : PreparedCompaction) (answers : SummaryAnswers) : PairedSession × Transaction :=
  let checked : Except CompactionError SummaryResult := do
    let answer ← checkSummary estimate prepared answers.answer
    throwIfAborted t.request.manual answers.aborted
    return answer
  match checked with
  | .error e => t.fail p ⟨e, .summary⟩ answers.close
  | .ok answer =>
    match assertStable estimate p t.request.wholeSurface answers.measured prepared with
    | (p, .error e) => t.fail p ⟨e, .summary⟩ answers.close
    | (p, .ok ()) =>
      match commitCompactionBody p t prepared answer answers with
      | (p, .error e) => t.fail p ⟨.thrown e, .commit⟩ answers.close
      | (p, .ok (summarySeq, replacement)) =>
        let t := { t with replacement := some replacement }
        match p.append (endRequest t none answers.close.publication.now)
          answers.close.publication.listeners with
        | (p, .error e) =>
          -- the end has been attempted already
          (p, t.attempted (.error e) (.error ⟨.thrown e, .commit⟩) answers.close.aborted)
        | (p, .ok event) =>
          (p, t.attempted (.ok event.event.seq)
            (.ok (completeCompaction t prepared summarySeq event.event.seq)) answers.close.aborted)

/-! ## Interleavings -/

structure Compactor where
  paired : PairedSession
  transactions : List Transaction := []

/-- What can happen next: anything else done to the session, the call of `compactSurfaceRegion`, the answer
of a summarizer, the end of a durability checkpoint. -/
inductive CompactorAct where
  | other (op : PairingOp)
  | begin (request : CompactionRequest) (answers : BeginAnswers)
  | summarized (index : Nat) (answers : SummaryAnswers)
  | flushed (index : Nat) (failure aborted : Option JsError)

namespace Compactor

def step (estimate : Json → Except JsError Nat) (c : Compactor) : CompactorAct → Option Compactor
  | .other op => some { c with paired := (pairingStep c.paired op).1 }
  | .begin request answers =>
    match c.paired.begin estimate request answers with
    | (paired, .error _) => some { c with paired }
    | (paired, .ok t) => some { paired, transactions := c.transactions ++ [t] }
  | .summarized index answers => do
    let t ← c.transactions[index]?
    match t.point with
    | .summarizing prepared =>
      let (paired, t) := t.summarized estimate c.paired prepared answers
      return { paired, transactions := c.transactions.set index t }
    | _ => none
  | .flushed index failure aborted => do
    let t ← c.transactions[index]?
    match t.point with
    | .flushing outcome =>
      let t := { t with point := .settled (t.conclude outcome failure aborted) }
      return { c with transactions := c.transactions.set index t }
    | _ => none

end Compactor

/-! ## The brackets of a log -/

/-- The compaction that is active after a log: the newest start that no end and no seed boundary follows. -/
def activeCompaction (log : List SessionEvent) : Option Int :=
  log.foldl (fun active event =>
    if event.type = "compaction/start" then some event.seq
    else if event.type = "compaction/end" || event.type = "session/end-seed" then none
    else active) none

/-- The compactions open after a log, newest first; a seed boundary leaves all behind. -/
def openCompactions (log : List SessionEvent) : List Int :=
  log.foldl (fun opened event =>
    if event.type = "compaction/start" then event.seq :: opened
    else if event.type = "compaction/end" then opened.tail
    else if event.type = "session/end-seed" then []
    else opened) []

end CocoHarness.Compaction
