/-
# CocoHarness.TokenMeter.Measure — measuring the pressure of a request.

The meter replays the log of a session, and keeps for it the priced surface and, from the newest assistant message,
an anchor: what the provider has reported for that request, where that is at least the heuristic price of the same
request, and else that price.  `measure` adds to the anchor what the surface has gained or lost since, as long as the
envelope is the one of the anchor, and prices envelope and surface anew otherwise.
-/
import CocoHarness.TokenMeter.SurfaceProjection

namespace CocoHarness.TokenMeter

open Lib SessionLog Compaction

/-! ## Request envelopes -/

structure RequestHeader extends EpochHeader where
  config : Json
  adapterDefaults : Option Json := none

def RequestHeader.canonical (header : RequestHeader) : RequestHeader :=
  { header with
    toEpochHeader := canonicalHeader header.toEpochHeader
    adapterDefaults := header.adapterDefaults.filter fun defaults =>
      defaults.get? "reasoningEffort" = some (.bool true) || defaults.get? "maxTokens" = some (.bool true) }

def callConfigEquals (a b : Json) : Bool :=
  ["provider", "model", "reasoningEffort", "temperature", "maxTokens", "stop"].all fun key => a.get? key = b.get? key

def headerEquals (a b : RequestHeader) : Bool :=
  callConfigEquals a.config b.config
    && field? a.adapterDefaults "reasoningEffort" = field? b.adapterDefaults "reasoningEffort"
    && field? a.adapterDefaults "maxTokens" = field? b.adapterDefaults "maxTokens"
    && a.system = b.system
    && (a.tools.getD []).map stringify = (b.tools.getD []).map stringify

def optionalHeaderEquals : Option RequestHeader → Option RequestHeader → Bool
  | none, none => true
  | some left, some right => headerEquals left right
  | _, _ => false

def estimateHeader : Option RequestHeader → Nat
  | none => 0
  | some header => estimateSystemTokens header.toEpochHeader + estimateToolsTokens header.toEpochHeader

/-! ## Assembling a stream -/

inductive StreamChunk where
  | blockStart (index : Int) (blockType : String)
  | textDelta (index : Int) (text : String)
  | reasoningDelta (index : Int) (text : String)
  | toolCallDelta (index : Int) (name : Option String) (argumentsDelta : String)
  | blockEnd (index : Int) (blockType : String) (block : ContentBlock)
  | usage
  | finish (kind : String)

structure PartialBlock where
  blockType : String
  text : String := ""
  toolCallName : Option String := none
  toolCallArguments : String := ""
  /-- Set by `block-end`: authoritative, and freezes the partial. -/
  block : Option ContentBlock := none

structure BlockAssembler where
  partials : List (Int × PartialBlock) := []
  finish : Option String := none

namespace BlockAssembler

variable (a : BlockAssembler)

def ensure (index : Int) (blockType : String) : BlockAssembler :=
  if a.partials.any (·.1 = index) then a else { a with partials := a.partials ++ [(index, { blockType })] }

def change (index : Int) (f : PartialBlock → PartialBlock) : BlockAssembler :=
  { a with partials := a.partials.map fun (i, p) => (i, if i = index ∧ p.block.isNone then f p else p) }

def push : StreamChunk → BlockAssembler
  | .blockStart index blockType => a.ensure index blockType
  | .textDelta index text => (a.ensure index "text").change index fun p => { p with text := p.text ++ text }
  | .reasoningDelta index text => (a.ensure index "reasoning").change index fun p => { p with text := p.text ++ text }
  | .toolCallDelta index name argumentsDelta => (a.ensure index "tool-call").change index fun p =>
      { p with
        toolCallName := if name.any (· ≠ "") then name else p.toolCallName
        toolCallArguments := p.toolCallArguments ++ argumentsDelta }
  | .blockEnd index blockType block => (a.ensure index blockType).change index fun p => { p with block := some block }
  | .usage => a
  | .finish kind => { a with finish := some kind }

def assemble (p : PartialBlock) : Except JsError ContentBlock :=
  match p.block with
  | some block => .ok block
  | none =>
    if p.blockType = "text" then .ok (.text p.text)
    else if p.blockType = "reasoning" then .ok (.reasoning p.text)
    else if p.blockType = "tool-call" then .ok (.toolCall (p.toolCallName.getD "") p.toolCallArguments)
    else .error (.error s!"cannot assemble incomplete block of type \"{p.blockType}\"")

/-- One block per seen index; a stream cut off at its token limit keeps no tool call. -/
def blocks : Except JsError (List ContentBlock) := do
  let blocks ← a.partials.mapM fun p => assemble p.2
  if a.finish = some "max-tokens" then
    return blocks.filter fun
      | .toolCall _ _ => false
      | _ => true
  else return blocks

end BlockAssembler

/-! ## Reading events -/

structure ReportedUsage extends TokenUsage where
  outputTokens : Int

/-- Sum disjoint provider usage buckets without double-counting reasoning output. -/
def usageTokens (usage : ReportedUsage) : Int :=
  usage.inputTokens + usage.cacheReadTokens.getD 0 + usage.cacheWriteTokens.getD 0 + usage.outputTokens

inductive ReplayData where
  | header (header : RequestHeader)
  | stepStart (turn step : Int)
  | stepEnd (turn step : Int)
  | assistant (turn step : Int) (usage : Option ReportedUsage) (sourceEventSeqs : Option (List Int))
  | chunk (turn step : Int) (chunk : StreamChunk)
  | other

def reportedUsage? (usage : Json) : Option ReportedUsage := do
  return { (← tokenUsage? usage) with outputTokens := ← intField? (some usage) "outputTokens" }

def requestHeader? (header : Json) : Option RequestHeader := do
  return { (← epochHeader? header) with config := ← header.get? "config", adapterDefaults := header.get? "adapterDefaults" }

def streamChunk? (chunk : Json) : Option StreamChunk :=
  let data := some chunk
  match chunk.get? "type" with
  | some (.str "block-start") => do
    return .blockStart (← intField? data "index") (← (← chunk.get? "blockType").str?)
  | some (.str "text-delta") => do return .textDelta (← intField? data "index") (← (← chunk.get? "text").str?)
  | some (.str "reasoning-delta") => do
    return .reasoningDelta (← intField? data "index") (← (← chunk.get? "text").str?)
  | some (.str "tool-call-delta") => do
    return .toolCallDelta (← intField? data "index") (← optional? data "name" Json.str?)
      (← (← chunk.get? "argumentsDelta").str?)
  | some (.str "block-end") => do
    let block ← chunk.get? "block"
    return .blockEnd (← intField? data "index") (← (← block.get? "type").str?) (← contentBlock? block)
  | some (.str "usage") => some .usage
  | some (.str "finish") => do return .finish (← (← (← chunk.get? "reason").get? "kind").str?)
  | _ => none

/-- The seqs of the chunks that an assistant message is assembled from. -/
def sourceSeqs? (event : SessionEvent) : Option (Option (List Int)) :=
  match event.sourceEventSeqs with
  | none => some none
  | some seqs => do return some (← (← seqs.arr?).mapM Json.int?)

def replayData? (event : SessionEvent) : Option ReplayData :=
  let data := some event.data
  if event.type = "request/header" then do return .header (← requestHeader? (← field? data "header"))
  else if event.type = "step/start" then do return .stepStart (← intField? data "turn") (← intField? data "step")
  else if event.type = "step/end" then do return .stepEnd (← intField? data "turn") (← intField? data "step")
  else if event.type = "assistant/message" then do
    return .assistant (← intField? data "turn") (← intField? data "step") (← optional? data "usage" reportedUsage?)
      (← sourceSeqs? event)
  else if event.type = "assistant/chunk" then do
    return .chunk (← intField? data "turn") (← intField? data "step") (← streamChunk? (← field? data "chunk"))
  else some .other

structure ReplayedEvent extends MeteredEvent where
  replay : ReplayData
  replays : replayData? event = some replay

/-! ## The surface -/

/-- One surface event's placement and cost against the surface before it. -/
structure SurfaceTokenFold where
  tokens : Nat
  nodes : List TokenSurfaceNode
  deltaTokens : Int

def foldSurface (nodes : List TokenSurfaceNode) (event : SessionEvent) : Except JsError SurfaceTokenFold := do
  let tokens ← priceEvent estimateMessage event
  match ← surfaceOpOf event with
  | some (.replace start stop) =>
    match nodes.findIdx? (·.seq = start), nodes.findIdx? (·.seq = stop) with
    | some startIdx, some endIdx =>
      if startIdx > endIdx then
        throw (.error s!"token surface: replace at seq {event.seq} has invalid current range {start}-{stop}")
      else
        let removed := totalTokens ((nodes.take (endIdx + 1)).drop startIdx)
        return {
          tokens
          nodes := nodes.take startIdx ++ { seq := event.seq, tokens } :: nodes.drop (endIdx + 1)
          deltaTokens := tokens - removed }
    | _, _ => throw (.error s!"token surface: replace at seq {event.seq} has invalid current range {start}-{stop}")
  | _ => return { tokens, nodes := nodes ++ [{ seq := event.seq, tokens }], deltaTokens := tokens }

/-! ## The replay -/

inductive TokenMeasurementBaseline where
  | none
  | estimated (tokens : Int)
  | usage (tokens : Int) (usage : ReportedUsage)

def TokenMeasurementBaseline.tokens : TokenMeasurementBaseline → Int
  | none => 0
  | estimated tokens | usage tokens _ => tokens

structure MeasurementAnchor where
  header : Option RequestHeader
  surfaceTokens : Int
  baseline : TokenMeasurementBaseline

structure StepStart where
  turn : Int
  step : Int
  surfaceTokens : Int

structure ReplayState where
  consumedEvents : Nat := 0
  header : Option RequestHeader := none
  surface : List TokenSurfaceNode := []
  surfaceTokens : Int := 0
  stepStart : Option StepStart := none
  anchor : Option MeasurementAnchor := none

/-- The chunks that an assistant message cites are pushed in the order cited. -/
def pushSources (events : List ReplayedEvent) (seq turn step : Int) :
    List Int → List Int → BlockAssembler → Except JsError BlockAssembler
  | [], _, assembler => .ok assembler
  | source :: sources, seen, assembler =>
    if source ≥ seq then
      .error (.error s!"token meter: assistant/message at seq {seq} source seq {source} is not earlier")
    else if source ∈ seen then
      .error (.error s!"token meter: assistant/message at seq {seq} repeats source seq {source}")
    else
      match if 0 ≤ source then events[source.toNat]? else none with
      | none => .error (.typeError "undefined" "type")
      | some sourceEvent =>
        match sourceEvent.replay with
        | .chunk turn' step' chunk =>
          if turn' ≠ turn ∨ step' ≠ step then
            .error (.error s!"token meter: assistant/message at seq {seq} source seq {source} belongs to another step")
          else pushSources events seq turn step sources (source :: seen) (assembler.push chunk)
        | _ => .error (.error s!"token meter: assistant/message at seq {seq} source seq {source} is not assistant/chunk")

variable (events : List ReplayedEvent)

def estimateProviderAssistant (seq turn step : Int) (sourceEventSeqs : Option (List Int))
    (durableEventTokens : Nat) : Except JsError Nat :=
  match sourceEventSeqs with
  | none => .ok durableEventTokens
  | some sources => do
    let providerContent ← (← pushSources events seq turn step sources [] {}).blocks
    return if providerContent.isEmpty then 0 else estimateContent providerContent + roleOverhead

def nextAnchor (header : Option RequestHeader) (start : StepStart) (seq turn step : Int)
    (usage : Option ReportedUsage) (sourceEventSeqs : Option (List Int)) (eventTokens : Nat) :
    Except JsError MeasurementAnchor :=
  match usage, header with
  | some usage, some header => do
    let providerAssistantTokens ← estimateProviderAssistant events seq turn step sourceEventSeqs eventTokens
    let surfaceTokens := start.surfaceTokens + providerAssistantTokens
    let estimatedAnchorTokens := estimateHeader (some header) + surfaceTokens
    return {
      header := some header
      surfaceTokens
      -- signed deltas remain conservative only from an anchor of at least the full heuristic price
      baseline :=
        if usageTokens usage ≥ estimatedAnchorTokens then .usage (usageTokens usage) usage
        else .estimated estimatedAnchorTokens }
  | _, _ =>
    let surfaceTokens := start.surfaceTokens + eventTokens
    .ok { header, surfaceTokens, baseline := .estimated (estimateHeader header + surfaceTokens) }

/-- The part of `_foldEvent` before the surface: the header and the open step. -/
def foldStep (state : ReplayState) (e : ReplayedEvent) : Except JsError (Option RequestHeader × Option StepStart) :=
  match e.replay with
  | .header header => .ok (some header.canonical, state.stepStart)
  | .stepStart turn step =>
    match state.stepStart with
    | some start => .error (.error (s!"token meter: step/start at seq {e.event.seq} arrived before turn "
        ++ s!"{start.turn}/step {start.step} ended"))
    | none => .ok (state.header, some { turn, step, surfaceTokens := state.surfaceTokens })
  | .stepEnd turn step =>
    if state.stepStart.any fun start => start.turn = turn ∧ start.step = step then .ok (state.header, none)
    else .error (.error s!"token meter: step/end at seq {e.event.seq} has no matching step/start event")
  | _ => .ok (state.header, state.stepStart)

/-- The part of `_foldEvent` after the surface: the anchor of an assistant message. -/
def foldAnchor (state : ReplayState) (header : Option RequestHeader) (e : ReplayedEvent)
    (surface : Option SurfaceTokenFold) : Except JsError (Option MeasurementAnchor) :=
  match e.replay with
  | .assistant turn step usage sourceEventSeqs =>
    match state.stepStart with
    | some start =>
      if start.turn = turn ∧ start.step = step then
        match surface with
        | some surface =>
          (nextAnchor events header start e.event.seq turn step usage sourceEventSeqs surface.tokens).map some
        | none => .error (.typeError "undefined" "tokens")
      else .error (.error s!"token meter: assistant/message at seq {e.event.seq} has no matching step/start event")
    | none => .error (.error s!"token meter: assistant/message at seq {e.event.seq} has no matching step/start event")
  | _ => .ok state.anchor

def foldPlacement (state : ReplayState) (e : ReplayedEvent) : Except JsError (Option SurfaceTokenFold) :=
  if isSurfaceEvent e.event then (foldSurface state.surface e.event).map some else .ok none

/-- `_foldEvent`: every fallible part comes before the state changes. -/
def foldEvent (state : ReplayState) (e : ReplayedEvent) : Except JsError ReplayState := do
  let next ← foldStep state e
  let surface ← foldPlacement state e
  let anchor ← foldAnchor events state next.1 e surface
  return { state with
    header := next.1
    stepStart := next.2
    surface := surface.elim state.surface (·.nodes)
    surfaceTokens := state.surfaceTokens + surface.elim 0 (·.deltaTokens)
    anchor }

/-- The loop of `_sync`: it stops at the first event that cannot be folded. -/
def syncFrom (events : List ReplayedEvent) : List ReplayedEvent → ReplayState → ReplayState × Except JsError Unit
  | [], state => (state, .ok ())
  | e :: rest, state =>
    match foldEvent events state e with
    | .error error => (state, .error error)
    | .ok next => syncFrom events rest { next with consumedEvents := state.consumedEvents + 1 }

/-! ## The service -/

/-- A session, with the state that the meter keeps for it once it has been measured. -/
structure MeasuredSession where
  events : List ReplayedEvent := []
  state : Option ReplayState := none

structure TokenMeasurement where
  logRevision : Nat
  baseline : TokenMeasurementBaseline
  surfaceDeltaTokens : Int
  totalTokens : Int
  surfaceTokens : Int
  nodes : List TokenSurfaceNode

namespace MeasuredSession

variable (m : MeasuredSession)

def sync : MeasuredSession × Except JsError ReplayState :=
  let state := m.state.getD {}
  let (state, outcome) := syncFrom m.events (m.events.drop state.consumedEvents) state
  ({ m with state := some state }, outcome.map fun _ => state)

variable (state : ReplayState)

/-- The envelope that is measured: a given one in place of the newest of the log. -/
def measuredHeader (requestHeader : Option RequestHeader) : Option RequestHeader :=
  match requestHeader with
  | none => state.header
  | some requestHeader => some requestHeader.canonical

def measuredBaseline (header : Option RequestHeader) : TokenMeasurementBaseline × Int :=
  match state.anchor.filter fun anchor => optionalHeaderEquals anchor.header header with
  | some anchor => (anchor.baseline, state.surfaceTokens - anchor.surfaceTokens)
  | none =>
    if header.isNone ∧ state.surfaceTokens = 0 then (.none, 0)
    else (.estimated (estimateHeader header + state.surfaceTokens), 0)

def measurement (requestHeader : Option RequestHeader) : TokenMeasurement :=
  let measured := measuredBaseline state (measuredHeader state requestHeader)
  { logRevision := state.consumedEvents
    baseline := measured.1
    surfaceDeltaTokens := measured.2
    totalTokens := max 0 (measured.1.tokens + measured.2)
    surfaceTokens := state.surfaceTokens
    nodes := state.surface }

def measure (requestHeader : Option RequestHeader) : MeasuredSession × Except JsError TokenMeasurement :=
  let (m, synced) := m.sync
  (m, synced.map fun state => measurement state requestHeader)

/-- The session appends an event, and the meter follows if it has a state for it. -/
def append (e : ReplayedEvent) : Option MeasuredSession := do
  guard (e.event.seq = m.events.length)
  let appended := { m with events := m.events ++ [e] }
  return if appended.state.isSome then appended.sync.1 else appended

end MeasuredSession

inductive MeterAct where
  | append (e : ReplayedEvent)
  | measure (requestHeader : Option RequestHeader)

def MeasuredSession.step (m : MeasuredSession) : MeterAct → Option MeasuredSession
  | .append e => m.append e
  | .measure requestHeader => some (m.measure requestHeader).1

end CocoHarness.TokenMeter
