/-
# CocoHarness.TokenMeter.SurfaceProjection — the running token total of a session's surface.

The estimator prices a message by the length of its text.  The two projections, of the composition of the context and
of its pressure, do not keep the price of every node: they keep one running total, and learn what a replacement takes
away from the metering event right before it (`foldSurfaceProjection`).
-/
import CocoHarness.SessionLog.TypedEvent
import CocoHarness.Compaction.Transaction

namespace CocoHarness.TokenMeter

open Lib SessionLog Compaction

/-! ## Content and its price -/

inductive ContentBlock where
  | text (text : String)
  | reasoning (text : String)
  | toolCall (name arguments : String)
  | toolResult (content : List ContentBlock)
  /-- Any other block. -/
  | other (block : Json)

mutual

def contentBlock? : Json → Option ContentBlock
  | .obj fields =>
    match fields.lookup "type" with
    | some (.str "text") => do return .text (← (← fields.lookup "text").str?)
    | some (.str "reasoning") => do return .reasoning (← (← fields.lookup "text").str?)
    | some (.str "tool-call") => do
      return .toolCall (← (← fields.lookup "name").str?) (← (← fields.lookup "arguments").str?)
    | some (.str "tool-result") => do return .toolResult (← contentField? fields)
    | some (.str _) => some (.other (.obj fields))
    | _ => none
  | _ => none

def contentBlocks? : List Json → Option (List ContentBlock)
  | [] => some []
  | block :: rest => do return (← contentBlock? block) :: (← contentBlocks? rest)

def contentField? : List (String × Json) → Option (List ContentBlock)
  | [] => none
  | (key, value) :: rest =>
    if key = "content" then
      match value with
      | .arr blocks => contentBlocks? blocks
      | _ => none
    else contentField? rest

end

def content? : Json → Option (List ContentBlock)
  | .obj fields => contentField? fields
  | _ => none

def charsPerToken : Nat := 4

def blockOverhead : Nat := 4

def roleOverhead : Nat := 4

def textTokens (text : String) : Nat := (utf16Length text + charsPerToken - 1) / charsPerToken

def stringify (value : Json) : String := String.ofList (JsonText.text value)

mutual

def estimateBlock : ContentBlock → Nat
  | .text text | .reasoning text => textTokens text + blockOverhead
  | .toolCall name arguments => textTokens name + textTokens arguments + blockOverhead
  | .toolResult content => estimateContent content + blockOverhead
  | .other block => blockOverhead + textTokens (stringify block)

def estimateContent : List ContentBlock → Nat
  | [] => 0
  | block :: rest => estimateBlock block + estimateContent rest

end

/-- Price one message. One whose content is not of its static type is refused. -/
def estimateMessage (message : Json) : Except JsError Nat :=
  match content? message with
  | some content => .ok (estimateContent content + roleOverhead)
  | none => .error (.error "message content is not of its static type")

/-! ## Request envelopes -/

structure EpochHeader where
  system : Option String
  tools : Option (List Json)

def canonicalHeader (header : EpochHeader) : EpochHeader where
  system := header.system.filter (0 < utf16Length ·)
  tools := header.tools.filter (0 < ·.length)

def estimateSystemTokens (header : EpochHeader) : Nat :=
  match header.system with
  | none => 0
  | some system => textTokens system + roleOverhead

def estimateToolsTokens (header : EpochHeader) : Nat :=
  match header.tools with
  | none | some [] => 0
  | some tools => textTokens (stringify (.arr tools)) + blockOverhead

/-! ## Reading events -/

structure ShadowPriceClaim where
  start : Int
  stop : Int
  tokens : Int
  deriving DecidableEq

structure TokenUsage where
  inputTokens : Int
  cacheReadTokens : Option Int
  cacheWriteTokens : Option Int

inductive MeterData where
  /-- A `compaction/summary` or `compaction/prune`. -/
  | shadowPrice (claim : ShadowPriceClaim)
  | header (header : EpochHeader)
  | context (contextWindow : Option Int)
  /-- A chunk or an assistant message, with the usage it reports. -/
  | usage (usage : Option TokenUsage)
  | other

def intField? (value : Option Json) (key : String) : Option Int := (field? value key).bind Json.int?

def optional? {α : Type} (value : Option Json) (key : String) (read : Json → Option α) : Option (Option α) :=
  match field? value key with
  | none => some none
  | some v => (read v).map some

def shadowPrice? (data : Option Json) : Option ShadowPriceClaim := do
  let shadowedRange := field? data "shadowedRange"
  return { start := ← intField? shadowedRange "start"
           stop := ← intField? shadowedRange "end"
           tokens := ← intField? data "shadowedTokenCount" }

def epochHeader? (header : Json) : Option EpochHeader := do
  return { system := ← optional? (some header) "system" Json.str?
           tools := ← optional? (some header) "tools" Json.arr? }

def tokenUsage? (usage : Json) : Option TokenUsage := do
  return { inputTokens := ← intField? (some usage) "inputTokens"
           cacheReadTokens := ← optional? (some usage) "cacheReadTokens" Json.int?
           cacheWriteTokens := ← optional? (some usage) "cacheWriteTokens" Json.int? }

def meterData? (event : SessionEvent) : Option MeterData :=
  let data := some event.data
  if event.type = "compaction/summary" ∨ event.type = "compaction/prune" then
    (shadowPrice? data).map .shadowPrice
  else if event.type = "request/header" then do
    return .header (← epochHeader? (← field? data "header"))
  else if event.type = "request/context" then do
    return .context (← optional? data "contextWindow" Json.int?)
  else if event.type = "assistant/chunk" then do
    let chunk ← field? data "chunk"
    if chunk.get? "type" = some (.str "usage") then
      return .usage (some (← tokenUsage? (← chunk.get? "usage")))
    else return .usage none
  else if event.type = "assistant/message" then do
    return .usage (← optional? data "usage" tokenUsage?)
  else some .other

/-- The content of the message an event derives; an assistant message may derive none. -/
def messageContent? (event : SessionEvent) : Option (Option (List ContentBlock)) :=
  match deriveEventMessage event with
  | .error _ => none
  | .ok none => if event.type = "assistant/message" then some none else none
  | .ok (some message) => (content? message).map some

structure MeteredEvent where
  event : SessionEvent
  data : MeterData
  typed : meterData? event = some data
  content : Option (List ContentBlock)
  derived : isSurfaceEvent event = true → messageContent? event = some content

def MeteredEvent.price (e : MeteredEvent) : Nat :=
  match e.content with
  | none => 0
  | some content => estimateContent content + roleOverhead

theorem MeteredEvent.priced (e : MeteredEvent) (hsurface : isSurfaceEvent e.event = true) :
    priceEvent estimateMessage e.event = .ok e.price := by
  have hread := e.derived hsurface
  unfold messageContent? at hread
  unfold priceEvent MeteredEvent.price
  cases hderive : deriveEventMessage e.event with
  | error error =>
    rw [hderive] at hread
    cases hread
  | ok derived =>
    rw [hderive] at hread
    cases derived with
    | none =>
      dsimp only at hread
      split at hread
      · rw [← Option.some.inj hread]
        rfl
      · cases hread
    | some message =>
      obtain ⟨content, hcontent, hsome⟩ := Option.map_eq_some_iff.mp hread
      rw [← hsome]
      show estimateMessage message = _
      unfold estimateMessage
      rw [hcontent]

/-! ## The fold -/

structure SurfaceTokensFold where
  deltaTokens : Int
  claim : Option ShadowPriceClaim

/-- Fold one event onto a running total: a metering event arms a claim, which a replacement of its range consumes. -/
def foldSurfaceProjection (claim : Option ShadowPriceClaim) (e : MeteredEvent) : Except JsError SurfaceTokensFold :=
  match e.data with
  | .shadowPrice next => .ok { deltaTokens := 0, claim := some next }
  | _ =>
    if isSurfaceEvent e.event then do
      let tokens ← priceEvent estimateMessage e.event
      match ← surfaceOpOf e.event with
      | some (.replace start stop) =>
        match claim with
        -- a log from before the metering events: the range cannot be priced any more
        | none => return { deltaTokens := 0, claim := none }
        | some claim =>
          if claim.start ≠ start ∨ claim.stop ≠ stop then
            throw (.error (s!"token surface: replace at seq {e.event.seq} over range {start}-{stop} "
              ++ s!"has no adjacent shadow price (armed claim covers {claim.start}-{claim.stop})"))
          else return { deltaTokens := tokens - claim.tokens, claim := none }
      | _ => return { deltaTokens := tokens, claim := none }
    else .ok { deltaTokens := 0, claim := none }

/-! ## The composition of the context -/

structure ContextBreakdownState where
  systemTokens : Nat := 0
  toolsTokens : Nat := 0
  messageTokens : Int := 0
  claim : Option ShadowPriceClaim := none
  deriving DecidableEq

def ContextBreakdownState.seeHeader (state : ContextBreakdownState) : MeterData → ContextBreakdownState
  | .header header =>
    let header := canonicalHeader header
    { state with
      systemTokens := estimateSystemTokens header
      toolsTokens := estimateToolsTokens header }
  | _ => state

def ContextBreakdownState.apply (state : ContextBreakdownState) (e : MeteredEvent) :
    Except JsError ContextBreakdownState := do
  let fold ← foldSurfaceProjection state.claim e
  let next := state.seeHeader e.data
  if next.systemTokens = state.systemTokens ∧ next.toolsTokens = state.toolsTokens ∧ fold.deltaTokens = 0
      ∧ fold.claim = none ∧ state.claim = none then
    return state
  else
    return { next with
      messageTokens := state.messageTokens + fold.deltaTokens
      claim := fold.claim }

/-! ## The pressure on the context -/

def pressureFrom (usage : TokenUsage) : Int :=
  usage.inputTokens + usage.cacheReadTokens.getD 0 + usage.cacheWriteTokens.getD 0

structure ContextPressureState where
  contextWindow : Option Int := none
  pressureTokens : Option Int := none
  /-- The running total over the current surface. -/
  surfaceTokens : Int := 0
  /-- The running total at the newest usage sample. -/
  sampledSurfaceTokens : Option Int := none
  claim : Option ShadowPriceClaim := none
  deriving DecidableEq

namespace ContextPressureState

def seeContext (state : ContextPressureState) : MeterData → ContextPressureState
  | .context contextWindow => { state with contextWindow }
  | _ => state

/-- A usage sample, stamped before the event that reports it joins the surface. -/
def seeUsage (state : ContextPressureState) : MeterData → ContextPressureState
  | .usage (some usage) =>
    let pressureTokens := pressureFrom usage
    if some pressureTokens ≠ state.pressureTokens ∨ state.sampledSurfaceTokens ≠ some state.surfaceTokens then
      { state with
        pressureTokens := some pressureTokens
        sampledSurfaceTokens := some state.surfaceTokens }
    else state
  | _ => state

def apply (state : ContextPressureState) (e : MeteredEvent) : Except JsError ContextPressureState := do
  let fold ← foldSurfaceProjection state.claim e
  let next := (state.seeContext e.data).seeUsage e.data
  let next :=
    if fold.deltaTokens ≠ 0 then { next with surfaceTokens := next.surfaceTokens + fold.deltaTokens }
    else next
  if state.claim = none ∧ fold.claim = none then return next
  else return { next with claim := fold.claim }

end ContextPressureState

end CocoHarness.TokenMeter
