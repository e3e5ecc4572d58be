/-
# CocoHarness.Compaction.ToolResultPruner — cutting the middle out of long tool results.

The text of each is measured in code points over all its text blocks; where it is over the threshold, the head and
the tail stay and one marker stands for the middle.  The replacement comes right after a `compaction/prune` event,
which states the price of the node that it replaces.
-/
import CocoHarness.TokenMeter.SurfaceProjection

namespace CocoHarness.Compaction

open Lib SessionLog TokenMeter

/-! ## Content -/

def pruneMarker : String := "\n\n[... tool result middle pruned ...]\n\n"

def codePointLength (text : String) : Nat := text.toList.length

/-- Budgets that have been resolved: what is emitted fits the threshold. -/
structure ResolvedConfig where
  thresholdChars : Nat
  headChars : Nat
  tailChars : Nat
  positive : 0 < thresholdChars
  fits : headChars + codePointLength pruneMarker + tailChars ≤ thresholdChars

inductive ResultBlock where
  | text (fields : List (String × Json)) (text : String)
  | rich (block : Json)

def ResultBlock.toJson : ResultBlock → Json
  | .text fields kept => .obj (JsonText.setField fields "text" (.str kept))
  | .rich block => block

def resultBlock? (block : Json) : Option ResultBlock := do
  let fields ← block.obj?
  let type ← (← fields.lookup "type").str?
  if type = "text" then return .text fields (← (← fields.lookup "text").str?)
  else return .rich block

def measureContent : List ResultBlock → Nat
  | [] => 0
  | .text _ text :: rest => codePointLength text + measureContent rest
  | .rich _ :: rest => measureContent rest

/-- The walk over the blocks, with the code points passed and whether the marker is in. -/
def pruneBlocks (removedStart removedEnd : Nat) : Nat → Bool → List ResultBlock → List ResultBlock × Bool
  | _, markerInserted, [] => ([], markerInserted)
  | consumed, markerInserted, .rich block :: rest =>
    let (pruned, inserted) := pruneBlocks removedStart removedEnd consumed markerInserted rest
    (.rich block :: pruned, inserted)
  | consumed, markerInserted, .text fields text :: rest =>
    let points := text.toList
    let blockEnd := consumed + points.length
    let headEnd := min points.length (removedStart - consumed)
    let tailStart := min points.length (removedEnd - consumed)
    let marks := consumed < removedEnd && blockEnd > removedStart && !markerInserted
    let kept := String.ofList (points.take headEnd) ++ (if marks then pruneMarker else "")
      ++ String.ofList (points.drop tailStart)
    let (pruned, inserted) := pruneBlocks removedStart removedEnd blockEnd (markerInserted || marks) rest
    (if kept = "" then pruned else .text fields kept :: pruned, inserted)

/-- Replace an over-budget text middle while retaining the order of other blocks. -/
def pruneContent (config : ResolvedConfig) (blocks : List ResultBlock) : Except JsError (Option (List ResultBlock)) :=
  let totalChars := measureContent blocks
  if totalChars ≤ config.thresholdChars then .ok none
  else
    let (pruned, markerInserted) := pruneBlocks config.headChars (totalChars - config.tailChars) 0 false blocks
    if ¬ markerInserted then
      .error (.error "tool-result prune: failed to locate the removed text span")
    else
      let charsAfter := measureContent pruned
      if charsAfter > config.thresholdChars ∨ charsAfter ≥ totalChars then
        .error (.error "tool-result prune: replacement must be smaller and within threshold")
      else .ok (some pruned)

/-! ## Candidates -/

structure ToolResultData where
  data : List (String × Json)
  message : List (String × Json)
  /-- The one block of its message. -/
  result : List (String × Json)
  content : List ResultBlock
  callId : String

def toolResultData? (data : Json) : Option ToolResultData := do
  let data ← data.obj?
  let message ← (← data.lookup "message").obj?
  let result ← (← (← (← message.lookup "content").arr?).head?).obj?
  let content ← (← (← result.lookup "content").arr?).mapM resultBlock?
  let callId ← stringField? (message.lookup "source") "callId"
  return { data, message, result, content, callId }

def ToolResultData.withContent (original : ToolResultData) (content : List ResultBlock) : Json :=
  let result := JsonText.setField original.result "content" (.arr (content.map ResultBlock.toJson))
  let message := JsonText.setField original.message "content" (.arr [.obj result])
  .obj (JsonText.setField original.data "message" (.obj message))

structure SnapshotCandidate where
  seq : Int
  event : SessionEvent

def snapshotCandidates (nodes : List Int) (log : List SessionEvent) : List SnapshotCandidate :=
  nodes.filterMap fun seq => ((eventAt log seq).filter (·.type = "tool/result")).map fun event => { seq, event }

/-! ## Pruning -/

def pruneRequest (seq : Int) (shadowedTokenCount : Nat) (now : EpochMs) : AppendRequest where
  type := "compaction/prune"
  data := .obj [("shadowedRange", .obj [("start", jsInt seq), ("end", jsInt seq)]),
    ("shadowedSeqs", .arr [jsInt seq]), ("shadowedTokenCount", jsInt shadowedTokenCount)]
  now := now

def prunedRequest (seq : Int) (data : Json) (now : EpochMs) : AppendRequest where
  type := "tool/result"
  data := .ofJson data
  opts := {
    surfaceOp := .obj [("op", .str "replace"), ("start", jsInt seq), ("end", jsInt seq)]
    sourceEventSeqs := .arr [jsInt seq] }
  now := now

structure PrunedEntry where
  originalSeq : Int
  replacementSeq : Int
  callId : String
  charsBefore : Nat
  charsAfter : Nat
  deriving DecidableEq

structure PruneResult where
  pruned : List PrunedEntry := []
  charsRemoved : Int := 0
  deriving DecidableEq

def PruneResult.land (result : PruneResult) (entry : PrunedEntry) : PruneResult where
  pruned := result.pruned ++ [entry]
  charsRemoved := result.charsRemoved + ((entry.charsBefore : Int) - entry.charsAfter)

structure PruneAnswers where
  prune : Publication
  replacement : Publication

/-- Prune one candidate: the replacement, if there is one to make. -/
def PairedSession.pruneCandidate (config : ResolvedConfig) (p : PairedSession)
    (candidate : SnapshotCandidate) (answers : PruneAnswers) :
    PairedSession × Except JsError (Option PrunedEntry) :=
  match toolResultData? candidate.event.data with
  | none => (p, .error (.error "tool/result data is not of its static type"))
  | some original =>
    match pruneContent config original.content with
    | .error e => (p, .error e)
    | .ok none => (p, .ok none)
    | .ok (some content) =>
      match estimateMessage (.obj original.message) with
      | .error e => (p, .error e)
      | .ok shadowedTokenCount =>
        -- the metering event and its replacement are adjacent
        match p.append (pruneRequest candidate.seq shadowedTokenCount answers.prune.now)
          answers.prune.listeners with
        | (p, .error e) => (p, .error e)
        | (p, .ok _) =>
          match p.append
            (prunedRequest candidate.seq (original.withContent content) answers.replacement.now)
            answers.replacement.listeners with
          | (p, .error e) => (p, .error e)
          | (p, .ok replacement) =>
            (p, .ok (some {
              originalSeq := candidate.seq
              replacementSeq := replacement.event.seq
              callId := original.callId
              charsBefore := measureContent original.content
              charsAfter := measureContent content }))

/-- Prune the candidates one after another; what has been committed stays. -/
def PairedSession.pruneCandidates (config : ResolvedConfig) (answers : Int → PruneAnswers) :
    PairedSession → List SnapshotCandidate → PruneResult → PairedSession × Except JsError PruneResult
  | p, [], result => (p, .ok result)
  | p, candidate :: rest, result =>
    match p.pruneCandidate config candidate (answers candidate.seq) with
    | (p, .error e) => (p, .error e)
    | (p, .ok none) => p.pruneCandidates config answers rest result
    | (p, .ok (some entry)) => p.pruneCandidates config answers rest (result.land entry)

/-- Prune every over-budget tool result from one snapshot of the surface. -/
def PairedSession.pruneSession (config : ResolvedConfig) (p : PairedSession)
    (answers : Int → PruneAnswers) : PairedSession × Except JsError PruneResult :=
  match p.surfaceNodes with
  | (p, .error e) => (p, .error e)
  | (p, .ok nodes) =>
    let (p, log) := p.events
    p.pruneCandidates config answers (snapshotCandidates nodes log) {}

end CocoHarness.Compaction
