/-
# CocoHarness.Compaction.PrunedContent — what pruning keeps of a text in pieces.

The blocks of a result are the chunks of one sequence of code points, so one walk over them keeps the head and the
tail of the whole sequence; the marker neither begins nor ends with a surrogate, so what is written reads back as the
code points kept.
-/
import CocoHarness.Lib.CodePoints
import CocoHarness.Lib.MiddleCut
import CocoHarness.Compaction.ToolResultPruner
import CocoHarness.Persistence.Header

namespace CocoHarness.Compaction

open Lib Lib.Utf16 Lib.MiddleCut SessionLog TokenMeter List

/-! ## Configuration -/

def budget (config : List (String × Json)) (name : String) (fallback : Nat) : Json :=
  match config.lookup name with
  | none | some .null => .num (.int fallback)
  | some value => value

def assertPositiveInteger (name : String) (value : Json) : Except JsError Nat :=
  match value with
  | .num (.int n) =>
    if n ≤ 0 then
      throw (.error s!"ToolResultPruneConfig: {name} ({Persistence.jsString value}) must be a positive integer")
    else return n.toNat
  | _ => throw (.error s!"ToolResultPruneConfig: {name} ({Persistence.jsString value}) must be a positive integer")

namespace UnitContent

/-! ## Content of UTF-16 texts -/

/-- A block of a tool result whose text is any JavaScript string. -/
inductive Block where
  | text (fields : List (String × Json)) (text : List Unit16)
  | rich (block : Json)

def marker : List Unit16 := units pruneMarker

def measureContent : List Block → Nat
  | [] => 0
  | .text _ text :: rest => (points text).length + measureContent rest
  | .rich _ :: rest => measureContent rest

/-- The walk over the blocks, with the code points passed and whether the marker is in. -/
def pruneBlocks (removedStart removedEnd : Nat) : Nat → Bool → List Block → List Block × Bool
  | _, markerInserted, [] => ([], markerInserted)
  | consumed, markerInserted, .rich block :: rest =>
    let (pruned, inserted) := pruneBlocks removedStart removedEnd consumed markerInserted rest
    (.rich block :: pruned, inserted)
  | consumed, markerInserted, .text fields text :: rest =>
    let points := points text
    let blockEnd := consumed + points.length
    let headEnd := min points.length (removedStart - consumed)
    let tailStart := min points.length (removedEnd - consumed)
    let marks := consumed < removedEnd && blockEnd > removedStart && !markerInserted
    let kept := (points.take headEnd).flatten ++ (if marks then marker else []) ++ (points.drop tailStart).flatten
    let (pruned, inserted) := pruneBlocks removedStart removedEnd blockEnd (markerInserted || marks) rest
    (if kept.isEmpty then pruned else .text fields kept :: pruned, inserted)

/-- Replace an over-budget text middle while retaining the order of other blocks. -/
def pruneContent (config : ResolvedConfig) (blocks : List Block) : Except JsError (Option (List Block)) :=
  let totalChars := measureContent blocks
  if totalChars ≤ config.thresholdChars then .ok none
  else
    let (pruned, markerInserted) := pruneBlocks config.headChars (totalChars - config.tailChars) 0 false blocks
    if ¬ markerInserted then
      .error (.error "tool-result prune: failed to locate the removed text span")
    else
      let charsAfter := measureContent pruned
      if charsAfter > config.thresholdChars ∨ charsAfter ≥ totalChars then
        .error (.error "tool-result prune: replacement must be smaller and within threshold")
      else .ok (some pruned)

/-! ## Blocks as chunks of code points -/

def chunk : Block → Chunk (List Unit16) Json (List (String × Json))
  | .text fields text => .items fields (points text)
  | .rich block => .other block

variable {text : List Unit16}

variable {config : ResolvedConfig} {blocks : List Block}

end UnitContent

end CocoHarness.Compaction
