/-
# CocoHarness.Llm.Stream — the chunks an adapter streams, and the grammar they are checked against.

A response interleaves several typed blocks.  A chunk's index ties it to its block: a start opens it, deltas add to
it, and an end carries the whole block.
-/
import CocoHarness.Lib.InsertionMap
import CocoHarness.Lib.SafeInteger
import CocoHarness.Lib.Fallible
import CocoHarness.Lib.Numeral

namespace CocoHarness.Llm

open Lib Lib.SafeInteger Lib.Numeral

/-! ## Blocks and chunks -/

inductive ContentBlockType where
  | text
  | reasoning
  | image
  | toolCall
  | toolResult
  deriving DecidableEq

def ContentBlockType.tag : ContentBlockType → String
  | .text => "text"
  | .reasoning => "reasoning"
  | .image => "image"
  | .toolCall => "tool-call"
  | .toolResult => "tool-result"

/-- A content block; what only other components read of it is kept as JSON. -/
inductive ContentBlock where
  | text (text : String)
  | reasoning (text : String)
  | image (attachment : Json)
  | toolCall (id name arguments : String)
  | toolResult (toolCallId : String) (content : Json) (isError : Option Bool)
  deriving DecidableEq

def ContentBlock.type : ContentBlock → ContentBlockType
  | .text _ => .text
  | .reasoning _ => .reasoning
  | .image _ => .image
  | .toolCall .. => .toolCall
  | .toolResult .. => .toolResult

inductive FinishReason where
  | stop
  | toolCalls
  | maxTokens
  | aborted (failure : Json)
  | error (failure : Json)
  deriving DecidableEq

structure TokenUsage where
  inputTokens : Number
  outputTokens : Number
  cacheReadTokens : Option Number := none
  cacheWriteTokens : Option Number := none
  reasoningTokens : Option Number := none
  deriving DecidableEq

inductive StreamChunk where
  | blockStart (index : Number) (blockType : ContentBlockType)
  | textDelta (index : Number) (text : String)
  | reasoningDelta (index : Number) (text : String)
  | toolCallDelta (index : Number) (id : String) (name : Option String) (argumentsDelta : String)
  | blockEnd (index : Number) (block : ContentBlock)
  | usage (usage : TokenUsage)
  | finish (reason : FinishReason) (replayState : Option Json)
  deriving DecidableEq

namespace StreamChunk

def tag : StreamChunk → String
  | blockStart .. => "block-start"
  | textDelta .. => "text-delta"
  | reasoningDelta .. => "reasoning-delta"
  | toolCallDelta .. => "tool-call-delta"
  | blockEnd .. => "block-end"
  | usage .. => "usage"
  | finish .. => "finish"

/-- The block a chunk addresses: its index, and the type the chunk takes it to have. -/
def address? : StreamChunk → Option (Number × ContentBlockType)
  | blockStart index blockType => some (index, blockType)
  | textDelta index _ => some (index, .text)
  | reasoningDelta index _ => some (index, .reasoning)
  | toolCallDelta index .. => some (index, .toolCall)
  | blockEnd index block => some (index, block.type)
  | usage _ | finish .. => none

def index? (c : StreamChunk) : Option Number := c.address?.map Prod.fst

def isDelta : StreamChunk → Bool
  | textDelta .. | reasoningDelta .. | toolCallDelta .. => true
  | _ => false

def endBlock? : StreamChunk → Option ContentBlock
  | blockEnd _ block => some block
  | _ => none

end StreamChunk

/-! ## The grammar -/

structure StreamCheck where
  opened : InsertionMap Number ContentBlockType := ∅
  usageSeen : Bool := false
  finished : Bool := false

def printIndex (index : Number) : String := String.ofList (numberText index)

def validateIndex (index : Number) : Except String Unit :=
  match index with
  | .int n =>
    if IsSafe n ∧ 0 ≤ n then .ok ()
    else .error s!"LLM stream block index must be a non-negative safe integer, got {printIndex index}"
  | .frac .. => .error s!"LLM stream block index must be a non-negative safe integer, got {printIndex index}"

/-- Require a delta to address an open block of its matching type. -/
def validateDelta (s : StreamCheck) (index : Number) (expected : ContentBlockType) : Except String Unit := do
  validateIndex index
  let actual := s.opened.lookup index
  if actual ≠ some expected then
    throw (s!"{expected.tag} delta at index {printIndex index} requires an open {expected.tag} block, got "
      ++ (actual.map (·.tag)).getD "undefined")

def FinishReason.interrupts : FinishReason → Bool
  | error _ | aborted _ => true
  | _ => false

def validateChunk (s : StreamCheck) (chunk : StreamChunk) : Except String StreamCheck := do
  if s.finished then throw s!"LLM stream emitted {chunk.tag} after terminal finish"
  match chunk with
  | .blockStart index blockType =>
    validateIndex index
    if (s.opened.lookup index).isSome then
      throw s!"LLM stream repeated block-start index {printIndex index}"
    return { s with opened := s.opened.set index blockType }
  | .textDelta index _ =>
    validateDelta s index .text
    return s
  | .reasoningDelta index _ =>
    validateDelta s index .reasoning
    return s
  | .toolCallDelta index .. =>
    validateDelta s index .toolCall
    return s
  | .blockEnd index block =>
    validateIndex index
    match s.opened.lookup index with
    | none => throw s!"LLM stream block-end index {printIndex index} has no open block"
    | some blockType =>
      if block.type ≠ blockType then
        throw s!"LLM stream block-end index {printIndex index} closes {block.type.tag}, expected {blockType.tag}"
      return { s with opened := s.opened.erase index }
  | .usage _ =>
    if s.usageSeen then throw "LLM stream emitted usage more than once"
    return { s with usageSeen := true }
  | .finish reason _ =>
    if 0 < s.opened.entries.length ∧ ¬ reason.interrupts then
      throw s!"LLM stream finished with {s.opened.entries.length} open block(s)"
    return { s with finished := true }

def validateChunks (s : StreamCheck) : List StreamChunk → Except String StreamCheck
  | [] => .ok s
  | chunk :: rest => do validateChunks (← validateChunk s chunk) rest

def validateStream (chunks : List StreamChunk) : Except String Unit := do
  let s ← validateChunks {} chunks
  if s.finished then return ()
  else throw "LLM stream ended without a terminal finish chunk"

theorem validateChunks_append (s : StreamCheck) (xs ys : List StreamChunk) :
    validateChunks s (xs ++ ys) = validateChunks s xs >>= fun s' => validateChunks s' ys := by
  induction xs generalizing s with
  | nil => rfl
  | cons x xs ih =>
    simp only [List.cons_append, validateChunks]
    cases validateChunk s x with
    | error e => rfl
    | ok s' => exact ih s'

end CocoHarness.Llm
