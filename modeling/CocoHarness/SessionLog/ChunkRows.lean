/-
# CocoHarness.SessionLog.ChunkRows — lossless storage packing of `assistant/chunk` runs.

A provider streams token-sized deltas, so a log holds long runs of near-identical chunk events.  The encoder stores
each run of at least `minRun` same-block deltas as ONE row (`text-chunks`, `reasoning-chunks` or `tool-call-chunks`)
that keeps the first seq, the first time and the gaps; every event whose exact shape it does not recognise is stored
verbatim.

`classify` hands out the recognised event under its whitelisted type (`DeltaEvent`), where the code returns the delta
kind and then reads the same event through a cast.
-/
import CocoHarness.SessionLog.Event

namespace CocoHarness.SessionLog

open Lib Lib.SafeInteger
open SessionEvent (intField intArray)

/-! ## Whitelisted deltas -/

/-- A delta chunk; block boundaries, usage and finish chunks never pack. -/
inductive DeltaChunk where
  | textDelta (text : String)
  | reasoningDelta (text : String)
  | toolCallDelta (id : String) (name : Option String) (argumentsDelta : String)
  deriving DecidableEq

namespace DeltaChunk

def fragment : DeltaChunk → String
  | textDelta text => text
  | reasoningDelta text => text
  | toolCallDelta _ _ argumentsDelta => argumentsDelta

def toJson (index : Number) : DeltaChunk → Json
  | textDelta text => .obj [("type", .str "text-delta"), ("index", .num index), ("text", .str text)]
  | reasoningDelta text => .obj [("type", .str "reasoning-delta"), ("index", .num index), ("text", .str text)]
  | toolCallDelta id name argumentsDelta =>
    .obj ([("type", .str "tool-call-delta"), ("index", .num index), ("id", .str id)]
      ++ (match name with | some n => [("name", .str n)] | none => [])
      ++ [("argumentsDelta", .str argumentsDelta)])

end DeltaChunk

/-- A run member: an `assistant/chunk` event whose exact shape the encoder whitelisted. -/
structure DeltaEvent where
  seq : Int
  time : Int
  turn : Number
  step : Number
  index : Number
  chunk : DeltaChunk
  deriving DecidableEq

def DeltaEvent.toEvent (d : DeltaEvent) : SessionEvent where
  type := "assistant/chunk"
  seq := d.seq
  time := d.time
  data := .obj [("turn", .num d.turn), ("step", .num d.step), ("chunk", d.chunk.toJson d.index)]

/-- Exact-key check. An array's own keys are its indices, never the names asked for here. -/
def hasExactKeys (value : Json) (keys : List String) : Bool :=
  match value with
  | .obj fields => fields.length == keys.length && keys.all fun k => (Json.keys fields).contains k
  | _ => false

def classifyChunk (chunk : Json) : Option (Number × DeltaChunk) := do
  let index ← (← chunk.get? "index").num?
  match chunk.get? "type" with
  | some (.str "text-delta") =>
    if hasExactKeys chunk ["type", "index", "text"] then
      return (index, .textDelta (← (← chunk.get? "text").str?))
    else none
  | some (.str "reasoning-delta") =>
    if hasExactKeys chunk ["type", "index", "text"] then
      return (index, .reasoningDelta (← (← chunk.get? "text").str?))
    else none
  | some (.str "tool-call-delta") =>
    if hasExactKeys chunk ["type", "index", "id", "argumentsDelta"] then
      return (index, .toolCallDelta (← (← chunk.get? "id").str?) none (← (← chunk.get? "argumentsDelta").str?))
    else if hasExactKeys chunk ["type", "index", "id", "name", "argumentsDelta"] then
      return (index, .toolCallDelta (← (← chunk.get? "id").str?) (← (← chunk.get? "name").str?)
        (← (← chunk.get? "argumentsDelta").str?))
    else none
  | _ => none

/-- The delta of an event whose entire shape is whitelisted, else `none` (store verbatim). -/
def classify (event : SessionEvent) : Option DeltaEvent := do
  guard (event.type = "assistant/chunk")
  guard (hasExactKeys event.toJson ["type", "seq", "time", "data"])
  guard (IsSafe event.seq ∧ 0 ≤ event.seq ∧ IsSafe event.time)
  guard (hasExactKeys event.data ["turn", "step", "chunk"])
  let turn ← (← event.data.get? "turn").num?
  let step ← (← event.data.get? "step").num?
  let (index, chunk) ← classifyChunk (← event.data.get? "chunk")
  return { seq := event.seq, time := event.time, turn, step, index, chunk }

/-- Whether two deltas are of one kind and, for tool calls, of one call. -/
def sameBlock : DeltaChunk → DeltaChunk → Bool
  | .textDelta _, .textDelta _ => true
  | .reasoningDelta _, .reasoningDelta _ => true
  -- `name` must match in presence AND value: a mixed run is not representable
  | .toolCallDelta id name _, .toolCallDelta id' name' _ => id == id' && name == name'
  | _, _ => false

/-- Whether `next` extends a run ending in `prev`; the gap itself must be safe. -/
def continues (prev next : DeltaEvent) : Bool :=
  next.seq == fadd prev.seq 1 && decide (IsSafe (fsub next.time prev.time))
    && next.turn == prev.turn && next.step == prev.step && next.index == prev.index
    && sameBlock prev.chunk next.chunk

/-! ## Rows -/

def minRun : Nat := 3

/-- What the members of a row differ in, and the call identity they share. -/
inductive RowPayload where
  | text (texts : List String)
  | reasoning (texts : List String)
  | toolCall (id : String) (name : Option String) (args : List String)
  deriving DecidableEq

namespace RowPayload

def tag : RowPayload → String
  | text _ => "text-chunks"
  | reasoning _ => "reasoning-chunks"
  | toolCall .. => "tool-call-chunks"

def members : RowPayload → List String
  | text texts => texts
  | reasoning texts => texts
  | toolCall _ _ args => args

def chunk : RowPayload → String → DeltaChunk
  | text _, member => .textDelta member
  | reasoning _, member => .reasoningDelta member
  | toolCall id name _, member => .toolCallDelta id name member

def ofRun (first : DeltaChunk) (members : List String) : RowPayload :=
  match first with
  | .textDelta _ => text members
  | .reasoningDelta _ => reasoning members
  | .toolCallDelta id name _ => toolCall id name members

end RowPayload

/-- Placement, block correlation, and the gaps between member times. -/
structure RunDataBase where
  turn : Number
  step : Number
  index : Number
  dt : List Int
  deriving DecidableEq

/-- A packed run: member `k` has seq `seq0 + k` and time `time0` plus the first `k` gaps. -/
structure ChunkRow extends RunDataBase where
  seq0 : Int
  time0 : Int
  payload : RowPayload
  deriving DecidableEq

def strArray (xs : List String) : Json := .arr (xs.map .str)

namespace ChunkRow

def dataJson (row : ChunkRow) : Json :=
  .obj ([("turn", .num row.turn), ("step", .num row.step), ("index", .num row.index), ("dt", intArray row.dt)]
    ++ match row.payload with
      | .text texts => [("texts", strArray texts)]
      | .reasoning texts => [("texts", strArray texts)]
      | .toolCall id name args =>
        [("id", .str id)] ++ (match name with | some n => [("name", .str n)] | none => [])
          ++ [("args", strArray args)])

def toJson (row : ChunkRow) : Json :=
  .obj [("type", .str row.payload.tag), ("seq0", intField row.seq0), ("time0", intField row.time0),
    ("data", row.dataJson)]

end ChunkRow

/-- One durable record: a session event verbatim, or a packed row. -/
inductive StorageRecord where
  | event (e : SessionEvent)
  | row (r : ChunkRow)
  deriving DecidableEq

def StorageRecord.toJson : StorageRecord → Json
  | event e => e.toJson
  | row r => r.toJson

def timeGaps : DeltaEvent → List DeltaEvent → List Int
  | _, [] => []
  | prev, next :: rest => fsub next.time prev.time :: timeGaps next rest

def buildRow (first : DeltaEvent) (rest : List DeltaEvent) : ChunkRow where
  seq0 := first.seq
  time0 := first.time
  turn := first.turn
  step := first.step
  index := first.index
  dt := timeGaps first rest
  payload := .ofRun first.chunk ((first :: rest).map (·.chunk.fragment))

/-! ## The encoder -/

/-- The records so far and the open run, with the events of its members. -/
structure PackState where
  out : List StorageRecord := []
  run : List (SessionEvent × DeltaEvent) := []

namespace PackState

/-- Close the open run: a row when it is long enough, its events verbatim otherwise. -/
def flush (s : PackState) : PackState where
  out := s.out ++
    match s.run with
    | first :: rest =>
      if minRun ≤ s.run.length then [.row (buildRow first.2 (rest.map Prod.snd))]
      else s.run.map (.event ·.1)
    | [] => []
  run := []

def step (s : PackState) (event : SessionEvent) : PackState :=
  match classify event with
  | none => { out := s.flush.out ++ [.event event], run := [] }
  | some delta =>
    match s.run.getLast? with
    | some last =>
      if continues last.2 delta then { s with run := s.run ++ [(event, delta)] }
      else { out := s.flush.out, run := [(event, delta)] }
    | none => { out := s.flush.out, run := [(event, delta)] }

end PackState

/-- Each run of at least `minRun` consecutive same-block deltas becomes one row; every other event passes through. -/
def packChunkRuns (events : List SessionEvent) : List StorageRecord := (events.foldl PackState.step {}).flush.out

/-! ## The decoder -/

def malformed {α : Type} (tag why : String) : Except JsError α :=
  .error (.error s!"malformed {tag} storage row: {why}")

/-- The fields of a value as an array whose elements all pass `read`. -/
def arrayOf? {α : Type} (read : Json → Option α) (v : Json) : Option (List α) := v.arr?.bind (·.mapM read)

/-- Validate the shared run-data fields and the payload/dt arity. -/
def validateRunData (tag : String) (data : Json) (payloadKey : String) :
    Except JsError (RunDataBase × List String) := do
  let some turn := (data.get? "turn").bind Json.num?
    | malformed tag "turn/step/index must be numbers"
  let some step := (data.get? "step").bind Json.num?
    | malformed tag "turn/step/index must be numbers"
  let some index := (data.get? "index").bind Json.num?
    | malformed tag "turn/step/index must be numbers"
  let some payload := ((data.get? payloadKey).bind (arrayOf? Json.str?)).filter (!·.isEmpty)
    | malformed tag s!"{payloadKey} must be a non-empty string array"
  let some dt := (data.get? "dt").bind (arrayOf? safeInt?)
    | malformed tag "dt must be an array of safe integers"
  if (dt.length : Int) ≠ payload.length - 1 then
    malformed tag s!"dt length {dt.length} does not match {payload.length} members"
  else return ({ turn, step, index, dt }, payload)

def validateRowData (tag : String) (data : Json) : Except JsError (RunDataBase × RowPayload) :=
  if tag = "tool-call-chunks" then do
    let withName := hasExactKeys data ["turn", "step", "index", "id", "name", "dt", "args"]
    if ¬ withName ∧ ¬ hasExactKeys data ["turn", "step", "index", "id", "dt", "args"] then
      malformed tag "data must be exactly \x7bturn, step, index, id, name?, dt, args\x7d"
    else
      let some id := (data.get? "id").bind Json.str?
        | malformed tag "id (and name when present) must be strings"
      let name := (data.get? "name").bind Json.str?
      if withName ∧ name.isNone then malformed tag "id (and name when present) must be strings"
      else
        let (base, args) ← validateRunData tag data "args"
        return (base, .toolCall id name args)
  else do
    if ¬ hasExactKeys data ["turn", "step", "index", "dt", "texts"] then
      malformed tag "data must be exactly \x7bturn, step, index, dt, texts\x7d"
    else
      let (base, texts) ← validateRunData tag data "texts"
      return (base, if tag = "text-chunks" then .text texts else .reasoning texts)

def timesSafe (time : Int) : List Int → Bool
  | [] => true
  | gap :: rest => decide (IsSafe (fadd time gap)) && timesSafe (fadd time gap) rest

def validateRow (value : Json) (tag : String) : Except JsError ChunkRow := do
  if ¬ hasExactKeys value ["type", "seq0", "time0", "data"] then
    malformed tag "envelope must be exactly \x7btype, seq0, time0, data\x7d"
  else
    let some seq0 := ((value.get? "seq0").bind safeInt?).filter (0 ≤ ·)
      | malformed tag "seq0 must be a non-negative safe integer"
    let some time0 := (value.get? "time0").bind safeInt?
      | malformed tag "time0 must be a safe integer"
    let some data := (value.get? "data").filter fun v => v.obj?.isSome || v.arr?.isSome
      | malformed tag "data must be an object"
    let (base, payload) ← validateRowData tag data
    -- reconstruction bounds: a running value that leaves the safe range is outside any encoder's
    -- image, and double arithmetic would round it silently
    if ¬ IsSafe (fsub (fadd seq0 payload.members.length) 1) then
      malformed tag "member seqs must stay safe integers"
    else if ¬ timesSafe time0 base.dt then
      malformed tag "member times must stay safe integers"
    else return { base with seq0, time0, payload }

/-- The members from number `k` on, the first of them at `time`. -/
def expandMembers (row : ChunkRow) (k : Nat) (time : Int) : List String → List Int → List DeltaEvent
  | [], _ => []
  | member :: members, dt =>
    { seq := fadd row.seq0 k, time, turn := row.turn, step := row.step, index := row.index,
      chunk := row.payload.chunk member } ::
    match dt with
    | gap :: gaps => expandMembers row (k + 1) (fadd time gap) members gaps
    | [] => []  -- unreachable after the arity check: the last member has no gap

/-- Expand a validated row back into its exact original events, in order. -/
def expandRow (row : ChunkRow) : List SessionEvent :=
  (expandMembers row 0 row.time0 row.payload.members row.dt).map DeltaEvent.toEvent

def IsRowTag (tag : String) : Prop := tag = "text-chunks" ∨ tag = "reasoning-chunks" ∨ tag = "tool-call-chunks"

instance (tag : String) : Decidable (IsRowTag tag) := inferInstanceAs (Decidable (_ ∨ _))

/-- A row validates and expands, every other value passes through, unvalidated. -/
def decodeStorageRecord (value : Json) : Except JsError (List Json) :=
  match (value.get? "type").bind Json.str? with
  | some tag =>
    if IsRowTag tag then do
      let row ← validateRow value tag
      return (expandRow row).map SessionEvent.toJson
    else return [value]
  | none => return [value]

def decodeRecords : List Json → Except JsError (List Json)
  | [] => return []
  | value :: values => do
    let events ← decodeStorageRecord value
    let rest ← decodeRecords values
    return events ++ rest

end CocoHarness.SessionLog
