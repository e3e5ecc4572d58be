/-
# CocoHarness.Persistence.JsonlFormat — the JSONL log format and its scanner.

A log file is a header line followed by one line per storage record.  `SessionLogScanner` reads the
lines as they become complete, keeps the contiguous prefix of their events, and remembers where it
ends: a line that does not decode, or that breaks the numbering, ends the prefix for good, and a
completed turn behind such a line is proof of corruption.
-/
import CocoHarness.Persistence.Header
import CocoHarness.SessionLog.ChunkRows

namespace CocoHarness.Persistence

open Lib Lib.SafeInteger SessionLog

/-! ## Writing -/

def storageRecords (packChunks : Bool) (events : List SessionEvent) : List StorageRecord :=
  if packChunks then packChunkRuns events else events.map .event

/-- Serialize an event batch as JSONL lines, without the final newline. -/
def eventLines (events : List SessionEvent) (packChunks : Bool) : List Char :=
  List.intercalate ['\n'] ((storageRecords packChunks events).map fun r => JsonText.text r.toJson)

def encodeEventBatch (packChunks : Bool) (events : List SessionEvent) : List UInt8 :=
  Utf8.encode (eventLines events packChunks ++ ['\n'])

/-- The bytes of a log: its header line and its batches, each with its own packing switch. -/
def logFile (header : SessionHeader) (batches : List (Bool × List SessionEvent)) : List UInt8 :=
  headerRecord header ++ batches.flatMap fun b => encodeEventBatch b.1 b.2

/-! ## Scanning -/

structure SessionLogScan where
  header : Json
  events : List Json
  committedBytes : Nat
  deriving DecidableEq

structure SessionLogScanner where
  header : Json
  events : List Json := []
  /-- The fragments of the line that is not complete yet. -/
  fragments : List UInt8 := []
  inputBytes : Nat
  committedBytes : Nat
  eventLine : Nat := 0
  issue : Option String := none
  finished : Bool := false
  deriving DecidableEq

namespace SessionLogScanner

def new (headerRecord : List UInt8) : Except JsError SessionLogScanner := do
  let header ← parseHeaderRecord headerRecord
  return { header, inputBytes := headerRecord.length, committedBytes := headerRecord.length }

/-- Decode the events of one complete line; `none` when that throws. -/
def decodeLine (line : List UInt8) : Option (List Json) :=
  (JsonText.parse (Utf8.decode line)).bind fun value => (decodeStorageRecord value).toOption

/-- Whether some event ends a turn; reading the type of `null` throws. -/
def someTurnEnd : List Json → Except JsError Bool
  | [] => .ok false
  | event :: rest => do
    if (← jsGet (some event) "type") = some (.str "turn/end") then return true
    else someTurnEnd rest

/-- The first event that does not continue the numbering: the expected seq, and its own. -/
def seqGap (expected : Nat) : List Json → Except JsError (Option (Nat × Option Json))
  | [] => .ok none
  | event :: rest => do
    let seq ← jsGet (some event) "seq"
    if seq ≠ some (SessionEvent.intField expected) then return some (expected, seq)
    else seqGap (expected + 1) rest

/-- Decode one complete event row and update the contiguous prefix. -/
def consumeEventLine (s : SessionLogScanner) (line : List UInt8) (endByte : Nat) : Except JsError SessionLogScanner :=
  let s := { s with eventLine := s.eventLine + 1 }
  match decodeLine line with
  | none =>
    let unparsable := s!"corrupt session log: unparsable committed event at line {s.eventLine}"
    .ok { s with issue := some (s.issue.getD unparsable) }
  | some decoded =>
    match s.issue with
    | some issue => do
      if ← someTurnEnd decoded then throw (.error issue)
      else return s
    | none => do
      match ← seqGap s.events.length decoded with
      | some (expected, got) =>
        let text ← stringOf got
        let issue := s!"corrupt session log: seq gap in committed region at line {s.eventLine} "
          ++ s!"(expected {expected}, got {text})"
        if ← someTurnEnd decoded then throw (.error issue)
        else return { s with issue := some issue }
      | none => return { s with events := s.events ++ decoded, committedBytes := endByte }

/-- Consume the lines a chunk completes, the first of which starts at `offset`. -/
def writeLines (s : SessionLogScanner) (offset : Nat) : List (List UInt8) → Except JsError SessionLogScanner
  | [] => .ok s
  | fragment :: rest => do
    let endByte := offset + fragment.length + 1
    let s ← { s with fragments := [] }.consumeEventLine (s.fragments ++ fragment) endByte
    s.writeLines endByte rest

/-- Consume the next raw chunk, retaining only an incomplete final record. -/
def write (s : SessionLogScanner) (chunk : List UInt8) : Except JsError SessionLogScanner :=
  if s.finished then .error (.error "cannot write to a finished session log scanner")
  else do
    let chunkStart := s.inputBytes
    let (lines, rest) := Lines.cut Utf8.newline chunk
    let s ← { s with inputBytes := s.inputBytes + chunk.length }.writeLines chunkStart lines
    return { s with fragments := s.fragments ++ rest }

/-- Finish scanning, ignoring a final record without a newline as a torn tail. -/
def finish (s : SessionLogScanner) : SessionLogScanner × SessionLogScan :=
  ({ s with finished := true }, { header := s.header, events := s.events, committedBytes := s.committedBytes })

end SessionLogScanner

/-- Parse a complete or torn JSONL buffer into its preserved event prefix. -/
def scanLog (buffer : List UInt8) : Except JsError SessionLogScan :=
  match Lines.first? Utf8.newline buffer with
  | none => .error (.error "empty or header-less session log")
  | some (header, rest) => do
    let scanner ← SessionLogScanner.new (header ++ [Utf8.newline])
    let scanner ← scanner.write rest
    return scanner.finish.2

end CocoHarness.Persistence
