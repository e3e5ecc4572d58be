/-
# CocoHarness.Files.ReadWindow — the bounded window of a text file.

`buildWindow` scans decoded text chunk by chunk.  It keeps at most one unit more of the current line than it may
show, hands every finished line to `consumeLine`, and goes on counting lines after the window is full or the byte cap
was hit.
-/
import CocoHarness.Lib.TextBytes

namespace CocoHarness.Files

open CocoHarness.Lib.Utf16

abbrev Text := List Unit16

def newline : Unit16 := 10

def carriageReturn : Unit16 := 13

/-- Resolved read window.  The consumer applies its defaults and caps before calling. -/
structure ReadWindow where
  /-- 1-based first line to return. -/
  offset : Nat
  /-- Maximum number of lines to return. -/
  limit : Nat
  /-- Maximum characters returned for a single line. -/
  maxLineLength : Nat
  /-- Maximum bytes of selected output. -/
  maxBytes : Nat
deriving DecidableEq

structure FileTextLine where
  /-- 1-based line number in the file. -/
  number : Nat
  text : Text
deriving DecidableEq, Repr

structure WindowResult where
  lines : List FileTextLine
  /-- Exact total line count in the file. -/
  totalLines : Nat
  /-- Whether selected output hit the byte cap. -/
  truncatedByBytes : Bool
deriving DecidableEq, Repr

inductive FsErrorCode where
  | notFound
deriving DecidableEq, Repr

structure FsError where
  message : Text
  code : FsErrorCode
deriving DecidableEq, Repr

/-! ## Lines -/

structure WindowAccumulator where
  lines : List FileTextLine
  totalLines : Nat
  outputBytes : Nat
  truncatedByBytes : Bool
deriving DecidableEq

def newAccumulator : WindowAccumulator :=
  { lines := [], totalLines := 0, outputBytes := 0, truncatedByBytes := false }

def truncationMark (maxLineLength : Nat) : Text := text s!"... (line truncated to {maxLineLength} chars)"

def truncateLine (line : Text) (maxLineLength : Nat) : Text :=
  if maxLineLength < line.length then line.take maxLineLength ++ truncationMark maxLineLength
  else line

def lineByteSize (line : Text) (currentLineCount : Nat) : Nat :=
  byteLength line + (if 0 < currentLineCount then 1 else 0)

def consumeLine (request : ReadWindow) (acc : WindowAccumulator) (rawLine : Text) : WindowAccumulator :=
  let acc := { acc with totalLines := acc.totalLines + 1 }
  if acc.truncatedByBytes || decide (acc.totalLines < request.offset)
      || decide (request.limit ≤ acc.lines.length) then acc
  else
    let line := truncateLine rawLine request.maxLineLength
    let bytes := lineByteSize line acc.lines.length
    if request.maxBytes < acc.outputBytes + bytes then { acc with truncatedByBytes := true }
    else
      { acc with
        outputBytes := acc.outputBytes + bytes
        lines := acc.lines ++ [{ number := acc.totalLines, text := line }] }

def stripCarriageReturn (line : Text) : Text := if line.getLast? = some carriageReturn then line.dropLast else line

def outOfRange (offset totalLines : Nat) (displayPath : Text) : FsError :=
  { message := text s!"offset {offset} is out of range for \"" ++ displayPath ++ text s!"\" ({totalLines} lines)"
    code := .notFound }

def finish (acc : WindowAccumulator) (request : ReadWindow) (displayPath : Text) :
    Except FsError WindowResult :=
  if !acc.truncatedByBytes && decide (acc.totalLines < request.offset)
      && !(acc.totalLines == 0 && request.offset == 1) then
    .error (outOfRange request.offset acc.totalLines displayPath)
  else
    .ok { lines := acc.lines, totalLines := acc.totalLines
          truncatedByBytes := acc.truncatedByBytes }

/-! ## The scan -/

structure Scan where
  acc : WindowAccumulator
  lineBuffer : Text
deriving DecidableEq

/-- One unit past the truncation point is enough to prove a line overflows. -/
def lineBufferCap (request : ReadWindow) : Nat := request.maxLineLength + 1

def appendToLineBuffer (request : ReadWindow) (segment : Text) (s : Scan) : Scan :=
  if lineBufferCap request ≤ s.lineBuffer.length then s
  else
    let lineBuffer := s.lineBuffer ++ segment
    { s with
      lineBuffer := if lineBufferCap request < lineBuffer.length
        then lineBuffer.take (lineBufferCap request) else lineBuffer }

def flushLine (request : ReadWindow) (s : Scan) : Scan :=
  { acc := consumeLine request s.acc (stripCarriageReturn s.lineBuffer), lineBuffer := [] }

/-- The loop over one chunk; `rest` is the chunk from `startPos` on. -/
def scanChunk (request : ReadWindow) (rest : Text) (s : Scan) : Scan :=
  match h : rest.findIdx? (· == newline) with
  | none => appendToLineBuffer request rest s
  | some newlinePos =>
    scanChunk request (rest.drop (newlinePos + 1))
      (flushLine request (appendToLineBuffer request (rest.take newlinePos) s))
termination_by rest.length
decreasing_by
  have hlt : newlinePos < rest.length := (List.findIdx?_eq_some_iff_getElem.mp h).1
  rw [List.length_drop]
  omega

def buildWindow (chunks : List Text) (request : ReadWindow) (displayPath : Text) : Except FsError WindowResult :=
  let s := chunks.foldl (fun s chunk => scanChunk request chunk s)
    { acc := newAccumulator, lineBuffer := [] }
  let s := if 0 < s.lineBuffer.length then flushLine request s else s
  finish s.acc request displayPath

/-! ## Presentation -/

structure FileReadOutcome where
  /-- 1-based first line requested. -/
  offset : Nat
  lines : List FileTextLine
  totalLines : Nat
  truncatedByBytes : Bool
deriving DecidableEq

def FileReadOutcome.endLine (outcome : FileReadOutcome) : Nat :=
  match outcome.lines.getLast? with
  | some line => line.number
  | none => outcome.offset - 1

inductive Footer where
  /-- `(Output capped. Showing lines o-e. Use offset=e+1 to continue.)` -/
  | capped (offset endLine : Nat)
  /-- `(Showing lines o-e of t. Use offset=e+1 to continue.)` -/
  | showing (offset endLine totalLines : Nat)
  /-- `(End of file - total t lines)` -/
  | endOfFile (totalLines : Nat)
deriving DecidableEq, Repr

def Footer.nextOffset : Footer → Option Nat
  | .capped _ endLine => some (endLine + 1)
  | .showing _ endLine _ => some (endLine + 1)
  | .endOfFile _ => none

def Footer.text : Footer → Text
  | .capped offset endLine => Lib.Utf16.text
    s!"(Output capped. Showing lines {offset}-{endLine}. Use offset={endLine + 1} to continue.)"
  | .showing offset endLine totalLines => Lib.Utf16.text
    s!"(Showing lines {offset}-{endLine} of {totalLines}. Use offset={endLine + 1} to continue.)"
  | .endOfFile totalLines => Lib.Utf16.text s!"(End of file - total {totalLines} lines)"

def footerOf (outcome : FileReadOutcome) : Footer :=
  if outcome.truncatedByBytes then .capped outcome.offset outcome.endLine
  else if outcome.endLine < outcome.totalLines then
    .showing outcome.offset outcome.endLine outcome.totalLines
  else .endOfFile outcome.totalLines

def formatReadOutput (displayPath : Text) (outcome : FileReadOutcome) : Text :=
  let footer := (footerOf outcome).text
  let body :=
    if 0 < outcome.lines.length then
      List.intercalate [newline]
        (outcome.lines.map fun line => text s!"{line.number}: " ++ line.text)
        ++ [newline, newline] ++ footer
    else footer
  text "<path>" ++ displayPath ++ text "</path>\n<type>file</type>\n<content>\n" ++ body ++ text "\n</content>"

end CocoHarness.Files
