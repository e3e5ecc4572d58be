/-
# CocoHarness.OutputRetention.TextRetainer — bounded output of a text stream.

The retainer takes the bytes of a stream chunk by chunk, and keeps those of a prefix, of a suffix, or of both.
At the end each side is trimmed to whole characters and decoded.  The decoder drops a byte order mark at the
head of each buffer it is given.
-/
import CocoHarness.Lib.ArraySplice
import CocoHarness.Lib.Fallible
import CocoHarness.Lib.Utf8Cut
import CocoHarness.SessionLog.JsonValue

namespace CocoHarness.OutputRetention

open Lib Lib.Utf8 SessionLog

/-! ## Data -/

inductive Omitted where
  | none
  | exact (count : Nat)
  deriving DecidableEq

structure PushDecision where
  kept : Bool
  truncated : Bool
  deriving DecidableEq

structure RetainedText where
  text : List Char
  truncated : Bool
  omittedBytes : Omitted
  deriving DecidableEq

inductive TextRetentionStrategy where
  | head (maxBytes : JsNumber)
  | tail (maxBytes : JsNumber)
  | headTail (headBytes tailBytes : JsNumber)

inductive Chunk where
  | bytes (bytes : List UInt8)
  | text (text : List Char)

def Chunk.encoded : Chunk → List UInt8
  | .bytes given => given
  | .text given => encode given

def byteOrderMark : Char := Char.ofNat 0xFEFF

def withoutMark : List Char → List Char
  | [] => []
  | c :: rest => if c = byteOrderMark then rest else c :: rest

variable (bytes : List UInt8)

/-- `new TextDecoder().decode(bytes)`: a byte order mark at the head is no part of the text. -/
def decodeText : List Char := withoutMark (decode bytes)

def assertBudget (value : JsNumber) (name : String) : Except JsError Nat :=
  match value with
  | .negZero => .ok 0
  | .finite (.int (.ofNat n)) => .ok n
  | _ => .error (.error s!"{name} must be a non-negative integer")

/-! ## Trimming -/

/-- The walk back over continuation bytes, at most 3: one more than where it stops. -/
def scanBack (bytes : List UInt8) : Nat → Nat
  | 0 => 0
  | i + 1 => if isContinuation (bytes.getD i 0) ∧ bytes.length - i ≤ 3 then scanBack bytes i else i + 1

def trimTrailingPartialUtf8 : List UInt8 :=
  match scanBack bytes bytes.length with
  | 0 => bytes
  | i + 1 =>
    let expected := sequenceLength (bytes.getD i 0)
    -- not a lead byte: leave it
    if expected = 0 then bytes
    else if bytes.length - i < expected then bytes.take i
    else bytes

def trimLeadingContinuationUtf8 : List UInt8 := bytes.dropWhile isContinuation

/-! ## The retainer -/

structure TextRetainer where
  prefixCap : Nat
  suffixCap : Nat
  prefixChunks : List (List UInt8) := []
  prefixHeld : Nat := 0
  suffixChunks : List (List UInt8) := []
  suffixHeld : Nat := 0
  total : Nat := 0

def pruneChunks (suffixCap : Nat) : List (List UInt8) → Nat → List (List UInt8) × Nat
  | [], held => ([], held)
  | head :: rest, held =>
    if held - head.length ≥ suffixCap then pruneChunks suffixCap rest (held - head.length)
    else (head :: rest, held)

/-- Trim the leading bytes beyond the window from the first chunk. -/
def trimHead (suffixCap : Nat) : List (List UInt8) × Nat → List (List UInt8) × Nat
  | (head :: rest, held) =>
    if held > suffixCap then (head.drop (held - suffixCap) :: rest, suffixCap) else (head :: rest, held)
  | ([], held) => ([], held)

namespace TextRetainer

def create : TextRetentionStrategy → Except JsError TextRetainer
  | .head maxBytes => do
    return { prefixCap := ← assertBudget maxBytes "maxBytes", suffixCap := 0 }
  | .tail maxBytes => do
    return { prefixCap := 0, suffixCap := ← assertBudget maxBytes "maxBytes" }
  | .headTail headBytes tailBytes => do
    let prefixCap ← assertBudget headBytes "headBytes"
    let suffixCap ← assertBudget tailBytes "tailBytes"
    return { prefixCap, suffixCap }

variable (r : TextRetainer)

def omittedAt (total : Nat) : Nat :=
  let prefixLen := min total r.prefixCap
  let suffixLen := min (total - prefixLen) r.suffixCap
  total - prefixLen - suffixLen

def pushPrefix (bytes : List UInt8) : TextRetainer :=
  let take := min (r.prefixCap - r.prefixHeld) bytes.length
  if take > 0 then
    { r with
      prefixChunks := r.prefixChunks ++ [bytes.take take]
      prefixHeld := r.prefixHeld + take }
  else r

/-- Append to the suffix, and let go of what has slid out of it. -/
def pushSuffix (bytes : List UInt8) : TextRetainer :=
  if r.suffixCap > 0 then
    let (suffixChunks, suffixHeld) := trimHead r.suffixCap
      (pruneChunks r.suffixCap (r.suffixChunks ++ [bytes]) (r.suffixHeld + bytes.length))
    { r with suffixChunks, suffixHeld }
  else r

def push (chunk : Chunk) : TextRetainer × PushDecision :=
  let bytes := chunk.encoded
  let before := r.total
  let r := ({ r with total := r.total + bytes.length }.pushPrefix bytes).pushSuffix bytes
  (r, { kept := !decide (r.omittedAt r.total > r.omittedAt before)
        truncated := decide (r.omittedAt r.total > 0) })

/-- Decode what is kept, and report the exact number of bytes omitted. -/
def finish : RetainedText :=
  let prefixLen := min r.total r.prefixCap
  let suffixLen := min (r.total - prefixLen) r.suffixCap
  let front := r.prefixChunks.flatten
  let back := r.suffixChunks.flatten.drop (r.suffixHeld - suffixLen)
  let budgetOmitted := r.omittedAt r.total
  let (keptPrefix, keptSuffix) :=
    if budgetOmitted > 0 then (trimTrailingPartialUtf8 front, trimLeadingContinuationUtf8 back)
    else (front, back)
  let text :=
    if budgetOmitted > 0 then decodeText keptPrefix ++ decodeText keptSuffix
    else decodeText (front ++ back)
  let omitted := r.total - keptPrefix.length - keptSuffix.length
  { text
    truncated := decide (omitted > 0)
    omittedBytes := if omitted > 0 then .exact omitted else .none }

def pushAll (chunks : List Chunk) : TextRetainer :=
  chunks.foldl (fun r chunk => (r.push chunk).1) r

end TextRetainer

end CocoHarness.OutputRetention
