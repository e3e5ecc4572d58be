/-
# CocoHarness.Persistence.ZstdFrames — the frame container of a compressed session log.

A compressed log is a concatenation of Zstandard frames, one per durable append.  `scanZstdFrames` finds the frames
without decompressing them: it walks the header fields, the block headers and the checksum, and treats a frame that
the file ends inside as torn.
-/
import CocoHarness.Lib.ByteFields
import CocoHarness.Lib.Fallible

namespace CocoHarness.Persistence

open Lib Lib.ByteFields

/-! ## The scan -/

def zstdMagic : Nat := 0xFD2FB528

inductive ZstdScanError where
  | invalidMagic (byte : Nat)
  | reservedHeaderBit (byte : Nat)
  | reservedBlockType (byte : Nat)
  /-- The engine's `RangeError` for a read past the end of the buffer. -/
  | outOfRange
  deriving DecidableEq

def ZstdScanError.message : ZstdScanError → String
  | invalidMagic byte => s!"corrupt Zstandard session log: invalid frame magic at byte {byte}"
  | reservedHeaderBit byte => s!"corrupt Zstandard session log: reserved frame-header bit at byte {byte}"
  | reservedBlockType byte => s!"corrupt Zstandard session log: reserved block type at byte {byte}"
  | outOfRange => "The value of \"offset\" is out of range."

structure ZstdFrameRange where
  /-- Inclusive frame start. -/
  start : Nat
  /-- Exclusive frame end. -/
  stop : Nat
  deriving DecidableEq

structure ZstdFrameScan where
  /-- Complete frames in file order. -/
  frames : List ZstdFrameRange
  /-- Start of an incomplete final frame, when the file ends inside one. -/
  tornStart : Option Nat := none
  deriving DecidableEq

def read (buffer : List UInt8) (offset width : Nat) : Except ZstdScanError Nat :=
  readUIntLE .outOfRange buffer offset width

def remainingHeaderBytes (descriptor : Nat) : Nat :=
  let contentSizeFlag := descriptor >>> 6
  let singleSegment := descriptor &&& 0x20 ≠ 0
  let dictionaryFlag := descriptor &&& 0x03
  let dictionaryBytes := if dictionaryFlag = 3 then 4 else dictionaryFlag
  let contentSizeBytes := if contentSizeFlag = 0 then (if singleSegment then 1 else 0) else 1 <<< contentSizeFlag
  (if singleSegment then 0 else 1) + dictionaryBytes + contentSizeBytes

def blockPayloadBytes (blockHeader : Nat) : Nat :=
  if (blockHeader >>> 1) &&& 0x03 = 0x01 then 1 else blockHeader >>> 3

/-- Where the last block of a frame ends, or `none` when the file ends first. -/
def scanBlocks (buffer : List UInt8) (offset : Nat) : Except ZstdScanError (Option Nat) :=
  if _h : buffer.length - offset < 3 then .ok none
  else do
    let blockHeader ← read buffer offset 3
    if (blockHeader >>> 1) &&& 0x03 = 0x03 then throw (.reservedBlockType offset)
    else if buffer.length - (offset + 3) < blockPayloadBytes blockHeader then return none
    else if blockHeader &&& 1 ≠ 0 then return some (offset + 3 + blockPayloadBytes blockHeader)
    else scanBlocks buffer (offset + 3 + blockPayloadBytes blockHeader)
  termination_by buffer.length - offset

/-- One frame at `start`: where it ends, or `none` when the file ends first. -/
def scanFrame (buffer : List UInt8) (start : Nat) : Except ZstdScanError (Option Nat) :=
  if buffer.length - start < 4 then .ok none
  else do
    let magic ← read buffer start 4
    if magic ≠ zstdMagic then throw (.invalidMagic start)
    else if start + 4 = buffer.length then return none
    else
      let descriptor ← read buffer (start + 4) 1
      if descriptor &&& 0x18 ≠ 0 then throw (.reservedHeaderBit (start + 4))
      else if buffer.length - (start + 5) < remainingHeaderBytes descriptor then return none
      else
        match ← scanBlocks buffer (start + 5 + remainingHeaderBytes descriptor) with
        | none => return none
        | some offset =>
          if descriptor &&& 0x04 ≠ 0 then
            if buffer.length - offset < 4 then return none
            else return some (offset + 4)
          else return some offset

/-! ## Progress -/

variable {buffer : List UInt8} {offset : Nat}

/-- The blocks end behind their start and inside the buffer; no read leaves the buffer. -/
theorem scanBlocks_inside (h : offset ≤ buffer.length) : scanBlocks buffer offset ≠ .error .outOfRange ∧
      ∀ stop, scanBlocks buffer offset = .ok (some stop) → offset < stop ∧ stop ≤ buffer.length := by
  induction offset using scanBlocks.induct buffer with
  | case1 offset hshort =>
    rw [scanBlocks, dif_pos hshort]
    exact ⟨nofun, nofun⟩
  | case2 offset hlong ih =>
    obtain ⟨blockHeader, hread⟩ := readUIntLE_ok ZstdScanError.outOfRange (show offset + 3 ≤ buffer.length by omega)
    rw [scanBlocks, dif_neg hlong, read, hread, ok_bind]
    split
    · exact ⟨nofun, nofun⟩
    · next htype =>
      split
      · exact ⟨nofun, nofun⟩
      · next hfits =>
        split
        · refine ⟨nofun, fun stop hstop => ?_⟩
          cases Except.ok.inj hstop
          constructor <;> omega
        · obtain ⟨hrange, hstop⟩ := ih blockHeader htype hfits (by omega)
          refine ⟨hrange, fun stop heq => ?_⟩
          obtain ⟨hlt, hle⟩ := hstop stop heq
          constructor <;> omega

theorem scanFrame_inside (buffer : List UInt8) (start : Nat) : scanFrame buffer start ≠ .error .outOfRange ∧
      ∀ stop, scanFrame buffer start = .ok (some stop) → start < stop ∧ stop ≤ buffer.length := by
  rw [scanFrame]
  split
  · exact ⟨nofun, nofun⟩
  · next hfour =>
    obtain ⟨magic, hmagic⟩ := readUIntLE_ok ZstdScanError.outOfRange (show start + 4 ≤ buffer.length by omega)
    rw [read, hmagic, ok_bind]
    split
    · exact ⟨nofun, nofun⟩
    · split
      · exact ⟨nofun, nofun⟩
      · obtain ⟨descriptor, hdescriptor⟩ := readUIntLE_ok ZstdScanError.outOfRange
          (show start + 4 + 1 ≤ buffer.length by omega)
        rw [read, hdescriptor, ok_bind]
        split
        · exact ⟨nofun, nofun⟩
        · split
          · exact ⟨nofun, nofun⟩
          · obtain ⟨hrange, hstop⟩ := scanBlocks_inside
              (show start + 5 + remainingHeaderBytes descriptor ≤ buffer.length by omega)
            cases hblocks : scanBlocks buffer (start + 5 + remainingHeaderBytes descriptor) with
            | error e =>
              rw [error_bind]
              refine ⟨fun heq => hrange ?_, nofun⟩
              rw [hblocks, Except.error.inj heq]
            | ok found =>
              cases found with
              | none => exact ⟨nofun, nofun⟩
              | some offset =>
                obtain ⟨hlt, hle⟩ := hstop offset hblocks
                rw [ok_bind]
                dsimp only
                split
                · split
                  · exact ⟨nofun, nofun⟩
                  · refine ⟨nofun, fun stop heq => ?_⟩
                    cases Except.ok.inj heq
                    constructor <;> omega
                · refine ⟨nofun, fun stop heq => ?_⟩
                  cases Except.ok.inj heq
                  constructor <;> omega

/-- The scan's loop: the frames found so far, and the rest of the buffer from `offset` on. -/
def scanLoop (buffer : List UInt8) (maxFrames : Option Nat) (offset : Nat)
    (frames : List ZstdFrameRange) : Except ZstdScanError ZstdFrameScan :=
  if offset < buffer.length then
    match hframe : scanFrame buffer offset with
    | .error e => .error e
    | .ok none => .ok { frames, tornStart := some offset }
    | .ok (some stop) =>
      let frames := frames ++ [{ start := offset, stop }]
      if maxFrames = some frames.length then .ok { frames }
      else
        have : buffer.length - stop < buffer.length - offset := by
          have := (scanFrame_inside buffer offset).2 stop hframe
          omega
        scanLoop buffer maxFrames stop frames
  else .ok { frames }
  termination_by buffer.length - offset

/-- Locate complete frames without decompressing their blocks; no limit is `none`. -/
def scanZstdFrames (buffer : List UInt8) (maxFrames : Option Nat) : Except ZstdScanError ZstdFrameScan :=
  scanLoop buffer maxFrames 0 []

variable {maxFrames : Option Nat} {frames : List ZstdFrameRange}

theorem scanLoop_done (h : buffer.length ≤ offset) : scanLoop buffer maxFrames offset frames = .ok { frames } := by
  rw [scanLoop, if_neg (by omega)]

theorem scanLoop_torn (h : offset < buffer.length) (hframe : scanFrame buffer offset = .ok none) :
    scanLoop buffer maxFrames offset frames = .ok { frames, tornStart := some offset } := by
  rw [scanLoop, if_pos h]
  split
  · next e heq => rw [hframe] at heq; cases heq
  · rfl
  · next stop heq => rw [hframe] at heq; cases heq

theorem scanLoop_frame {stop : Nat} (h : offset < buffer.length) (hframe : scanFrame buffer offset = .ok (some stop)) :
    scanLoop buffer none offset frames = scanLoop buffer none stop (frames ++ [{ start := offset, stop }]) := by
  conv_lhs => rw [scanLoop, if_pos h]
  split
  · next e heq => rw [hframe] at heq; cases heq
  · next heq => rw [hframe] at heq; cases heq
  · next stop' heq =>
    rw [hframe] at heq
    cases Except.ok.inj heq
    rfl

theorem scanLoop_error {e : ZstdScanError} (h : offset < buffer.length) (hframe : scanFrame buffer offset = .error e) :
    scanLoop buffer maxFrames offset frames = .error e := by
  rw [scanLoop, if_pos h]
  split
  · next e' heq => rw [hframe] at heq; rw [Except.error.inj heq]
  · next heq => rw [hframe] at heq; cases heq
  · next stop heq => rw [hframe] at heq; cases heq

/-! ## Arbitrary bytes -/

/-- The ranges tile the bytes from `start` to `stop`, none of them empty. -/
def Tiles : Nat → Nat → List ZstdFrameRange → Prop
  | start, stop, [] => start = stop
  | start, stop, range :: rest => range.start = start ∧ start < range.stop ∧ Tiles range.stop stop rest

theorem Tiles.snoc {start stop stop' : Nat} {ranges : List ZstdFrameRange} (h : Tiles start stop ranges)
    (hlt : stop < stop') : Tiles start stop' (ranges ++ [⟨stop, stop'⟩]) := by
  induction ranges generalizing start with
  | nil =>
    obtain rfl : start = stop := h
    exact ⟨rfl, hlt, rfl⟩
  | cons range rest ih => exact ⟨h.1, h.2.1, ih h.2.2⟩

/-- The frames tile a prefix of any bytes, or all of them, or a torn frame starts behind the last. -/
structure ScanInside (buffer : List UInt8) (scan : ZstdFrameScan) (stop : Nat) : Prop where
  tiles : Tiles 0 stop scan.frames
  inside : stop ≤ buffer.length
  torn : ∀ start, scan.tornStart = some start → start = stop ∧ stop < buffer.length
  whole : scan.tornStart = none → stop = buffer.length

theorem scanLoop_inside (hoffset : offset ≤ buffer.length) (htiles : Tiles 0 offset frames) :
    scanLoop buffer none offset frames ≠ .error .outOfRange ∧
      ∀ scan, scanLoop buffer none offset frames = .ok scan → ∃ stop, ScanInside buffer scan stop := by
  -- each frame leaves fewer bytes behind it
  induction hleft : buffer.length - offset using Nat.strongRecOn generalizing offset frames with
  | ind left ih =>
    rcases Nat.lt_or_ge offset buffer.length with hlt | hge
    · cases hframe : scanFrame buffer offset with
      | error e =>
        rw [scanLoop_error hlt hframe]
        refine ⟨fun heq => (scanFrame_inside buffer offset).1 ?_, nofun⟩
        rw [hframe, Except.error.inj heq]
      | ok found =>
        cases found with
        | none =>
          rw [scanLoop_torn hlt hframe]
          refine ⟨nofun, fun scan heq => ⟨offset, ?_⟩⟩
          cases heq
          exact ⟨htiles, hoffset, fun start h => ⟨(Option.some.inj h).symm, hlt⟩, nofun⟩
        | some stop =>
          obtain ⟨hstart, hstop⟩ := (scanFrame_inside buffer offset).2 stop hframe
          rw [scanLoop_frame hlt hframe]
          exact ih (buffer.length - stop) (by omega) hstop (htiles.snoc hstart) rfl
    · rw [scanLoop_done hge]
      refine ⟨nofun, fun scan heq => ⟨offset, ?_⟩⟩
      cases heq
      exact ⟨htiles, hoffset, nofun, fun _ => by omega⟩

end CocoHarness.Persistence
