/-
# CocoHarness.Persistence.ZstdFrameScan — the scan finds the frames of a cut log.

`Frame` is the Zstandard frame format: a descriptor with its flags, the optional header fields they announce, raw,
RLE and compressed blocks, and the optional checksum.  The scan is followed field by field: a field that lies inside
the cut reads as it was written, and the first one that does not marks the frame as torn (`scanFrame_cut`).
-/
import CocoHarness.Persistence.ZstdFrames

namespace CocoHarness.Persistence

open Lib Lib.ByteFields List Nat

/-! ## The frame format -/

/-- The flags of a frame header; the two reserved bits are zero. -/
structure Descriptor where
  contentSizeFlag : Fin 4
  singleSegment : Bool
  checksum : Bool
  dictionaryFlag : Fin 4

namespace Descriptor

variable (d : Descriptor)

def byte : UInt8 :=
  UInt8.ofNat (d.contentSizeFlag.val * 64 + (if d.singleSegment then 32 else 0)
    + (if d.checksum then 4 else 0) + d.dictionaryFlag.val)

/-- The bytes of the window descriptor, absent in a single-segment frame. -/
def windowBytes : Nat := if d.singleSegment then 0 else 1

def dictionaryBytes : Nat :=
  match d.dictionaryFlag with
  | 0 => 0
  | 1 => 1
  | 2 => 2
  | 3 => 4

def contentSizeBytes : Nat :=
  match d.contentSizeFlag with
  | 0 => if d.singleSegment then 1 else 0
  | 1 => 2
  | 2 => 4
  | 3 => 8

def checksumBytes : Nat := if d.checksum then 4 else 0

end Descriptor

/-- A block: its bytes as they are, one byte repeated, or compressed bytes.  Sizes are 21-bit. -/
inductive Block where
  | raw (bytes : List UInt8) (h : bytes.length < 2097152)
  | rle (byte : UInt8) (size : Nat) (h : size < 2097152)
  | compressed (bytes : List UInt8) (h : bytes.length < 2097152)

namespace Block

def type : Block → Nat
  | raw .. => 0
  | rle .. => 1
  | compressed .. => 2

def size : Block → Nat
  | raw bytes _ => bytes.length
  | rle _ size _ => size
  | compressed bytes _ => bytes.length

def payload : Block → List UInt8
  | raw bytes _ => bytes
  | rle byte _ _ => [byte]
  | compressed bytes _ => bytes

/-- The block header: the last-block bit, the type and the size. -/
def header (block : Block) (last : Bool) : Nat := (if last then 1 else 0) + 2 * block.type + 8 * block.size

def encode (block : Block) (last : Bool) : List UInt8 := bytesLE 3 (block.header last) ++ block.payload

end Block

/-- One Zstandard frame: at least one block, the optional fields as long as the flags say. -/
structure Frame where
  descriptor : Descriptor
  windowDescriptor : List UInt8
  dictionaryId : List UInt8
  contentSize : List UInt8
  /-- The blocks before the last one. -/
  blocks : List Block
  lastBlock : Block
  contentChecksum : List UInt8
  window_length : windowDescriptor.length = descriptor.windowBytes
  dictionary_length : dictionaryId.length = descriptor.dictionaryBytes
  contentSize_length : contentSize.length = descriptor.contentSizeBytes
  checksum_length : contentChecksum.length = descriptor.checksumBytes

namespace Frame

variable (f : Frame)

def headerFields : List UInt8 := f.windowDescriptor ++ f.dictionaryId ++ f.contentSize

def encodeBlocks : List UInt8 := f.blocks.flatMap (·.encode false) ++ f.lastBlock.encode true

def encode : List UInt8 :=
  bytesLE 4 zstdMagic ++ ([f.descriptor.byte] ++ (f.headerFields ++ (f.encodeBlocks ++ f.contentChecksum)))

def size : Nat := f.encode.length

theorem size_pos : 4 < f.size := by
  simp only [size, encode, length_append, length_bytesLE, length_singleton]
  omega

end Frame

def encodeFrames (frames : List Frame) : List UInt8 := frames.flatMap Frame.encode

/-- The byte ranges of the frames, the first of them at `start`. -/
def ranges (start : Nat) : List Frame → List ZstdFrameRange
  | [] => []
  | f :: frames => { start, stop := start + f.size } :: ranges (start + f.size) frames

/-! ## The flags -/

theorem descriptor_flags (d : Descriptor) :
    d.byte.toNat &&& 0x18 = 0 ∧ (d.byte.toNat &&& 0x04 ≠ 0 ↔ d.checksum = true) ∧
      remainingHeaderBytes d.byte.toNat = d.windowBytes + d.dictionaryBytes + d.contentSizeBytes := by
  obtain ⟨contentSizeFlag, singleSegment, checksum, dictionaryFlag⟩ := d
  revert contentSizeFlag singleSegment checksum dictionaryFlag
  decide

theorem Frame.length_headerFields (f : Frame) :
    f.headerFields.length = remainingHeaderBytes f.descriptor.byte.toNat := by
  rw [(descriptor_flags f.descriptor).2.2, headerFields, length_append, length_append,
    f.window_length, f.dictionary_length, f.contentSize_length]

variable (block : Block)

theorem Block.size_lt : block.size < 2097152 := by
  cases block with
  | raw _ h | rle _ _ h | compressed _ h => exact h

theorem Block.type_lt : block.type < 3 := by cases block <;> simp [type]

theorem Block.header_fields (last : Bool) :
    (block.header last >>> 1) &&& 0x03 = block.type ∧ block.header last >>> 3 = block.size ∧
      (block.header last &&& 1 ≠ 0 ↔ last = true) ∧ block.header last < 256 ^ 3 := by
  have hsize := block.size_lt
  have htype := block.type_lt
  have hthree : ∀ n : Nat, n &&& 0x03 = n % 4 := fun n => and_two_pow_sub_one_eq_mod n 2
  have hone : ∀ n : Nat, n &&& 1 = n % 2 := fun n => and_two_pow_sub_one_eq_mod n 1
  rw [hthree, hone, shiftRight_eq_div_pow, shiftRight_eq_div_pow]
  unfold header
  refine ⟨?_, ?_, ?_, ?_⟩
  · split <;> omega
  · split <;> omega
  · cases last
    · simp only [Bool.false_eq_true, if_false, iff_false, ne_eq, not_not]
      omega
    · simp only [if_true, iff_true]
      omega
  · split <;> omega

theorem Block.length_payload (last : Bool) : blockPayloadBytes (block.header last) = block.payload.length := by
  obtain ⟨htype, hsize, -⟩ := block.header_fields last
  rw [blockPayloadBytes, htype, hsize]
  cases block <;> rfl

/-! ## Following a cut log -/

section

variable {buffer post : List UInt8} {offset n : Nat}

/-- One block of a cut log: torn when the cut falls inside it, done or going on behind it. -/
theorem scanBlocks_block {block : Block} {last : Bool} (h : CutAt buffer offset (block.encode last ++ post) n) :
    scanBlocks buffer offset = if n < (block.encode last).length then .ok none
        else if last then .ok (some (offset + (block.encode last).length))
        else scanBlocks buffer (offset + (block.encode last).length) := by
  obtain ⟨htype, -, hlast, hlt⟩ := block.header_fields last
  have hthree := length_bytesLE 3 (block.header last)
  have hlen : (block.encode last).length = 3 + block.payload.length := by rw [Block.encode, length_append, hthree]
  rw [Block.encode, append_assoc] at h
  have hshort := h.short
  rw [hthree] at hshort
  rw [scanBlocks, hlen]
  by_cases hhead : n < 3
  · -- the cut falls into the block header
    rw [dif_pos (hshort.mpr hhead), if_pos (by omega)]
  · have hread := h.readUIntLE ZstdScanError.outOfRange (by omega)
    rw [hthree, littleEndian_bytesLE _ _ hlt] at hread
    have hbody := (h.next (by omega)).short
    rw [hthree] at hbody
    have hreserved : block.type ≠ 3 := by
      have := block.type_lt
      omega
    rw [dif_neg (hshort.not.mpr hhead), read, hread, ok_bind, htype, if_neg hreserved, block.length_payload last]
    by_cases hpayload : n - 3 < block.payload.length
    · -- the cut falls into the payload
      rw [if_pos (hbody.mpr hpayload), if_pos (by omega)]
      rfl
    · rw [if_neg (hbody.not.mpr hpayload), if_neg (show ¬ n < 3 + block.payload.length by omega), add_assoc]
      cases last with
      | true => rw [if_pos (hlast.mpr rfl), if_pos rfl]; rfl
      | false => rw [if_neg (fun hbit => Bool.false_ne_true (hlast.mp hbit)), if_neg Bool.false_ne_true]

theorem scanBlocks_cut {blocks : List Block} {lastBlock : Block} {bytes : List UInt8}
    (hbytes : bytes = blocks.flatMap (·.encode false) ++ lastBlock.encode true)
    (h : CutAt buffer offset (bytes ++ post) n) :
    scanBlocks buffer offset = if n < bytes.length then .ok none else .ok (some (offset + bytes.length)) := by
  induction blocks generalizing bytes offset n with
  | nil =>
    rw [flatMap_nil, nil_append] at hbytes
    subst hbytes
    rw [scanBlocks_block h]
    rfl
  | cons block blocks ih =>
    rw [flatMap_cons, append_assoc] at hbytes
    generalize hrest : blocks.flatMap (·.encode false) ++ lastBlock.encode true = rest at hbytes
    subst hbytes
    rw [append_assoc] at h
    rw [scanBlocks_block h, length_append]
    by_cases hshort : n < (block.encode false).length
    · rw [if_pos hshort, if_pos (by omega)]
    · rw [if_neg hshort, if_neg Bool.false_ne_true, ih hrest.symm (h.next (by omega)), ← add_assoc]
      by_cases hcut : n - (block.encode false).length < rest.length
      · rw [if_pos hcut, if_pos (by omega)]
      · rw [if_neg hcut, if_neg (by omega)]

/-- **One frame of a cut log** is complete exactly when the cut lies behind it. -/
theorem scanFrame_cut {f : Frame} (h : CutAt buffer offset (f.encode ++ post) n) :
    scanFrame buffer offset = if n < f.size then .ok none else .ok (some (offset + f.size)) := by
  obtain ⟨hreserved, hchecksum, -⟩ := descriptor_flags f.descriptor
  have hsize : f.size = 4 + (1 + (f.headerFields.length + (f.encodeBlocks.length + f.contentChecksum.length))) := by
    simp only [Frame.size, Frame.encode, length_append, length_bytesLE, length_singleton]
  have hfour := length_bytesLE 4 zstdMagic
  rw [Frame.encode] at h
  simp only [append_assoc] at h
  rw [scanFrame]
  have hmagic := h.short
  rw [hfour] at hmagic
  by_cases hcut : n < 4
  · -- the cut falls into the magic number
    rw [if_pos (hmagic.mpr hcut), if_pos (by omega)]
  have hread := h.readUIntLE ZstdScanError.outOfRange (by omega)
  rw [hfour, littleEndian_bytesLE _ _ (by decide)] at hread
  rw [if_neg (hmagic.not.mpr hcut), read, hread, ok_bind, if_neg (by simp)]
  have h := h.next (by omega)
  rw [hfour] at h
  have hend : offset + 4 = buffer.length ↔ n < 5 := by
    rw [h.length_eq, length_append, length_singleton]
    omega
  by_cases hcut' : n < 5
  · -- the file ends behind the magic number
    rw [if_pos (hend.mpr hcut'), if_pos (by omega)]
    rfl
  have hread := h.readUIntLE ZstdScanError.outOfRange (show 1 ≤ n - 4 by omega)
  have hbyte : littleEndian [f.descriptor.byte] = f.descriptor.byte.toNat := by
    rw [littleEndian, littleEndian]
    omega
  rw [length_singleton, hbyte] at hread
  rw [if_neg (hend.not.mpr hcut'), read, hread, ok_bind, hreserved, if_neg (by simp), ← f.length_headerFields]
  have h := h.next (show 1 ≤ n - 4 by omega)
  rw [length_singleton] at h
  have hfields := h.short
  by_cases hcut'' : n - 4 - 1 < f.headerFields.length
  · -- the cut falls into the header fields
    rw [if_pos (hfields.mpr hcut''), if_pos (by omega)]
    rfl
  rw [if_neg (hfields.not.mpr hcut'')]
  have h := h.next (by omega)
  have hencode : f.encodeBlocks = f.blocks.flatMap (·.encode false) ++ f.lastBlock.encode true := rfl
  have hscan := scanBlocks_cut hencode h
  rw [show offset + 5 = offset + 4 + 1 from rfl, hscan]
  by_cases hblocks : n - 4 - 1 - f.headerFields.length < f.encodeBlocks.length
  · -- the cut falls into the blocks
    rw [if_pos hblocks, if_pos (by omega)]
    rfl
  rw [if_neg hblocks, ok_bind]
  have h := h.next (show f.encodeBlocks.length ≤ _ by omega)
  have hsum := h.short
  have hlen := f.checksum_length
  rw [Descriptor.checksumBytes] at hlen
  dsimp only
  by_cases hflag : f.descriptor.checksum = true
  · rw [if_pos hflag] at hlen
    rw [hlen] at hsum
    rw [if_pos (hchecksum.mpr hflag)]
    by_cases hcut3 : n - 4 - 1 - f.headerFields.length - f.encodeBlocks.length < 4
    · -- the cut falls into the checksum
      rw [if_pos (hsum.mpr hcut3), if_pos (by omega)]
      rfl
    · rw [if_neg (hsum.not.mpr hcut3), if_neg (by omega), hsize, hlen]
      show Except.ok (some _) = Except.ok (some _)
      congr 2
      omega
  · rw [if_neg hflag] at hlen
    rw [if_neg (fun hbit => hflag (hchecksum.mp hbit)), if_neg (by omega), hsize, hlen]
    show Except.ok (some _) = Except.ok (some _)
    congr 2
    omega

end

/-! ## The scan of a cut log -/

/-- The frames whose ranges lie inside the cut, and the start of the one it falls into. -/
def cutScan (ranges : List ZstdFrameRange) (n : Nat) : ZstdFrameScan where
  frames := ranges.filter (·.stop ≤ n)
  tornStart := (ranges.find? fun range => range.start < n ∧ n < range.stop).map (·.start)

variable {frames : List Frame} {start : Nat}

theorem le_start_of_mem_ranges : ∀ range ∈ ranges start frames, start ≤ range.start ∧ range.start < range.stop := by
  induction frames generalizing start with
  | nil => intro range h; cases h
  | cons f frames ih =>
    intro range h
    have hpos := f.size_pos
    rcases mem_cons.mp h with rfl | h
    · constructor
      · exact le_refl _
      · show start < start + f.size
        omega
    · obtain ⟨hle, hlt⟩ := ih range h
      exact ⟨by omega, hlt⟩

theorem cutScan_behind {n : Nat} (h : n ≤ start) : cutScan (ranges start frames) n = { frames := [] } := by
  have hfind : (ranges start frames).find? (fun range => range.start < n ∧ n < range.stop) = none := by
    rw [find?_eq_none]
    intro range hrange
    have := le_start_of_mem_ranges range hrange
    simp only [decide_eq_true_eq]
    omega
  have hfilter : (ranges start frames).filter (·.stop ≤ n) = [] := by
    rw [filter_eq_nil_iff]
    intro range hrange
    have := le_start_of_mem_ranges range hrange
    simp only [decide_eq_true_eq]
    omega
  rw [cutScan, hfind, hfilter]
  rfl

theorem scanLoop_cut {buffer : List UInt8} {offset n : Nat} {found : List ZstdFrameRange} (h : CutAt buffer offset (encodeFrames frames) n) :
    scanLoop buffer none offset found = .ok { cutScan (ranges offset frames) (offset + n) with
          frames := found ++ (cutScan (ranges offset frames) (offset + n)).frames } := by
  induction frames generalizing offset n found with
  | nil =>
    have hlen := h.length_eq
    rw [scanLoop_done (by rw [hlen, encodeFrames]; simp)]
    simp [cutScan, ranges]
  | cons f frames ih =>
    have hlen := h.length_eq
    rw [encodeFrames, flatMap_cons] at h hlen
    have hpos := f.size_pos
    rcases Nat.eq_zero_or_pos n with rfl | hn
    · -- the cut lies on the boundary
      rw [scanLoop_done (by omega), cutScan_behind (by omega), append_nil]
    · have hlt : offset < buffer.length := by
        rw [hlen, length_append]
        show offset < offset + min n (f.size + _)
        omega
      have hframe := scanFrame_cut h
      by_cases hcut : n < f.size
      · -- the cut falls into this frame
        rw [if_pos hcut] at hframe
        rw [scanLoop_torn hlt hframe]
        have hstop : ¬ offset + f.size ≤ offset + n := by omega
        have hinside : offset < offset + n ∧ offset + n < offset + f.size := by omega
        have hrest : cutScan (ranges (offset + f.size) frames) (offset + n) = { frames := [] } :=
          cutScan_behind (by omega)
        have hfilter := congrArg ZstdFrameScan.frames hrest
        simp only [cutScan] at hfilter
        simp [cutScan, ranges, hstop, hinside, hfilter]
      · rw [if_neg hcut] at hframe
        have hnext : CutAt buffer (offset + f.size) (encodeFrames frames) (n - f.size) :=
          h.next (Nat.le_of_not_lt hcut)
        have hsum : offset + f.size + (n - f.size) = offset + n := by omega
        rw [scanLoop_frame hlt hframe, ih hnext, hsum]
        have hstop : offset + f.size ≤ offset + n := by omega
        have houtside : ¬ offset + n < offset + f.size := by omega
        simp [cutScan, ranges, hstop, houtside]

theorem tiles_ranges (start : Nat) (frames : List Frame) :
    Tiles start (start + (encodeFrames frames).length) (ranges start frames) := by
  induction frames generalizing start with
  | nil => rfl
  | cons f frames ih =>
    have hpos := f.size_pos
    have htail := ih (start + f.size)
    rw [add_assoc, show f.size = f.encode.length from rfl, ← length_append] at htail
    exact ⟨rfl, show start < start + f.size by omega, htail⟩

/-- **The scan finds the frames.**  A log of well-formed frames, cut at any byte, scans to exactly the frames wholly
inside the cut, and to the start of the frame it falls into. On any bytes the scan ends without reading past the
buffer, and its frames tile a prefix. -/
theorem scanZstdFrames_cut : (∀ (frames : List Frame) (n : Nat),
      Tiles 0 (encodeFrames frames).length (ranges 0 frames) ∧
      scanZstdFrames ((encodeFrames frames).take n) none = .ok
        { frames := (ranges 0 frames).filter (·.stop ≤ n)
          tornStart := ((ranges 0 frames).find? fun range => range.start < n ∧ n < range.stop).map
            (·.start) }) ∧
    (∀ buffer : List UInt8, scanZstdFrames buffer none ≠ .error .outOfRange ∧
      ∀ scan, scanZstdFrames buffer none = .ok scan → ∃ stop, ScanInside buffer scan stop) := by
  constructor
  · intro frames n
    refine ⟨by simpa using tiles_ranges 0 frames, ?_⟩
    rw [scanZstdFrames, scanLoop_cut (CutAt.start (encodeFrames frames) n), Nat.zero_add]
    rfl
  · intro buffer
    exact scanLoop_inside (Nat.zero_le _) rfl

end CocoHarness.Persistence
