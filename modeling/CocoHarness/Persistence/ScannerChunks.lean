/-
# CocoHarness.Persistence.ScannerChunks — the scanner does not see how its input is cut.

A log arrives in chunks that end anywhere: inside a line, inside a character, right before a newline.  The scanner
searches each chunk for newlines by offset, keeps the bytes behind the last one as a list of fragment buffers, and
concatenates them when the line completes.  `BufferScanner` is that bookkeeping; its fragment list stands for one run
of pending bytes, so that a write does to it what a write does to the scanner of `JsonlFormat`
(`BufferScanner.write_abs`).
-/
import CocoHarness.Persistence.JsonlFormat

namespace CocoHarness.Persistence

open Lib Lib.SafeInteger SessionLog List Lines SessionLogScanner Except

/-! ## Fragment buffers -/

/-- `Buffer.concat(list, totalLength)`: cut to the length, or padded with zeros. -/
def concat (list : List (List UInt8)) (totalLength : Nat) : List UInt8 :=
  list.flatten.take totalLength ++ List.replicate (totalLength - list.flatten.length) 0

def indexOfNewline (chunk : List UInt8) (start : Nat) : Option Nat :=
  ((chunk.drop start).findIdx? (· == Utf8.newline)).map (start + ·)

/-- The scanner with its fragment buffers; the pending bytes of `core` stay empty. -/
structure BufferScanner where
  core : SessionLogScanner
  fragments : List (List UInt8) := []
  fragmentBytes : Nat := 0

namespace BufferScanner

def new (headerRecord : List UInt8) : Except JsError BufferScanner := do
  let core ← SessionLogScanner.new headerRecord
  return { core }

def completeLine (s : BufferScanner) (fragment : List UInt8) (endByte : Nat) : Except JsError BufferScanner :=
  if s.fragments.length > 0 then do
    let fragments := if fragment.length > 0 then s.fragments ++ [fragment] else s.fragments
    let line := concat fragments (s.fragmentBytes + fragment.length)
    let core ← s.core.consumeEventLine line endByte
    return { core, fragments := [], fragmentBytes := 0 }
  else do
    let core ← s.core.consumeEventLine fragment endByte
    return { s with core }

theorem indexOfNewline_lt {chunk : List UInt8} {start newline : Nat}
    (h : indexOfNewline chunk start = some newline) : start ≤ newline ∧ newline < chunk.length := by
  obtain ⟨i, hi, rfl⟩ := Option.map_eq_some_iff.mp h
  obtain ⟨hlt, -⟩ := List.findIdx?_eq_some_iff_getElem.mp hi
  rw [length_drop] at hlt
  constructor <;> omega

theorem indexOfNewline_shrinks {chunk : List UInt8} {start newline : Nat} (h : indexOfNewline chunk start = some newline) :
    chunk.length - (newline + 1) < chunk.length - start := by
  have := indexOfNewline_lt h
  omega

/-- The loop over the newlines of a chunk: where the last line ends, and the scanner then. -/
def lineLoop (chunk : List UInt8) (chunkStart lineStart : Nat) (s : BufferScanner) :
    Except JsError (Nat × BufferScanner) :=
  match h : indexOfNewline chunk lineStart with
  | none => .ok (lineStart, s)
  | some newline => do
    let fragment := (chunk.drop lineStart).take (newline - lineStart)
    let s ← s.completeLine fragment (chunkStart + newline + 1)
    have := indexOfNewline_shrinks h
    lineLoop chunk chunkStart (newline + 1) s
  termination_by chunk.length - lineStart

/-- Consume the next raw chunk, retaining only an incomplete final record. -/
def write (s : BufferScanner) (chunk : List UInt8) : Except JsError BufferScanner :=
  if s.core.finished then .error (.error "cannot write to a finished session log scanner")
  else do
    let chunkStart := s.core.inputBytes
    let (lineStart, s) ← lineLoop chunk chunkStart 0
      { s with core := { s.core with inputBytes := s.core.inputBytes + chunk.length } }
    if lineStart < chunk.length then
      let fragment := chunk.drop lineStart
      return { s with
        fragments := s.fragments ++ [fragment], fragmentBytes := s.fragmentBytes + fragment.length }
    else return s

/-- Progress: byte, committed-prefix and expanded-event cursors. -/
structure Checkpoint where
  inputBytes : Nat
  committedBytes : Nat
  eventCount : Nat
  deriving DecidableEq

/-- Snapshot progress before appending a recoverable torn-frame prefix. -/
def checkpoint (s : BufferScanner) : Checkpoint where
  inputBytes := s.core.inputBytes
  committedBytes := s.core.committedBytes
  eventCount := s.core.events.length

def finish (s : BufferScanner) : SessionLogScan := s.core.finish.2

/-! ## One run of pending bytes -/

def abs (s : BufferScanner) : SessionLogScanner := { s.core with fragments := s.fragments.flatten }

structure Sound (s : BufferScanner) : Prop where
  bytes : s.fragmentBytes = s.fragments.flatten.length
  core : s.core.fragments = []

end BufferScanner

namespace SessionLogScanner

/-- Consuming a line leaves the pending bytes, the offset and the end mark alone. -/
theorem consumeEventLine_frame (s : SessionLogScanner) (line : List UInt8) (endByte : Nat)
    (fragments : List UInt8) (inputBytes : Nat) (finished : Bool) :
    { s with fragments, inputBytes, finished }.consumeEventLine line endByte
      = (s.consumeEventLine line endByte).map fun s' => { s' with fragments, inputBytes, finished } := by
  unfold consumeEventLine
  cases decodeLine line with
  | none => rfl
  | some decoded =>
    dsimp only
    cases s.issue with
    | some issue =>
      dsimp only
      cases someTurnEnd decoded with
      | error e => rfl
      | ok found => cases found <;> rfl
    | none =>
      dsimp only
      cases seqGap s.events.length decoded with
      | error e => rfl
      | ok gap =>
        cases gap with
        | none => rfl
        | some gap =>
          obtain ⟨expected, got⟩ := gap
          simp only [ok_bind]
          cases stringOf got with
          | error e => rfl
          | ok text =>
            simp only [ok_bind]
            cases someTurnEnd decoded with
            | error e => rfl
            | ok found => cases found <;> rfl

variable {s : SessionLogScanner}

theorem consumeEventLine_keeps {s' : SessionLogScanner} {line : List UInt8} {endByte : Nat}
    (h : s.consumeEventLine line endByte = .ok s') :
    s'.fragments = s.fragments ∧ s'.inputBytes = s.inputBytes ∧ s'.finished = s.finished := by
  have hframe := consumeEventLine_frame s line endByte s.fragments s.inputBytes s.finished
  rw [show { s with fragments := s.fragments, inputBytes := s.inputBytes, finished := s.finished } = s
    from rfl, h] at hframe
  rw [ok.inj hframe]
  exact ⟨rfl, rfl, rfl⟩

/-! ## Writing two chunks -/

def lineBytes (lines : List (List UInt8)) : Nat := (lines.map fun line => line.length + 1).sum

theorem writeLines_append (s : SessionLogScanner) (offset : Nat) (xs ys : List (List UInt8)) :
    s.writeLines offset (xs ++ ys)
      = (s.writeLines offset xs).bind fun s' => s'.writeLines (offset + lineBytes xs) ys := by
  induction xs generalizing s offset with
  | nil => rfl
  | cons line xs ih =>
    rw [cons_append, writeLines, writeLines]
    cases { s with fragments := [] }.consumeEventLine (s.fragments ++ line) (offset + line.length + 1) with
    | error e => rfl
    | ok s' =>
      have hoffset : offset + line.length + 1 + lineBytes xs = offset + lineBytes (line :: xs) := by
        simp only [lineBytes, map_cons, sum_cons]
        omega
      simp only [ok_bind, ih, hoffset]

theorem writeLines_frame (s : SessionLogScanner) (offset : Nat) (lines : List (List UInt8)) (inputBytes : Nat) :
    { s with inputBytes }.writeLines offset lines
      = (s.writeLines offset lines).map fun s' => { s' with inputBytes } := by
  induction lines generalizing s offset with
  | nil => rfl
  | cons line lines ih =>
    have hline := consumeEventLine_frame { s with fragments := [] } (s.fragments ++ line)
      (offset + line.length + 1) [] inputBytes s.finished
    rw [writeLines, writeLines]
    show ({ s with fragments := [], inputBytes }.consumeEventLine _ _ >>= _) = _
    rw [hline]
    cases hres : { s with fragments := [] }.consumeEventLine (s.fragments ++ line)
        (offset + line.length + 1) with
    | error e => rfl
    | ok s' =>
      obtain ⟨hfragments, -, hfinished⟩ := consumeEventLine_keeps hres
      have hempty : s'.fragments = [] := hfragments
      have hopen : s'.finished = s.finished := hfinished
      have heq : { s' with fragments := [], inputBytes, finished := s.finished } = { s' with inputBytes } := by
        rw [← hopen, ← hempty]
      show writeLines { s' with fragments := [], inputBytes, finished := s.finished } _ _ = _
      rw [heq, ih]
      rfl

theorem writeLines_keeps {s' : SessionLogScanner} {offset : Nat} {lines : List (List UInt8)}
    (h : s.writeLines offset lines = .ok s') :
    s'.inputBytes = s.inputBytes ∧ s'.finished = s.finished := by
  induction lines generalizing s offset with
  | nil =>
    cases h
    exact ⟨rfl, rfl⟩
  | cons line lines ih =>
    rw [writeLines] at h
    obtain ⟨s₁, hline, h⟩ := bind_eq_ok_iff.mp h
    obtain ⟨-, hinput, hfinished⟩ := consumeEventLine_keeps hline
    obtain ⟨hinput', hfinished'⟩ := ih h
    exact ⟨hinput'.trans hinput, hfinished'.trans hfinished⟩

theorem writeLines_pending (s : SessionLogScanner) (offset : Nat) (fragment line : List UInt8)
    (lines : List (List UInt8)) :
    s.writeLines offset ((fragment ++ line) :: lines)
      = { s with fragments := s.fragments ++ fragment }.writeLines (offset + fragment.length)
          (line :: lines) := by
  rw [writeLines, writeLines, length_append, ← Nat.add_assoc, ← append_assoc]

theorem write_eq (h : s.finished = false) (chunk : List UInt8) : s.write chunk
      = ({ s with inputBytes := s.inputBytes + chunk.length }.writeLines s.inputBytes
          (Lines.cut Utf8.newline chunk).1).map
        fun s' : SessionLogScanner =>
          { s' with fragments := s'.fragments ++ (Lines.cut Utf8.newline chunk).2 } := by
  rw [write, if_neg (by simp [h])]
  rfl

/-- **Two writes are one**, whatever the cut: the same state, or the same error. -/
theorem write_append (h : s.finished = false) (as bs : List UInt8) :
    s.write (as ++ bs) = (s.write as).bind (·.write bs) := by
  have hbytes := @Lines.length_cut _ Utf8.newline _ as
  rw [write_eq h, write_eq h, cut_append, length_append]
  generalize (Lines.cut Utf8.newline as).1 = lines at hbytes ⊢
  generalize (Lines.cut Utf8.newline as).2 = rest at hbytes ⊢
  have hlines : { s with inputBytes := s.inputBytes + (as.length + bs.length) }.writeLines s.inputBytes lines
      = ({ s with inputBytes := s.inputBytes + as.length }.writeLines s.inputBytes lines).map
        fun s' : SessionLogScanner =>
          { s' with inputBytes := s.inputBytes + (as.length + bs.length) } :=
    writeLines_frame { s with inputBytes := s.inputBytes + as.length } s.inputBytes lines _
  cases hrun : { s with inputBytes := s.inputBytes + as.length }.writeLines s.inputBytes lines with
  | error e =>
    rw [hrun] at hlines
    -- the first chunk's lines throw, whatever follows
    rcases (Lines.cut Utf8.newline bs).1 with _ | ⟨line, lines'⟩
    · dsimp only
      rw [hlines]
      rfl
    · dsimp only
      rw [writeLines_append, hlines]
      rfl
  | ok s' =>
    rw [hrun] at hlines
    obtain ⟨hinput, hfinished⟩ := writeLines_keeps hrun
    have hinput' : s'.inputBytes = s.inputBytes + as.length := hinput
    have hwrite := write_eq (s := { s' with fragments := s'.fragments ++ rest })
      (show s'.finished = false from hfinished.trans h) bs
    show _ = write { s' with fragments := s'.fragments ++ rest } bs
    rw [hwrite]
    rcases (Lines.cut Utf8.newline bs).1 with _ | ⟨line, lines'⟩
    · dsimp only
      rw [hlines]
      show ok _ = ok _
      simp only [hinput', Nat.add_assoc, append_assoc]
    · dsimp only
      rw [writeLines_append, hlines]
      show (writeLines _ _ _).map _ = _
      rw [writeLines_pending]
      have hoffset : s.inputBytes + lineBytes lines + rest.length = s'.inputBytes := by
        rw [hinput', hbytes, lineBytes]
        omega
      rw [hoffset]
      simp only [hinput', Nat.add_assoc]

/-- **Only the bytes matter**, not how they were cut into writes. -/
theorem foldlM_write (h : s.finished = false) (chunks : List (List UInt8)) :
    chunks.foldlM write s = s.write chunks.flatten := by
  induction chunks generalizing s with
  | nil =>
    rw [flatten_nil, write_eq h]
    simp [Lines.cut, writeLines, Except.map]
  | cons chunk chunks ih =>
    rw [foldlM_cons, flatten_cons, write_append h]
    cases hwrite : s.write chunk with
    | error e => rfl
    | ok s' =>
      have hfinished : s'.finished = false := by
        rw [write_eq h] at hwrite
        obtain ⟨s₁, hlines, rfl⟩ := except_map_ok hwrite
        exact (writeLines_keeps hlines).2.trans h
      exact ih hfinished

end SessionLogScanner

/-! ## The fragment list -/

theorem concat_flatten (list : List (List UInt8)) : concat list list.flatten.length = list.flatten := by
  rw [concat, take_length, Nat.sub_self, replicate_zero, append_nil]

/-- A newline ends the line that starts at `start`; without one nothing is left to complete. -/
theorem cut_of_indexOfNewline (chunk : List UInt8) (start : Nat) :
    match indexOfNewline chunk start with
    | none => Lines.cut Utf8.newline (chunk.drop start) = ([], chunk.drop start)
    | some newline => Lines.cut Utf8.newline (chunk.drop start) = ((chunk.drop start).take (newline - start) ::
            (Lines.cut Utf8.newline (chunk.drop (newline + 1))).1,
          (Lines.cut Utf8.newline (chunk.drop (newline + 1))).2) := by
  unfold indexOfNewline
  cases hfind : (chunk.drop start).findIdx? (· == Utf8.newline) with
  | none =>
    rw [List.findIdx?_eq_none_iff] at hfind
    apply cut_rest
    intro hmem
    have := hfind _ hmem
    simp at this
  | some i =>
    obtain ⟨hlt, hat, hbefore⟩ := List.findIdx?_eq_some_iff_getElem.mp hfind
    have hline : Utf8.newline ∉ (chunk.drop start).take i := by
      intro hmem
      obtain ⟨j, hj, heq⟩ := getElem_of_mem hmem
      rw [length_take] at hj
      rw [getElem_take] at heq
      have := hbefore j (by omega)
      rw [heq] at this
      simp at this
    have hsplit : chunk.drop start = (chunk.drop start).take i ++ Utf8.newline :: chunk.drop (start + i + 1) := by
      conv_lhs => rw [← take_append_drop i (chunk.drop start)]
      rw [drop_eq_getElem_cons hlt, beq_iff_eq.mp hat, drop_drop]
      rfl
    show Lines.cut Utf8.newline (chunk.drop start) = _
    rw [show start + i - start = i by omega]
    conv_lhs => rw [hsplit, cut_line hline]

namespace BufferScanner

/-- Both computations throw the same, or the one returns the other's state. -/
def Follows (x : Except JsError BufferScanner) (y : Except JsError SessionLogScanner) : Prop :=
  (∃ s, x = .ok s ∧ s.Sound ∧ y = .ok s.abs) ∨ ∃ e, x = .error e ∧ y = .error e

variable {s : BufferScanner}

theorem completeLine_follows (h : s.Sound) (fragment : List UInt8) (endByte : Nat) :
    Follows (s.completeLine fragment endByte)
      ({ s.abs with fragments := [] }.consumeEventLine (s.abs.fragments ++ fragment) endByte) := by
  obtain ⟨hbytes, hcore⟩ := h
  have hstart : { s.abs with fragments := [] } = s.core := by
    show { s.core with fragments := [] } = s.core
    rw [← hcore]
  have hline : (if s.fragments.length > 0 then
      concat (if fragment.length > 0 then s.fragments ++ [fragment] else s.fragments)
        (s.fragmentBytes + fragment.length) else fragment) = s.abs.fragments ++ fragment := by
    show _ = s.fragments.flatten ++ fragment
    by_cases hpending : s.fragments.length > 0
    · rw [if_pos hpending]
      by_cases hfragment : fragment.length > 0
      · have hflat : (s.fragments ++ [fragment]).flatten = s.fragments.flatten ++ fragment := by simp
        rw [if_pos hfragment, hbytes, ← length_append, ← hflat, concat_flatten]
      · have hnil : fragment = [] := length_eq_zero_iff.mp (by omega)
        rw [if_neg hfragment, hnil, length_nil, Nat.add_zero, hbytes, concat_flatten, append_nil]
    · have hnil : s.fragments = [] := length_eq_zero_iff.mp (by omega)
      rw [if_neg hpending, hnil]
      rfl
  rw [hstart, ← hline, completeLine]
  by_cases hpending : s.fragments.length > 0
  · rw [if_pos hpending, if_pos hpending]
    dsimp only
    cases hrun : s.core.consumeEventLine (concat (if fragment.length > 0 then s.fragments ++ [fragment]
        else s.fragments) (s.fragmentBytes + fragment.length)) endByte with
    | error e => exact .inr ⟨e, rfl, rfl⟩
    | ok core =>
      have hkept : core.fragments = [] := (consumeEventLine_keeps hrun).1.trans hcore
      refine .inl ⟨_, rfl, ⟨rfl, hkept⟩, ?_⟩
      show ok core = ok { core with fragments := [] }
      rw [← hkept]
  · have hnil : s.fragments = [] := length_eq_zero_iff.mp (by omega)
    rw [if_neg hpending, if_neg hpending]
    cases hrun : s.core.consumeEventLine fragment endByte with
    | error e => exact .inr ⟨e, rfl, rfl⟩
    | ok core =>
      have hkept : core.fragments = [] := (consumeEventLine_keeps hrun).1.trans hcore
      refine .inl ⟨_, rfl, ⟨hbytes, hkept⟩, ?_⟩
      show ok core = ok { core with fragments := s.fragments.flatten }
      rw [hnil, flatten_nil, ← hkept]

theorem lineLoop_follows (chunk : List UInt8) (chunkStart lineStart : Nat) (h : s.Sound)
    (hstart : lineStart ≤ chunk.length) :
    (∃ stop s', lineLoop chunk chunkStart lineStart s = .ok (stop, s') ∧ s'.Sound ∧
      stop ≤ chunk.length ∧ chunk.drop stop = (Lines.cut Utf8.newline (chunk.drop lineStart)).2 ∧
      s.abs.writeLines (chunkStart + lineStart) (Lines.cut Utf8.newline (chunk.drop lineStart)).1 = .ok s'.abs) ∨
    ∃ e, lineLoop chunk chunkStart lineStart s = .error e ∧
      s.abs.writeLines (chunkStart + lineStart) (Lines.cut Utf8.newline (chunk.drop lineStart)).1 = .error e := by
  have hcut := cut_of_indexOfNewline chunk lineStart
  induction hleft : chunk.length - lineStart using Nat.strongRecOn generalizing lineStart s with
  | ind left ih =>
    rw [lineLoop]
    split
    · next hindex =>
      rw [hindex] at hcut
      dsimp only at hcut
      rw [hcut]
      exact .inl ⟨lineStart, s, rfl, h, hstart, rfl, rfl⟩
    · next newline hindex =>
      obtain ⟨hle, hlt⟩ := indexOfNewline_lt hindex
      rw [hindex] at hcut
      dsimp only at hcut
      rw [hcut]
      have hend : chunkStart + newline + 1
          = chunkStart + lineStart + ((chunk.drop lineStart).take (newline - lineStart)).length + 1 := by
        rw [length_take, length_drop]
        omega
      rw [writeLines, ← hend]
      rcases completeLine_follows h ((chunk.drop lineStart).take (newline - lineStart))
          (chunkStart + newline + 1) with ⟨s', hrun, hsound, habs⟩ | ⟨e, hrun, habs⟩
      · dsimp only at habs ⊢
        rw [hrun, habs]
        exact ih (chunk.length - (newline + 1)) (by omega) (newline + 1) hsound (by omega)
          (cut_of_indexOfNewline chunk (newline + 1)) rfl
      · dsimp only at habs ⊢
        rw [hrun, habs]
        exact .inr ⟨e, rfl, rfl⟩

/-- **A write on the buffers is a write on the pending bytes.** -/
theorem write_follows (h : s.Sound) (chunk : List UInt8) : Follows (s.write chunk) (s.abs.write chunk) := by
  rw [write, SessionLogScanner.write]
  show Follows _ (if s.core.finished then _ else _)
  cases hfinished : s.core.finished with
  | true => exact .inr ⟨_, rfl, rfl⟩
  | false =>
    have hsound : Sound { s with
        core := { s.core with inputBytes := s.core.inputBytes + chunk.length } } := ⟨h.bytes, h.core⟩
    rw [if_neg Bool.false_ne_true, if_neg Bool.false_ne_true]
    dsimp only
    rcases lineLoop_follows chunk s.core.inputBytes 0 hsound (Nat.zero_le _) with
      ⟨stop, s', hrun, hsound', hstop, hrest, habs⟩ | ⟨e, hrun, habs⟩
    · rw [Nat.add_zero, drop_zero] at habs
      rw [drop_zero] at hrest
      rw [hrun]
      show Follows (if stop < chunk.length then _ else _)
        (writeLines _ _ _ >>= fun s₁ => _)
      rw [show s.abs.inputBytes = s.core.inputBytes from rfl]
      have hline : writeLines
          { s.abs with inputBytes := s.core.inputBytes + chunk.length } s.core.inputBytes
          (Lines.cut Utf8.newline chunk).1 = .ok s'.abs := habs
      rw [hline, ok_bind, ← hrest]
      by_cases hmore : stop < chunk.length
      · rw [if_pos hmore]
        refine .inl ⟨_, rfl, ⟨?_, hsound'.core⟩, ?_⟩
        · show s'.fragmentBytes + _ = _
          rw [hsound'.bytes, flatten_append, length_append, flatten_singleton]
        · have hflat : (s'.fragments ++ [chunk.drop stop]).flatten = s'.fragments.flatten ++ chunk.drop stop := by simp
          simp only [abs, hflat, pure_eq_ok]
      · rw [if_neg hmore, drop_eq_nil_of_le (by omega)]
        refine .inl ⟨s', rfl, hsound', ?_⟩
        show ok { s'.core with fragments := s'.fragments.flatten ++ [] } = ok s'.abs
        rw [append_nil]
        rfl
    · rw [Nat.add_zero, drop_zero] at habs
      rw [hrun]
      refine .inr ⟨e, rfl, ?_⟩
      have hline : writeLines
          { s.abs with inputBytes := s.core.inputBytes + chunk.length } s.core.inputBytes
          (Lines.cut Utf8.newline chunk).1 = .error e := habs
      show (writeLines _ _ _ >>= fun s₁ => _) = _
      rw [show s.abs.inputBytes = s.core.inputBytes from rfl, hline]
      rfl

theorem writes_follow (h : s.Sound) (chunks : List (List UInt8)) :
    Follows (chunks.foldlM write s) (chunks.foldlM SessionLogScanner.write s.abs) := by
  induction chunks generalizing s with
  | nil => exact .inl ⟨s, rfl, h, rfl⟩
  | cons chunk chunks ih =>
    rw [foldlM_cons, foldlM_cons]
    rcases write_follows h chunk with ⟨s', hrun, hsound, habs⟩ | ⟨e, hrun, habs⟩
    · rw [hrun, habs]
      exact ih hsound
    · rw [hrun, habs]
      exact .inr ⟨e, rfl, rfl⟩

end BufferScanner

/-! ## Scanning a log in chunks -/

structure ChunkScan where
  scan : SessionLogScan
  checkpoint : BufferScanner.Checkpoint
  tail : List UInt8
  deriving DecidableEq

def scanChunks (headerRecord : List UInt8) (chunks : List (List UInt8)) : Except JsError ChunkScan := do
  let s ← BufferScanner.new headerRecord
  let s ← chunks.foldlM BufferScanner.write s
  return { scan := s.finish, checkpoint := s.checkpoint, tail := s.fragments.flatten }

theorem scanChunks_eq (headerRecord : List UInt8) (chunks : List (List UInt8)) : scanChunks headerRecord chunks = do
      let s ← new headerRecord
      let s ← s.write chunks.flatten
      return { scan := s.finish.2, checkpoint := ⟨s.inputBytes, s.committedBytes, s.events.length⟩,
               tail := s.fragments } := by
  rw [scanChunks, BufferScanner.new]
  cases hnew : new headerRecord with
  | error e => rfl
  | ok core =>
    have hfresh : core.fragments = [] ∧ core.finished = false := by
      obtain ⟨header, -, h⟩ := bind_eq_ok_iff.mp hnew
      cases h
      exact ⟨rfl, rfl⟩
    have hsound : BufferScanner.Sound { core } := ⟨rfl, hfresh.1⟩
    have habs : BufferScanner.abs { core } = core := by
      show { core with fragments := [] } = core
      rw [← hfresh.1]
    have hfollow := BufferScanner.writes_follow hsound chunks
    rw [habs, foldlM_write hfresh.2] at hfollow
    simp only [ok_bind, pure_eq_ok]
    rcases hfollow with ⟨s, hrun, -, hwrite⟩ | ⟨e, hrun, hwrite⟩
    · rw [hrun, hwrite]
      rfl
    · rw [hrun, hwrite]
      rfl

/-- **Chunking invariance.**  However the bytes are split into writes, the result is that of one write. -/
theorem scanChunks_flatten (headerRecord : List UInt8) (chunks : List (List UInt8)) :
    scanChunks headerRecord chunks = scanChunks headerRecord [chunks.flatten] := by
  rw [scanChunks_eq, scanChunks_eq, flatten_singleton]

end CocoHarness.Persistence
