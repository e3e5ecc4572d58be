/-
# CocoHarness.Files.WindowReference — the window a read shows, said without a scanner.

`referenceWindow` splits the whole text at its newlines, takes one carriage return off every line, cuts and marks the
lines over the cap, and takes from the offset on the longest run of lines within the limit and the byte cap.  The
scanner computes the same over the lines *as it saw them* (`buildWindow_eq`): it has only the first `maxLineLength +
1` units of a line when it looks for the carriage return.
-/
import CocoHarness.Files.ReadWindow
import CocoHarness.Lib.FittingPrefix
import CocoHarness.Lib.Lines

namespace CocoHarness.Files

open CocoHarness.Lib CocoHarness.Lib.Utf16 List Nat Lines FittingPrefix

/-! ## The reference -/

def rawLines (t : Text) : List Text :=
  let (lines, rest) := Lines.cut newline t
  if rest = [] then lines else lines ++ [rest]

variable (maxLineLength : Nat)

def referenceLine (raw : Text) : Text := truncateLine (stripCarriageReturn raw) maxLineLength

def joinedBytes (lines : List Text) : Nat := byteLength (List.intercalate [newline] lines)

variable (request : ReadWindow)

def windowed (lines : List Text) : List Text :=
  (lines.drop (request.offset - 1)).take request.limit

def shownRun (lines : List Text) : List Text :=
  FittingPrefix.fitting joinedBytes request.maxBytes (windowed request lines)

def numbered (offset : Nat) (lines : List Text) : List FileTextLine :=
  lines.mapIdx fun i line => { number := offset + i, text := line }

def windowOf (lines : List Text) : WindowResult :=
  { lines := numbered request.offset (shownRun request lines)
    totalLines := lines.length
    truncatedByBytes := decide ((shownRun request lines).length < (windowed request lines).length) }

/-- **What a read of the whole text should give.** -/
def referenceWindow (t : Text) (request : ReadWindow) (displayPath : Text) : Except FsError WindowResult :=
  let lines := (rawLines t).map (referenceLine request.maxLineLength)
  if lines.length < request.offset then .error (outOfRange request.offset lines.length displayPath)
  else .ok (windowOf request lines)

/-- A line as the scanner shows it: the carriage return is looked for among the units it kept. -/
def scannedLine (raw : Text) : Text :=
  referenceLine maxLineLength (raw.take (maxLineLength + 1))

/-- The line holds a carriage return right behind its first `maxLineLength` units, and goes on. -/
def CutAtReturn (raw : Text) : Prop :=
  raw[maxLineLength]? = some carriageReturn ∧ maxLineLength + 1 < raw.length

/-! ## Bytes of lines -/

theorem not_splits_newline (a b : Text) : ¬ Splits a (newline :: b) := not_splits_of_head (by decide)

theorem newline_not_splits (b : Text) : ¬ Splits [newline] b := by
  rintro ⟨u, v, hu, -, hhigh, -⟩
  rw [← Option.some.inj (hu : some newline = some u)] at hhigh
  exact absurd hhigh (by decide)

theorem byteLength_newline : byteLength [newline] = 1 := by decide

theorem byteLength_sep (a b : Text) : byteLength (a ++ newline :: b) = byteLength a + 1 + byteLength b := by
  rw [byteLength_append (not_splits_newline a b), ← singleton_append,
    byteLength_append (newline_not_splits b), byteLength_newline]
  omega

@[simp] theorem joinedBytes_nil : joinedBytes [] = 0 := rfl

variable {lines : List Text}

theorem intercalate_cons_of_ne_nil (sep line : Text) (h : lines ≠ []) :
    intercalate sep (line :: lines) = line ++ (sep ++ intercalate sep lines) := by
  cases lines with
  | nil => exact absurd rfl h
  | cons next rest => rw [intercalate_cons_cons, append_assoc]

/-- **The scanner's sum.**  Every line after the first costs one byte more. -/
theorem joinedBytes_snoc (lines : List Text) (line : Text) :
    joinedBytes (lines ++ [line]) = joinedBytes lines + lineByteSize line lines.length := by
  induction lines with
  | nil => simp [joinedBytes, lineByteSize, intercalate]
  | cons first rest ih =>
    have hne : rest ++ [line] ≠ [] := by simp
    show byteLength (intercalate [newline] (first :: (rest ++ [line]))) =
      byteLength (intercalate [newline] (first :: rest)) + _
    rw [intercalate_cons_of_ne_nil _ _ hne, singleton_append, byteLength_sep]
    have ih' : byteLength (intercalate [newline] (rest ++ [line])) =
      byteLength (intercalate [newline] rest) + lineByteSize line rest.length := ih
    rw [ih']
    cases rest with
    | nil => simp [intercalate, lineByteSize]; omega
    | cons next rest =>
      rw [intercalate_cons_of_ne_nil _ first (cons_ne_nil next rest), singleton_append, byteLength_sep]
      simp only [lineByteSize, length_cons, succ_pos, if_true]
      omega

theorem joinedBytes_grows : Grows joinedBytes := by
  intro lines line
  rw [joinedBytes_snoc]
  omega

theorem joinedBytes_map_le {f g : Text → Text} {raws : List Text}
    (h : ∀ raw ∈ raws, byteLength (f raw) ≤ byteLength (g raw)) :
    joinedBytes (raws.map f) ≤ joinedBytes (raws.map g) := by
  induction raws using reverseRecOn with
  | nil => exact le_refl _
  | append_singleton raws raw ih =>
    have hfront := ih fun r hr => h r (mem_append_left _ hr)
    have hback : byteLength (f raw) ≤ byteLength (g raw) := h raw (mem_append_right _ (mem_singleton_self raw))
    rw [map_append, map_append, map_singleton, map_singleton, joinedBytes_snoc,
      joinedBytes_snoc, lineByteSize, lineByteSize, length_map, length_map]
    omega

/-! ## The accumulator -/

theorem numbered_snoc (offset : Nat) (lines : List Text) (line : Text) : numbered offset (lines ++ [line]) =
      numbered offset lines ++ [{ number := offset + lines.length, text := line }] := by
  simp [numbered, mapIdx_append]

@[simp] theorem length_numbered (offset : Nat) (lines : List Text) :
    (numbered offset lines).length = lines.length := by
  simp [numbered]

variable (request : ReadWindow)

theorem length_shownRun (lines : List Text) : (shownRun request lines).length
      = fitLength joinedBytes request.maxBytes (windowed request lines) :=
  length_fitting _

theorem shownRun_eq_iff (lines : List Text) : shownRun request lines = windowed request lines ↔
      (shownRun request lines).length = (windowed request lines).length := by
  constructor
  · intro h
    rw [h]
  · intro h
    rw [length_shownRun] at h
    rw [shownRun, fitting, h, take_length]

/-- **What the accumulator holds** after some display lines: the window over them, and its bytes. -/
structure Accumulated (request : ReadWindow) (lines : List Text) (acc : WindowAccumulator) : Prop where
  shown : acc.lines = numbered request.offset (shownRun request lines)
  total : acc.totalLines = lines.length
  bytes : acc.outputBytes = joinedBytes (shownRun request lines)
  capped : acc.truncatedByBytes = decide ((shownRun request lines).length < (windowed request lines).length)

theorem accumulated_nil : Accumulated request [] newAccumulator := by
  have hrun : shownRun request [] = [] := by simp [shownRun, windowed, fitting]
  have hwin : windowed request [] = [] := by simp [windowed]
  constructor
  · rw [hrun]; rfl
  · rfl
  · rw [hrun]; rfl
  · rw [hrun, hwin]; rfl

theorem windowed_snoc (h : 0 < request.offset) (lines : List Text) (line : Text) : windowed request (lines ++ [line]) =
      if lines.length + 1 < request.offset ∨ request.limit ≤ (windowed request lines).length
      then windowed request lines else windowed request lines ++ [line] := by
  simp only [windowed, length_take, length_drop]
  by_cases hbefore : lines.length + 1 < request.offset
  · rw [if_pos (Or.inl hbefore), drop_eq_nil_of_le (by simp; omega), drop_eq_nil_of_le (by omega)]
  · rw [drop_append_of_le_length (by omega)]
    split
    · next hfull => rw [take_append_of_le_length (by rw [length_drop]; omega)]
    · next hroom =>
      rw [take_of_length_le (by rw [length_append, length_drop, length_singleton]; omega),
        take_of_length_le (by rw [length_drop]; omega)]

variable {request : ReadWindow}

/-- The run grows with the window, by a line that fits behind a run that is all of the window. -/
theorem shownRun_snoc {line : Text} (h : windowed request (lines ++ [line]) = windowed request lines ++ [line]) :
    shownRun request (lines ++ [line]) =
      if (shownRun request lines).length = (windowed request lines).length
          ∧ joinedBytes (windowed request lines ++ [line]) ≤ request.maxBytes
      then windowed request lines ++ [line] else shownRun request lines := by
  rw [length_shownRun, shownRun, h]
  exact joinedBytes_grows.fitting_snoc (zero_le _) _ _

theorem shownRun_congr {xs ys : List Text} (h : windowed request xs = windowed request ys) :
    shownRun request xs = shownRun request ys := by
  rw [shownRun, shownRun, h]

theorem length_shownRun_le (request : ReadWindow) (lines : List Text) :
    (shownRun request lines).length ≤ (windowed request lines).length := by
  rw [length_shownRun]
  exact fitLength_le _

variable {acc : WindowAccumulator}

theorem Accumulated.skip (hoffset : 0 < request.offset) (h : Accumulated request lines acc) (line : Text)
    (hskip : acc.truncatedByBytes = true ∨ acc.totalLines + 1 < request.offset ∨ request.limit ≤ acc.lines.length) :
    Accumulated request (lines ++ [line]) { acc with totalLines := acc.totalLines + 1 } := by
  obtain ⟨hshown, htotal, hbytes, hcapped⟩ := h
  have hlen : acc.lines.length = (shownRun request lines).length := by rw [hshown, length_numbered]
  have hle := length_shownRun_le request lines
  have hsnoc := windowed_snoc request hoffset lines line
  split at hsnoc
  · next hsame =>
    have hrun := shownRun_congr hsnoc
    constructor
    · rw [hrun]; exact hshown
    · rw [length_append, ← htotal]; rfl
    · rw [hrun]; exact hbytes
    · rw [hrun, hsnoc]; exact hcapped
  · next hgrown =>
    -- the window grows, so only the byte cap can have closed it
    obtain ⟨hbehind, hroom⟩ := not_or.mp hgrown
    have hclosed : (shownRun request lines).length < (windowed request lines).length := by
      rcases hskip with hcap | hbefore | hfull
      · rw [hcapped] at hcap
        exact of_decide_eq_true hcap
      · rw [htotal] at hbefore
        exact absurd hbefore hbehind
      · omega
    have hrun : shownRun request (lines ++ [line]) = shownRun request lines := by
      rw [shownRun_snoc hsnoc, if_neg]
      omega
    constructor
    · rw [hrun]; exact hshown
    · rw [length_append, ← htotal]; rfl
    · rw [hrun]; exact hbytes
    · rw [hrun, hsnoc, length_append, length_singleton]
      show acc.truncatedByBytes = _
      rw [hcapped, decide_eq_true hclosed, decide_eq_true (by omega)]

/-- **One line more.** -/
theorem Accumulated.consumeLine (hoffset : 0 < request.offset) (h : Accumulated request lines acc) (raw : Text) :
    Accumulated request (lines ++ [truncateLine raw request.maxLineLength])
      (consumeLine request acc raw) := by
  have hlen : acc.lines.length = (shownRun request lines).length := by rw [h.shown, length_numbered]
  have hle := length_shownRun_le request lines
  unfold Files.consumeLine
  dsimp only
  split
  · next hskip =>
    apply h.skip hoffset
    simpa [or_assoc] using hskip
  · next htaken =>
    simp only [Bool.or_eq_true, decide_eq_true_eq, not_or, Bool.not_eq_true] at htaken
    obtain ⟨⟨hopen, hbehind⟩, hroom⟩ := htaken
    -- everything of the window was shown so far, and the window has room for this line
    have hall : (shownRun request lines).length = (windowed request lines).length := by
      have := of_decide_eq_false (h.capped.symm.trans hopen)
      omega
    have hrun := (shownRun_eq_iff request lines).mpr hall
    have hsnoc : windowed request (lines ++ [truncateLine raw request.maxLineLength]) =
        windowed request lines ++ [truncateLine raw request.maxLineLength] := by
      rw [windowed_snoc request hoffset, if_neg]
      rw [h.total] at hbehind
      rw [← hall, ← hlen]
      exact not_or.mpr ⟨hbehind, hroom⟩
    have hbytes : acc.outputBytes + lineByteSize (truncateLine raw request.maxLineLength) acc.lines.length
        = joinedBytes (windowed request lines ++ [truncateLine raw request.maxLineLength]) := by
      rw [joinedBytes_snoc, h.bytes, hrun, hlen, hall]
    split
    · next hover =>
      rw [hbytes] at hover
      have hkept : shownRun request (lines ++ [truncateLine raw request.maxLineLength]) = shownRun request lines := by
        rw [shownRun_snoc hsnoc, if_neg]
        omega
      constructor
      · rw [hkept]; exact h.shown
      · rw [length_append, ← h.total]; rfl
      · rw [hkept]; exact h.bytes
      · rw [hkept, hsnoc, length_append, length_singleton, decide_eq_true (by omega)]
    · next hfits =>
      rw [hbytes] at hfits
      have hgrown : shownRun request (lines ++ [truncateLine raw request.maxLineLength])
          = shownRun request lines ++ [truncateLine raw request.maxLineLength] := by
        rw [shownRun_snoc hsnoc, if_pos ⟨hall, by omega⟩, hrun]
      have hnumber : acc.totalLines + 1 = request.offset + (shownRun request lines).length := by
        have hwin : (windowed request lines).length = min request.limit (lines.length - (request.offset - 1)) := by
          rw [windowed, length_take, length_drop]
        have htotal := h.total
        omega
      constructor
      · rw [hgrown, numbered_snoc, ← h.shown, ← hnumber]
      · rw [length_append, ← h.total]; rfl
      · show _ + _ = _
        rw [hbytes, hgrown, hrun]
      · rw [hgrown, hsnoc, length_append, length_append, hall, decide_eq_false (by omega)]
        exact hopen

/-! ## The scan -/

/-- A finished raw line reaches the accumulator capped and without its carriage return. -/
def consumeRaw (request : ReadWindow) (acc : WindowAccumulator) (raw : Text) : WindowAccumulator :=
  consumeLine request acc (stripCarriageReturn (raw.take (lineBufferCap request)))

/-- **What the scan holds** after a text: its complete lines consumed, the unfinished one capped. -/
structure Scanned (request : ReadWindow) (t : Text) (s : Scan) : Prop where
  consumed : s.acc = (Lines.cut newline t).1.foldl (consumeRaw request) newAccumulator
  pending : s.lineBuffer = (Lines.cut newline t).2.take (lineBufferCap request)

theorem appendToLineBuffer_take (request : ReadWindow) (pending segment : Text) (acc : WindowAccumulator) :
    appendToLineBuffer request segment
        { acc := acc, lineBuffer := pending.take (lineBufferCap request) } =
      { acc := acc, lineBuffer := (pending ++ segment).take (lineBufferCap request) } := by
  unfold appendToLineBuffer
  dsimp only
  split
  · next hfull =>
    rw [length_take] at hfull
    rw [take_append_of_le_length (by omega)]
  · next hroom =>
    rw [length_take] at hroom
    rw [take_of_length_le (l := pending) (by omega)]
    split
    · rfl
    · next hfits => rw [take_of_length_le (by omega)]

variable {t : Text} {s : Scan}

theorem Scanned.append (h : Scanned request t s) {segment : Text} (hsegment : newline ∉ segment) :
    Scanned request (t ++ segment) (appendToLineBuffer request segment s) := by
  obtain ⟨acc, buffer⟩ := s
  obtain ⟨hacc, hbuffer⟩ := h
  dsimp only at hacc hbuffer
  subst hbuffer
  have hcut : Lines.cut newline (t ++ segment) = ((Lines.cut newline t).1, (Lines.cut newline t).2 ++ segment) := by
    rw [cut_append, cut_rest hsegment]
  rw [appendToLineBuffer_take]
  constructor
  · rw [hcut]; exact hacc
  · rw [hcut]

theorem Scanned.flush (h : Scanned request t s) : Scanned request (t ++ [newline]) (flushLine request s) := by
  have hcut : Lines.cut newline (t ++ [newline]) = ((Lines.cut newline t).1 ++ [(Lines.cut newline t).2], []) := by
    rw [cut_append]
    simp [Lines.cut]
  constructor
  · rw [hcut, foldl_append, ← h.consumed, foldl_cons, foldl_nil, consumeRaw, ← h.pending]
    rfl
  · rw [hcut]; rfl

/-- **A chunk more**, wherever the text was cut. -/
theorem Scanned.chunk (chunk : Text) (h : Scanned request t s) :
    Scanned request (t ++ chunk) (scanChunk request chunk s) := by
  induction chunk, s using scanChunk.induct request generalizing t with
  | case1 rest s hnone =>
    rw [scanChunk.eq_def]
    split
    · apply h.append
      intro hmem
      have := findIdx?_eq_none_iff.mp hnone newline hmem
      simp at this
    · next hsome => rw [hnone] at hsome; cases hsome
  | case2 rest s at' hat ih =>
    rw [scanChunk.eq_def]
    split
    · next hnone => rw [hnone] at hat; cases hat
    · next at'' hat'' =>
      cases hat.symm.trans hat''
      obtain ⟨hlt, hhit, hmiss⟩ := findIdx?_eq_some_iff_getElem.mp hat
      have hsplit : rest = rest.take at' ++ [newline] ++ rest.drop (at' + 1) := by
        have hget : rest[at'] = newline := by simpa using hhit
        rw [append_assoc, ← hget, singleton_append, getElem_cons_drop, take_append_drop]
      have hclean : newline ∉ rest.take at' := by
        intro hmem
        obtain ⟨j, hj, heq⟩ := mem_iff_getElem.mp hmem
        rw [length_take] at hj
        rw [getElem_take] at heq
        have := hmiss j (by omega)
        simp [heq] at this
      have hnext := ih (h.append hclean).flush
      rw [append_assoc, append_assoc, ← append_assoc (rest.take at'), ← hsplit]
        at hnext
      exact hnext

theorem Scanned.chunks (chunks : List Text) (h : Scanned request t s) : Scanned request (t ++ chunks.flatten)
      (chunks.foldl (fun s chunk => scanChunk request chunk s) s) := by
  induction chunks generalizing t s with
  | nil => simpa using h
  | cons chunk chunks ih =>
    rw [foldl_cons, flatten_cons, ← append_assoc]
    exact ih (h.chunk chunk)

theorem accumulated_foldl (hoffset : 0 < request.offset) (raws : List Text) (h : Accumulated request lines acc) :
    Accumulated request (lines ++ raws.map (scannedLine request.maxLineLength))
      (raws.foldl (consumeRaw request) acc) := by
  induction raws generalizing lines acc with
  | nil => simpa using h
  | cons raw raws ih =>
    rw [map_cons, foldl_cons, ← singleton_append, ← append_assoc]
    exact ih (h.consumeLine hoffset _)

def scannedWindow (t : Text) (request : ReadWindow) (displayPath : Text) : Except FsError WindowResult :=
  let lines := (rawLines t).map (scannedLine request.maxLineLength)
  if lines.length < request.offset ∧ ¬ (t = [] ∧ request.offset = 1) then
    .error (outOfRange request.offset lines.length displayPath)
  else .ok (windowOf request lines)

theorem rawLines_eq_nil_iff : rawLines t = [] ↔ t = [] := by
  constructor
  · intro h
    unfold rawLines at h
    have hlen := @Lines.length_cut _ newline _ t
    rcases hcut : Lines.cut newline t with ⟨lines, rest⟩
    rw [hcut] at h hlen
    dsimp only at h hlen
    split at h
    · next hrest =>
      rw [h, hrest] at hlen
      exact eq_nil_of_length_eq_zero hlen
    · simp at h
  · rintro rfl
    rfl

theorem Accumulated.offset_le (h : Accumulated request lines acc)
    (hcapped : acc.truncatedByBytes = true) : request.offset ≤ lines.length := by
  rw [h.capped, decide_eq_true_eq, windowed, length_take, length_drop] at hcapped
  omega

theorem Accumulated.finish (h : Accumulated request lines acc) (displayPath : Text) :
    finish acc request displayPath =
      if lines.length < request.offset ∧ ¬ (lines.length = 0 ∧ request.offset = 1) then
        .error (outOfRange request.offset lines.length displayPath)
      else .ok (windowOf request lines) := by
  have hwindow : ({ lines := acc.lines, totalLines := acc.totalLines
                    truncatedByBytes := acc.truncatedByBytes } : WindowResult)
      = windowOf request lines := by
    rw [windowOf, h.shown, h.total, h.capped]
  have hguard : (!acc.truncatedByBytes && decide (acc.totalLines < request.offset)
      && !(acc.totalLines == 0 && request.offset == 1)) = true ↔
      (lines.length < request.offset ∧ ¬ (lines.length = 0 ∧ request.offset = 1)) := by
    rw [h.total]
    simp only [Bool.and_eq_true, Bool.not_eq_true', decide_eq_true_eq, Bool.and_eq_false_imp,
      beq_iff_eq, beq_eq_false_iff_ne]
    constructor
    · rintro ⟨⟨-, hpast⟩, hempty⟩
      exact ⟨hpast, fun hboth => hempty hboth.1 hboth.2⟩
    · rintro ⟨hpast, hempty⟩
      refine ⟨⟨?_, hpast⟩, fun hzero hone => hempty ⟨hzero, hone⟩⟩
      by_contra hcapped
      have := h.offset_le (by simpa using hcapped)
      omega
  unfold Files.finish
  rw [hwindow, h.total]
  rw [h.total] at hguard
  simp only [hguard]

/-- **What `buildWindow` computes**, for every chunking of the text. -/
theorem buildWindow_eq (chunks : List Text) (request : ReadWindow) (displayPath : Text)
    (hoffset : 0 < request.offset) :
    buildWindow chunks request displayPath = scannedWindow chunks.flatten request displayPath := by
  have hstart : Scanned request [] { acc := newAccumulator, lineBuffer := [] } := ⟨rfl, rfl⟩
  have hscan := hstart.chunks chunks
  rw [nil_append] at hscan
  unfold buildWindow
  dsimp only
  generalize chunks.foldl (fun s chunk => scanChunk request chunk s)
    { acc := newAccumulator, lineBuffer := [] } = s at hscan ⊢
  generalize chunks.flatten = t at hscan ⊢
  -- the unfinished line is consumed exactly when the reference counts it
  have hlast : (if 0 < s.lineBuffer.length then flushLine request s else s).acc
      = (rawLines t).foldl (consumeRaw request) newAccumulator := by
    rcases hcut : Lines.cut newline t with ⟨lines, rest⟩
    obtain ⟨hacc, hbuffer⟩ := hscan
    rw [hcut] at hacc hbuffer
    unfold rawLines
    rw [hcut]
    dsimp only at hacc hbuffer ⊢
    cases rest with
    | nil => rw [hbuffer, if_neg (by simp), if_pos rfl]; exact hacc
    | cons u rest =>
      rw [if_neg (cons_ne_nil u rest), if_pos (by rw [hbuffer]; simp [lineBufferCap]),
        foldl_append, ← hacc, foldl_cons, foldl_nil, consumeRaw, ← hbuffer]
      rfl
  have hacc := accumulated_foldl hoffset (rawLines t) (accumulated_nil request)
  rw [nil_append, ← hlast] at hacc
  generalize (if 0 < s.lineBuffer.length then flushLine request s else s).acc = acc at hacc ⊢
  rw [hacc.finish, scannedWindow]
  simp only [length_map, length_eq_zero_iff, rawLines_eq_nil_iff]

/-! ## Where the scanner and the reference part -/

variable {raw : Text} {n : Nat}

theorem getLast?_take_succ (h : n < raw.length) : (raw.take (n + 1)).getLast? = raw[n]? := by
  rw [getLast?_take, if_neg (Nat.succ_ne_zero n), Nat.add_sub_cancel]
  rw [getElem?_eq_getElem h, Option.some_or]

variable {maxLineLength : Nat}

theorem scannedLine_cut (h : CutAtReturn maxLineLength raw) :
    scannedLine maxLineLength raw = raw.take maxLineLength := by
  obtain ⟨hreturn, hlong⟩ := h
  have hstrip : stripCarriageReturn (raw.take (maxLineLength + 1)) = raw.take maxLineLength := by
    rw [stripCarriageReturn, getLast?_take_succ (by omega), if_pos hreturn, dropLast_take (by omega)]
    rfl
  rw [scannedLine, referenceLine, hstrip, truncateLine, if_neg]
  rw [length_take]
  omega

theorem take_stripCarriageReturn (h : n < raw.length) :
    (stripCarriageReturn raw).take n = raw.take n ∧ n ≤ (stripCarriageReturn raw).length := by
  unfold stripCarriageReturn
  split
  · rw [length_dropLast, dropLast_eq_take, take_take, min_eq_left (by omega)]
    exact ⟨rfl, by omega⟩
  · exact ⟨rfl, by omega⟩

theorem referenceLine_long (h : maxLineLength + 1 < raw.length) :
    referenceLine maxLineLength raw = raw.take maxLineLength ++ truncationMark maxLineLength := by
  obtain ⟨-, hlen⟩ := take_stripCarriageReturn h
  obtain ⟨htake, -⟩ := take_stripCarriageReturn (show maxLineLength < raw.length by omega)
  rw [referenceLine, truncateLine, if_pos (by omega), htake]

theorem scannedLine_eq (h : ¬ CutAtReturn maxLineLength raw) :
    scannedLine maxLineLength raw = referenceLine maxLineLength raw := by
  rcases lt_or_ge (maxLineLength + 1) raw.length with hlong | hshort
  · have hreturn : ¬ raw[maxLineLength]? = some carriageReturn := fun hreturn => h ⟨hreturn, hlong⟩
    have hkept : stripCarriageReturn (raw.take (maxLineLength + 1)) = raw.take (maxLineLength + 1) := by
      rw [stripCarriageReturn, getLast?_take_succ (by omega), if_neg hreturn]
    rw [referenceLine_long hlong, scannedLine, referenceLine, hkept, truncateLine, if_pos,
      take_take, min_eq_left (by omega)]
    rw [length_take]
    omega
  · rw [scannedLine, take_of_length_le hshort]

theorem truncationMark_head (maxLineLength : Nat) : ∃ rest, truncationMark maxLineLength = unit '.' :: rest := by
  refine ⟨text s!".. (line truncated to {maxLineLength} chars)", ?_⟩
  simp only [truncationMark, text, String.toList_append]
  rfl

theorem byteLength_mark (front : Text) (maxLineLength : Nat) : byteLength (front ++ truncationMark maxLineLength)
      = byteLength front + byteLength (truncationMark maxLineLength) := by
  obtain ⟨rest, hmark⟩ := truncationMark_head maxLineLength
  rw [hmark]
  exact byteLength_append (not_splits_of_head (by decide))

theorem scannedLine_ne (h : CutAtReturn maxLineLength raw) :
    scannedLine maxLineLength raw ≠ referenceLine maxLineLength raw := by
  obtain ⟨rest, hmark⟩ := truncationMark_head maxLineLength
  rw [scannedLine_cut h, referenceLine_long h.2, hmark]
  intro heq
  have := congrArg length heq
  rw [length_append, length_cons] at this
  omega

theorem byteLength_scannedLine_le (maxLineLength : Nat) (raw : Text) :
    byteLength (scannedLine maxLineLength raw) ≤ byteLength (referenceLine maxLineLength raw) := by
  by_cases h : CutAtReturn maxLineLength raw
  · rw [scannedLine_cut h, referenceLine_long h.2, byteLength_mark]
    omega
  · rw [scannedLine_eq h]

theorem windowed_map (request : ReadWindow) (f : Text → Text) (raws : List Text) :
    windowed request (raws.map f) = (windowed request raws).map f := by
  rw [windowed, windowed, ← map_drop, ← map_take]

/-- A line cut at its carriage return is refused by the byte cap, behind the lines before it. -/
def CutsRefused (request : ReadWindow) (t : Text) : Prop :=
  ∀ k raw, (windowed request (rawLines t))[k]? = some raw → CutAtReturn request.maxLineLength raw →
      request.maxBytes < joinedBytes
        (((windowed request (rawLines t)).take k).map (referenceLine request.maxLineLength)
          ++ [raw.take request.maxLineLength])

section Runs

variable {request : ReadWindow} {raws : List Text} {n : Nat}

theorem le_length_shownRun_iff (f : Text → Text) (h : n ≤ (windowed request raws).length) :
    n ≤ (shownRun request (raws.map f)).length ↔
      joinedBytes (((windowed request raws).take n).map f) ≤ request.maxBytes := by
  rw [length_shownRun, windowed_map, joinedBytes_grows.le_fitLength_iff (zero_le _)
    (by rw [length_map]; exact h), map_take]

theorem shownRun_map (f : Text → Text) : shownRun request (raws.map f) =
      ((windowed request raws).take (shownRun request (raws.map f)).length).map f := by
  rw [length_shownRun, shownRun, fitting, windowed_map, map_take]

theorem length_reference_le : (shownRun request (raws.map (referenceLine request.maxLineLength))).length
      ≤ (shownRun request (raws.map (scannedLine request.maxLineLength))).length := by
  have hle := length_shownRun_le request (raws.map (referenceLine request.maxLineLength))
  rw [windowed_map, length_map] at hle
  apply (le_length_shownRun_iff _ hle).mpr
  apply le_trans (joinedBytes_map_le fun raw _ => byteLength_scannedLine_le _ raw)
  exact (le_length_shownRun_iff _ hle).mp le_rfl

/-- No line before a place was cut at its carriage return, so both show the same there. -/
theorem map_scannedLine_take (h : ∀ k raw, k < n → (windowed request raws)[k]? = some raw →
      ¬ CutAtReturn request.maxLineLength raw) :
    ((windowed request raws).take n).map (scannedLine request.maxLineLength) =
      ((windowed request raws).take n).map (referenceLine request.maxLineLength) := by
  apply map_congr_left
  intro raw hmem
  obtain ⟨k, hk⟩ := mem_iff_getElem?.mp hmem
  rw [getElem?_take] at hk
  split at hk
  · next hlt => exact scannedLine_eq (h k raw hlt hk)
  · cases hk

theorem shown_not_cut (h : CutsRefused request t) {k : Nat}
    (hk : k < (shownRun request ((rawLines t).map (scannedLine request.maxLineLength))).length)
    (hraw : (windowed request (rawLines t))[k]? = some raw) :
    ¬ CutAtReturn request.maxLineLength raw := by
  induction k using Nat.strongRecOn generalizing raw with
  | ind k ih =>
    intro hcut
    have hlt : k < (windowed request (rawLines t)).length := (List.getElem?_eq_some_iff.mp hraw).1
    -- the lines before it show alike, so its refusal closes the run before it
    have hbefore := map_scannedLine_take (n := k) fun j raw' hj hraw' => ih j hj (by omega) hraw'
    have hfits := (le_length_shownRun_iff (scannedLine request.maxLineLength) hlt).mp hk
    rw [← take_append_getElem hlt, map_append, hbefore, map_singleton,
      (List.getElem?_eq_some_iff.mp hraw).2, scannedLine_cut hcut] at hfits
    have := h k raw hraw hcut
    omega

theorem shownRun_eq_of_refused (h : CutsRefused request t) :
    shownRun request ((rawLines t).map (scannedLine request.maxLineLength)) =
      shownRun request ((rawLines t).map (referenceLine request.maxLineLength)) := by
  set n := (shownRun request ((rawLines t).map (scannedLine request.maxLineLength))).length with hn
  have hle := length_shownRun_le request ((rawLines t).map (scannedLine request.maxLineLength))
  rw [windowed_map, length_map, ← hn] at hle
  have hsame := @map_scannedLine_take request (rawLines t) n
    fun k raw hk hraw => shown_not_cut h hk hraw
  have hlong : n ≤ (shownRun request ((rawLines t).map (referenceLine request.maxLineLength))).length := by
    apply (le_length_shownRun_iff _ hle).mpr
    rw [← hsame]
    exact (le_length_shownRun_iff _ hle).mp hn.le
  have hlen : (shownRun request ((rawLines t).map (referenceLine request.maxLineLength))).length = n :=
    le_antisymm length_reference_le hlong
  rw [shownRun_map (scannedLine request.maxLineLength),
    shownRun_map (referenceLine request.maxLineLength), hlen, ← hn, hsame]

theorem refused_of_shownRun_eq {t : Text}
    (h : shownRun request ((rawLines t).map (scannedLine request.maxLineLength)) =
      shownRun request ((rawLines t).map (referenceLine request.maxLineLength))) :
    CutsRefused request t := by
  intro k raw hraw hcut
  have hlt : k < (windowed request (rawLines t)).length := (List.getElem?_eq_some_iff.mp hraw).1
  by_contra hfits
  -- a cut line that fits would be shown by both, and differently
  have hscanned : k < (shownRun request ((rawLines t).map (scannedLine request.maxLineLength))).length := by
    apply (le_length_shownRun_iff _ hlt).mpr
    rw [← take_append_getElem hlt, map_append, map_singleton,
      (List.getElem?_eq_some_iff.mp hraw).2, scannedLine_cut hcut, joinedBytes_snoc]
    have hfront := @joinedBytes_map_le _ _ ((windowed request (rawLines t)).take k)
      fun raw _ => byteLength_scannedLine_le request.maxLineLength raw
    rw [Nat.not_lt, joinedBytes_snoc] at hfits
    simp only [length_map] at hfits ⊢
    omega
  have hget : (shownRun request ((rawLines t).map (scannedLine request.maxLineLength)))[k]?
      = some (scannedLine request.maxLineLength raw) := by
    rw [shownRun_map, getElem?_map, getElem?_take_of_lt hscanned, hraw]
    rfl
  have hget' : (shownRun request ((rawLines t).map (referenceLine request.maxLineLength)))[k]?
      = some (referenceLine request.maxLineLength raw) := by
    rw [h] at hscanned
    rw [shownRun_map, getElem?_map, getElem?_take_of_lt hscanned, hraw]
    rfl
  rw [h, hget'] at hget
  exact scannedLine_ne hcut (Option.some.inj hget).symm

end Runs

theorem numbered_injective {offset : Nat} {xs ys : List Text}
    (h : numbered offset xs = numbered offset ys) : xs = ys := by
  apply ext_getElem?
  intro i
  have := congrArg (fun lines => (lines[i]?).map FileTextLine.text) h
  simpa [numbered, Function.comp_def] using this

/-- The windows agree exactly when every cut line is refused. -/
theorem windowOf_eq_iff (request : ReadWindow) (t : Text) :
    windowOf request ((rawLines t).map (scannedLine request.maxLineLength)) =
        windowOf request ((rawLines t).map (referenceLine request.maxLineLength)) ↔
      CutsRefused request t := by
  constructor
  · intro h
    exact refused_of_shownRun_eq (numbered_injective (WindowResult.mk.inj h).1)
  · intro h
    simp only [windowOf, shownRun_eq_of_refused h, length_map, windowed_map]

/-- **When a window is its reference.**  For every chunking and window, `buildWindow` answers as splitting, stripping,
cutting and taking the longest run would, exactly when every line that goes on behind a carriage return in the place
after the cap is refused by the byte cap, and it is not the first window of an empty text. -/
theorem buildWindow_eq_reference_iff (chunks : List Text) (request : ReadWindow) (displayPath : Text)
    (hoffset : 0 < request.offset) :
    buildWindow chunks request displayPath = referenceWindow chunks.flatten request displayPath ↔
      CutsRefused request chunks.flatten ∧ ¬ (chunks.flatten = [] ∧ request.offset = 1) := by
  rw [buildWindow_eq chunks request displayPath hoffset]
  generalize chunks.flatten = t
  rw [scannedWindow, referenceWindow]
  simp only [length_map]
  by_cases hempty : t = [] ∧ request.offset = 1
  · -- the empty text's first window is the one place where the scanner answers past the last line
    obtain ⟨rfl, hone⟩ := hempty
    rw [if_neg (by simp [hone]), if_pos (by rw [hone]; decide)]
    simp [hone]
  · by_cases hpast : (rawLines t).length < request.offset
    · rw [if_pos ⟨hpast, hempty⟩, if_pos hpast]
      have hnone : windowed request (rawLines t) = [] := by rw [windowed, drop_eq_nil_of_le (by omega), take_nil]
      have hrefused : CutsRefused request t := by
        intro k raw hraw
        rw [hnone] at hraw
        cases hraw
      exact ⟨fun _ => ⟨hrefused, hempty⟩, fun _ => rfl⟩
    · rw [if_neg fun h => hpast h.1, if_neg hpast]
      constructor
      · intro h
        exact ⟨(windowOf_eq_iff request t).mp (Except.ok.inj h), hempty⟩
      · rintro ⟨hrefused, -⟩
        rw [(windowOf_eq_iff request t).mpr hrefused]

/-- Two lines in three chunks, read from the second on. -/
theorem buildWindow_eq_reference_second : 0 < 2 ∧ buildWindow [text "a\nb", text "", text "c\r\n"]
        { offset := 2, limit := 1, maxLineLength := 4, maxBytes := 10 } (text "f") =
      referenceWindow (text "a\nbc\r\n")
        { offset := 2, limit := 1, maxLineLength := 4, maxBytes := 10 } (text "f") := by
  refine ⟨by decide, (buildWindow_eq_reference_iff [text "a\nb", text "", text "c\r\n"] _ _
    (by decide)).mpr ⟨?_, by decide⟩⟩
  intro k raw hraw hcut
  exfalso
  have hmem := mem_of_getElem? hraw
  have hall : ∀ raw ∈ windowed { offset := 2, limit := 1, maxLineLength := 4, maxBytes := 10 }
      (rawLines [text "a\nb", text "", text "c\r\n"].flatten), raw.length ≤ 5 := by decide
  have := hall raw hmem
  have := hcut.2
  dsimp only at this
  omega

/-- A line goes on behind a carriage return in its fifth place, under a cap of four. -/
theorem buildWindow_ne_reference :
    buildWindow [text "abcd\refgh\n"]
        { offset := 1, limit := 10, maxLineLength := 4, maxBytes := 1000 } (text "f") =
      .ok { lines := [{ number := 1, text := text "abcd" }], totalLines := 1
            truncatedByBytes := false } ∧
    referenceWindow (text "abcd\refgh\n")
        { offset := 1, limit := 10, maxLineLength := 4, maxBytes := 1000 } (text "f") =
      .ok { lines := [{ number := 1, text := text "abcd... (line truncated to 4 chars)" }]
            totalLines := 1, truncatedByBytes := false } ∧
    buildWindow [text "abcd\refgh\n"]
        { offset := 1, limit := 10, maxLineLength := 4, maxBytes := 1000 } (text "f") ≠
      referenceWindow (text "abcd\refgh\n")
        { offset := 1, limit := 10, maxLineLength := 4, maxBytes := 1000 } (text "f") := by
  rw [buildWindow_eq _ _ _ (by decide)]
  refine ⟨?_, ?_, ?_⟩ <;> decide +kernel

end CocoHarness.Files
