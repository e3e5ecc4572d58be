/-
# CocoHarness.Files.ReadContinuation — reading a file by following the footers.

A reader who passes the offset of every footer on to the next call walks through the file.  Each call that shows a
line moves the walk on; a call whose first line alone exceeds the byte cap shows none and names its own offset again.
-/
import CocoHarness.Files.WindowReference
import CocoHarness.Lib.Fallible
import CocoHarness.Lib.WhiteSpace

namespace CocoHarness.Files

open CocoHarness.Lib CocoHarness.Lib.Utf16 List Nat

/-! ## The tool -/

structure ResolvedConfig where
  readLimit : Rat
  readMaxLineLength : Rat
  readMaxBytes : Rat
  readStreamMinSize : Rat

structure ReadToolCaps where
  /-- Default and maximum number of lines returned by one call. -/
  limit : Nat
  /-- Maximum characters returned for a single line. -/
  maxLineLength : Nat
  /-- Maximum bytes returned for selected file lines. -/
  maxBytes : Nat
  /-- Files at or above this size stream; smaller files read whole into memory. -/
  streamMinSize : Nat

inductive ReadError where
  | plain (message : Text)
  | fs (error : FsError)
deriving DecidableEq, Repr

def positiveInteger? (value : Rat) : Option Nat :=
  if value.den = 1 ∧ 1 ≤ value.num then some value.num.toNat else none

def assertPositiveInteger (name : String) (value : Rat) : Except ReadError Nat :=
  match positiveInteger? value with
  | some n => .ok n
  | none => .error (.plain (text s!"tool-fs: {name} must be a positive integer"))

def readToolCaps (resolved : ResolvedConfig) : Except ReadError ReadToolCaps := do
  let limit ← assertPositiveInteger "readLimit" resolved.readLimit
  let maxLineLength ← assertPositiveInteger "readMaxLineLength" resolved.readMaxLineLength
  let maxBytes ← assertPositiveInteger "readMaxBytes" resolved.readMaxBytes
  let streamMinSize ← assertPositiveInteger "readStreamMinSize" resolved.readStreamMinSize
  pure { limit, maxLineLength, maxBytes, streamMinSize }

structure ReadArgs where
  filePath : Text
  offset : Option Rat
  limit : Option Rat

structure ReadInput where
  filePath : Text
  offset : Nat
  limit : Nat

def parsePositiveInteger (value : Rat) (name : String) : Except ReadError Nat :=
  match positiveInteger? value with
  | some n => .ok n
  | none => .error (.plain (text s!"{name} must be a positive integer"))

def parseOptional (value : Option Rat) (name : String) (default : Nat) : Except ReadError Nat :=
  match value with
  | none => .ok default
  | some value => parsePositiveInteger value name

def parseReadArgs (args : ReadArgs) (maxLimit : Nat) : Except ReadError ReadInput := do
  if (trim args.filePath).length = 0 then
    throw (.plain (text "file_path must be a non-empty string"))
  let offset ← parseOptional args.offset "offset" 1
  let limit ← parseOptional args.limit "limit" maxLimit
  if maxLimit < limit then
    throw (.plain (text s!"limit must be less than or equal to {maxLimit}"))
  pure { filePath := args.filePath, offset, limit }

/-- A regular file as the provider serves it: its text whole, and the same text as a stream. -/
structure ReadTarget where
  displayPath : Text
  /-- The size of the stat, absent where the backend has none. -/
  size : Option Nat
  contents : Text
  stream : List Text
  streamed : stream.flatten = contents

def ReadTarget.chunks (target : ReadTarget) (caps : ReadToolCaps) : List Text :=
  match target.size with
  | none => target.stream
  | some size => if caps.streamMinSize ≤ size then target.stream else [target.contents]

structure ReadOutcome where
  path : Text
  offset : Nat
  lines : List FileTextLine
  totalLines : Nat
deriving DecidableEq

def execute (caps : ReadToolCaps) (args : ReadArgs) (target : ReadTarget) :
    Except ReadError ReadOutcome := do
  let input ← parseReadArgs args caps.limit
  match buildWindow (target.chunks caps)
      { offset := input.offset, limit := input.limit, maxLineLength := caps.maxLineLength
        maxBytes := caps.maxBytes } target.displayPath with
  | .error error => .error (.fs error)
  | .ok window =>
    .ok { path := target.displayPath, offset := input.offset, lines := window.lines
          totalLines := window.totalLines }

/-- What `render` formats: the byte-cap flag is read back from the stored result. -/
def presented (input : ReadInput) (value : ReadOutcome) : FileReadOutcome :=
  let endLine := match value.lines.getLast? with
    | some line => line.number
    | none => value.offset - 1
  { offset := value.offset, lines := value.lines, totalLines := value.totalLines
    truncatedByBytes := decide (value.lines.length < input.limit) && decide (endLine < value.totalLines) }

def render (caps : ReadToolCaps) (args : ReadArgs) (value : ReadOutcome) : Except ReadError Text := do
  let input ← parseReadArgs args caps.limit
  pure (formatReadOutput value.path (presented input value))

/-- One call: the outcome, and the footer its rendering ends in. -/
def read (caps : ReadToolCaps) (args : ReadArgs) (target : ReadTarget) : Except ReadError (ReadOutcome × Footer) := do
  let value ← execute caps args target
  let input ← parseReadArgs args caps.limit
  pure (value, footerOf (presented input value))

/-! ## Following the footers -/

structure ReadCall where
  filePath : Text
  limit : Option Rat
  target : ReadTarget

inductive Followed where
  /-- A footer said that the file ended. -/
  | ended (lines : List FileTextLine)
  | failed (error : ReadError)
  /-- Calls ran out before. -/
  | unfinished (lines : List FileTextLine)
deriving DecidableEq, Repr

/-- **The walk.**  At most `n` more calls, behind the lines that came before. -/
def follow (caps : ReadToolCaps) (calls : Nat → ReadCall) : Nat → Nat → Option Rat → List FileTextLine → Followed
  | 0, _, _, lines => .unfinished lines
  | n + 1, i, offset, lines =>
    let call := calls i
    match read caps { filePath := call.filePath, offset, limit := call.limit } call.target with
    | .error error => .failed error
    | .ok (value, footer) =>
      match footer.nextOffset with
      | none => .ended (lines ++ value.lines)
      | some next => follow caps calls n (i + 1) (some next) (lines ++ value.lines)

/-- The call reads this text, with a path and a limit the tool accepts. -/
structure ReadCall.Accepted (call : ReadCall) (caps : ReadToolCaps) (t : Text) : Prop where
  reads : call.target.contents = t
  path : (trim call.filePath).length ≠ 0
  limit : ∀ value ∈ call.limit, ∃ n : Nat, value = n ∧ 1 ≤ n ∧ n ≤ caps.limit

/-! ## One call -/

variable {n : Nat}

theorem positiveInteger?_natCast (h : 1 ≤ n) : positiveInteger? (n : Rat) = some n := by
  rw [positiveInteger?, if_pos ⟨Rat.den_natCast n, by rw [Rat.num_natCast]; omega⟩, Rat.num_natCast, Int.toNat_natCast]

variable {value : Rat}

theorem positiveInteger?_pos (h : positiveInteger? value = some n) : 1 ≤ n := by
  unfold positiveInteger? at h
  split at h
  · next hvalue =>
    cases h
    omega
  · cases h

theorem assertPositiveInteger_pos {name : String} (h : assertPositiveInteger name value = .ok n) : 1 ≤ n := by
  unfold assertPositiveInteger at h
  split at h
  · next hvalue =>
    cases h
    exact positiveInteger?_pos hvalue
  · cases h

variable {caps : ReadToolCaps}

theorem readToolCaps_limit {resolved : ResolvedConfig} (h : readToolCaps resolved = .ok caps) : 1 ≤ caps.limit := by
  unfold readToolCaps at h
  obtain ⟨limit, hlimit, h⟩ := bind_eq_ok_iff.mp h
  obtain ⟨maxLineLength, -, h⟩ := bind_eq_ok_iff.mp h
  obtain ⟨maxBytes, -, h⟩ := bind_eq_ok_iff.mp h
  obtain ⟨streamMinSize, -, h⟩ := bind_eq_ok_iff.mp h
  cases h
  exact assertPositiveInteger_pos hlimit

def ReadCall.effectiveLimit (call : ReadCall) (caps : ReadToolCaps) : Nat :=
  match call.limit with
  | none => caps.limit
  | some value => value.num.toNat

variable {call : ReadCall}

theorem ReadCall.Accepted.one_le {t : Text} (h : call.Accepted caps t)
    (hcaps : 1 ≤ caps.limit) : 1 ≤ call.effectiveLimit caps := by
  unfold ReadCall.effectiveLimit
  cases hlimit : call.limit with
  | none => exact hcaps
  | some value =>
    obtain ⟨n, rfl, hpos, -⟩ := h.limit value hlimit
    simpa using hpos

/-- The offset argument of a call: none for the first, the footer's for the others. -/
def offsetArg (offset : Nat) (given : Option Rat) : Prop := given = some (offset : Rat) ∨ given = none ∧ offset = 1

theorem ReadCall.Accepted.parse {t : Text} {offset : Nat} {given : Option Rat} (h : call.Accepted caps t) (hoffset : 0 < offset) (hgiven : offsetArg offset given) :
    parseReadArgs { filePath := call.filePath, offset := given, limit := call.limit } caps.limit =
      .ok { filePath := call.filePath, offset, limit := call.effectiveLimit caps } := by
  have hparsed : parseOptional given "offset" 1 = .ok offset := by
    rcases hgiven with rfl | ⟨rfl, rfl⟩
    · simp only [parseOptional, parsePositiveInteger, positiveInteger?_natCast hoffset]
    · rfl
  have hlimit : parseOptional call.limit "limit" caps.limit = .ok (call.effectiveLimit caps)
      ∧ call.effectiveLimit caps ≤ caps.limit := by
    unfold ReadCall.effectiveLimit
    cases hlimit : call.limit with
    | none => exact ⟨rfl, le_rfl⟩
    | some value =>
      obtain ⟨n, rfl, hpos, hle⟩ := h.limit value hlimit
      show parseOptional (some (n : Rat)) "limit" caps.limit = .ok ((n : Rat).num.toNat) ∧ _
      rw [Rat.num_natCast, Int.toNat_natCast, parseOptional, parsePositiveInteger, positiveInteger?_natCast hpos]
      exact ⟨rfl, hle⟩
  unfold parseReadArgs
  simp only [if_neg h.path, hparsed, hlimit.1, ok_bind, pure_eq_ok, if_neg (not_lt.mpr hlimit.2)]

theorem ReadTarget.flatten_chunks (target : ReadTarget) (caps : ReadToolCaps) :
    (target.chunks caps).flatten = target.contents := by
  unfold ReadTarget.chunks
  split
  · exact target.streamed
  · split
    · exact target.streamed
    · simp

/-! ## The walk over display lines -/

section Walk

variable {caps : ReadToolCaps} {t : Text}

variable (caps t) in
def shownLines : List Text := (rawLines t).map (scannedLine caps.maxLineLength)

variable (caps t) in
def shownCount (offset limit : Nat) : Nat :=
  (shownRun { offset, limit, maxLineLength := caps.maxLineLength, maxBytes := caps.maxBytes }
    (shownLines caps t)).length

/-- An offset a walk can stand at: on a line, or at the start of an empty text. -/
def OnLine (caps : ReadToolCaps) (t : Text) (offset : Nat) : Prop :=
  0 < offset ∧ (offset ≤ (shownLines caps t).length ∨ offset = 1)

variable (caps) in
def windowAt (offset limit : Nat) : ReadWindow :=
  { offset, limit, maxLineLength := caps.maxLineLength, maxBytes := caps.maxBytes }

theorem shownRun_eq_take (offset limit : Nat) : shownRun (windowAt caps offset limit) (shownLines caps t) =
      ((shownLines caps t).drop (offset - 1)).take (shownCount caps t offset limit) := by
  have hle := length_shownRun_le (windowAt caps offset limit) (shownLines caps t)
  have hlimit : (windowed (windowAt caps offset limit) (shownLines caps t)).length ≤ limit := by
    rw [windowed, length_take]
    exact min_le_left _ _
  show FittingPrefix.fitting _ _ _ = _
  rw [FittingPrefix.fitting, ← FittingPrefix.length_fitting]
  show (windowed (windowAt caps offset limit) (shownLines caps t)).take
    (shownRun (windowAt caps offset limit) (shownLines caps t)).length = _
  rw [windowed, take_take]
  exact congrArg (fun n => List.take n _) (min_eq_left (le_trans hle hlimit))

theorem getLast?_numbered (offset : Nat) (lines : List Text) : (match (numbered offset lines).getLast? with
      | some line => line.number
      | none => offset - 1) = if lines = [] then offset - 1 else offset + (lines.length - 1) := by
  cases lines using List.reverseRecOn with
  | nil => rfl
  | append_singleton front last =>
    rw [numbered_snoc, List.getLast?_concat, if_neg (by simp), length_append, length_singleton, Nat.add_sub_cancel]

variable {offset : Nat}

theorem endLine_numbered (h : 0 < offset) (lines : List Text) : (match (numbered offset lines).getLast? with
      | some line => line.number
      | none => offset - 1) = offset - 1 + lines.length := by
  rw [getLast?_numbered]
  split
  · next hnil => rw [hnil]; rfl
  · next hcons =>
    have := length_pos_of_ne_nil hcons
    omega

theorem scannedWindow_onLine (h : OnLine caps t offset) (limit : Nat) (displayPath : Text) :
    scannedWindow t (windowAt caps offset limit) displayPath
      = .ok (windowOf (windowAt caps offset limit) (shownLines caps t)) := by
  rw [scannedWindow]
  show (if (shownLines caps t).length < offset ∧ ¬ (t = [] ∧ offset = 1) then _ else _) = _
  rw [if_neg]
  · rfl
  · rintro ⟨hpast, hempty⟩
    rcases h.2 with hle | hone
    · omega
    · have hzero : (shownLines caps t).length = 0 := by omega
      rw [shownLines, length_map, length_eq_zero_iff, rawLines_eq_nil_iff] at hzero
      exact hempty ⟨hzero, hone⟩

theorem nextOffset_presented (input : ReadInput) (value : ReadOutcome) (hoffset : 0 < value.offset)
    {lines : List Text} (hlines : value.lines = numbered value.offset lines) :
    (footerOf (presented input value)).nextOffset =
      if value.offset - 1 + lines.length < value.totalLines then some (value.offset + lines.length)
      else none := by
  have hend : (presented input value).endLine = value.offset - 1 + lines.length := by
    show (match value.lines.getLast? with
      | some line => line.number
      | none => value.offset - 1) = _
    rw [hlines, endLine_numbered hoffset]
  have htruncated : (presented input value).truncatedByBytes = true →
      value.offset - 1 + lines.length < value.totalLines := by
    intro h
    have h' : (decide (value.lines.length < input.limit) && decide
      ((match value.lines.getLast? with
        | some line => line.number
        | none => value.offset - 1) < value.totalLines)) = true := h
    rw [hlines, endLine_numbered hoffset, Bool.and_eq_true, decide_eq_true_eq, decide_eq_true_eq] at h'
    exact h'.2
  have hnext : value.offset - 1 + lines.length + 1 = value.offset + lines.length := by omega
  unfold footerOf
  split
  · next hcapped =>
    rw [if_pos (htruncated hcapped), ← hnext, ← hend]
    rfl
  · show (if (presented input value).endLine < value.totalLines then _ else _ : Footer).nextOffset = _
    rw [hend]
    split
    · rw [← hnext]; rfl
    · rfl

variable {given : Option Rat}

/-- **What one call shows**: the longest run from its offset, and a footer while lines are left. -/
theorem read_at (hcall : call.Accepted caps t) (hoffset : OnLine caps t offset) (hgiven : offsetArg offset given) :
    ∃ value footer, read caps { filePath := call.filePath, offset := given, limit := call.limit } call.target
        = .ok (value, footer) ∧
      value.lines = numbered offset (((shownLines caps t).drop (offset - 1)).take
        (shownCount caps t offset (call.effectiveLimit caps))) ∧
      footer.nextOffset =
        if offset - 1 + shownCount caps t offset (call.effectiveLimit caps) < (shownLines caps t).length
        then some (offset + shownCount caps t offset (call.effectiveLimit caps)) else none := by
  have hparse := hcall.parse hoffset.1 hgiven
  set limit := call.effectiveLimit caps with hlimit
  set value : ReadOutcome :=
    { path := call.target.displayPath, offset := offset
      lines := numbered offset (shownRun (windowAt caps offset limit) (shownLines caps t))
      totalLines := (shownLines caps t).length } with hvalue
  have hwindow : buildWindow (call.target.chunks caps)
      { offset := offset, limit := limit, maxLineLength := caps.maxLineLength
        maxBytes := caps.maxBytes } call.target.displayPath
      = .ok (windowOf (windowAt caps offset limit) (shownLines caps t)) := by
    rw [buildWindow_eq _ _ _ hoffset.1, ReadTarget.flatten_chunks, hcall.reads]
    exact scannedWindow_onLine hoffset limit _
  have hexecute : execute caps { filePath := call.filePath, offset := given, limit := call.limit }
      call.target = .ok value := by
    simp only [execute, hparse, ok_bind, hwindow]
    rfl
  refine ⟨value, footerOf (presented { filePath := call.filePath, offset, limit } value), ?_, ?_, ?_⟩
  · unfold read
    rw [hexecute, ok_bind, hparse, ok_bind]
    rfl
  · rw [← shownRun_eq_take]
  · exact nextOffset_presented _ value hoffset.1 rfl

/-! ## Whole walks -/

variable {limit : Nat}

theorem shownCount_pos (hfits : ∀ line ∈ shownLines caps t, byteLength line ≤ caps.maxBytes) (hlimit : 1 ≤ limit) (hoffset : 0 < offset)
    (hle : offset ≤ (shownLines caps t).length) : 0 < shownCount caps t offset limit := by
  have hlen : 1 ≤ (windowed (windowAt caps offset limit) (shownLines caps t)).length := by
    rw [windowed, length_take, length_drop]
    show 1 ≤ min limit ((shownLines caps t).length - (offset - 1))
    omega
  show 1 ≤ (shownRun (windowAt caps offset limit) (shownLines caps t)).length
  rw [length_shownRun]
  apply (joinedBytes_grows.le_fitLength_iff (Nat.zero_le _) hlen).mpr
  rcases hwin : windowed (windowAt caps offset limit) (shownLines caps t) with _ | ⟨line, rest⟩
  · rw [hwin] at hlen
    exact absurd hlen (by decide)
  · have hmem : line ∈ shownLines caps t := by
      apply mem_of_mem_drop
      apply mem_of_mem_take
      show line ∈ windowed (windowAt caps offset limit) (shownLines caps t)
      rw [hwin]
      exact mem_cons_self
    show byteLength (line ++ []) ≤ caps.maxBytes
    rw [append_nil]
    exact hfits line hmem

variable {j : Nat} {line : Text}

theorem shownCount_stops (hline : (shownLines caps t)[j]? = some line)
    (hover : caps.maxBytes < byteLength line) (hpos : 0 < offset) (hle : offset ≤ j + 1) :
    offset - 1 + shownCount caps t offset limit ≤ j := by
  by_contra hreach
  obtain ⟨d, rfl⟩ : ∃ d, j = offset - 1 + d := Nat.exists_eq_add_of_le (by omega)
  have hlong : d + 1 ≤ (shownRun (windowAt caps offset limit) (shownLines caps t)).length := by
    show d + 1 ≤ shownCount caps t offset limit
    omega
  have hwin := le_trans hlong (length_shownRun_le (windowAt caps offset limit) (shownLines caps t))
  have hget : (windowed (windowAt caps offset limit) (shownLines caps t))[d]? = some line := by
    have hlt : d < limit := by
      rw [windowed, length_take] at hwin
      exact lt_of_lt_of_le (lt_succ_self d) (le_trans hwin (min_le_left _ _))
    show ((((shownLines caps t).drop (offset - 1)).take limit))[d]? = some line
    rw [getElem?_take_of_lt hlt, getElem?_drop, hline]
  rw [length_shownRun] at hlong
  have hbytes := (joinedBytes_grows.le_fitLength_iff (Nat.zero_le _) hwin).mp hlong
  rw [← take_append_getElem (Nat.lt_of_succ_le hwin), (List.getElem?_eq_some_iff.mp hget).2,
    joinedBytes_snoc, lineByteSize] at hbytes
  have hcap : (windowAt caps offset limit).maxBytes = caps.maxBytes := rfl
  omega

theorem numbered_append (offset : Nat) (xs ys : List Text) :
    numbered offset (xs ++ ys) = numbered offset xs ++ numbered (offset + xs.length) ys := by
  simp [numbered, mapIdx_append, add_assoc, add_comm xs.length]

variable {calls : Nat → ReadCall}

/-- **A walk whose lines all fit ends**, behind all lines from its offset on. -/
theorem follow_ends (hcalls : ∀ i, (calls i).Accepted caps t)
    (hcaps : 1 ≤ caps.limit) (hfits : ∀ line ∈ shownLines caps t, byteLength line ≤ caps.maxBytes)
    (m i : Nat) (hm : (shownLines caps t).length < offset + m) (hoffset : OnLine caps t offset)
    (hgiven : offsetArg offset given) (lines : List FileTextLine) :
    ∃ n, follow caps calls n i given lines
      = .ended (lines ++ numbered offset ((shownLines caps t).drop (offset - 1))) := by
  induction m generalizing i offset given lines with
  | zero =>
    -- past the last line stands only the start of an empty text
    obtain ⟨value, footer, hread, hvalue, hnext⟩ := read_at (hcalls i) hoffset hgiven
    refine ⟨1, ?_⟩
    rw [if_neg (by omega)] at hnext
    rw [drop_eq_nil_of_le (by omega), take_nil] at hvalue
    simp only [follow, hread, hnext, hvalue]
    rw [drop_eq_nil_of_le (by omega)]
  | succ m ih =>
    obtain ⟨value, footer, hread, hvalue, hnext⟩ := read_at (hcalls i) hoffset hgiven
    set count := shownCount caps t offset ((calls i).effectiveLimit caps) with hcount
    by_cases hleft : offset - 1 + count < (shownLines caps t).length
    · rw [if_pos hleft] at hnext
      have hpos := hoffset.1
      have hmoved : 0 < count := by
        apply shownCount_pos hfits ((hcalls i).one_le hcaps) hpos
        omega
      have harg : offsetArg (offset + count) (some ((offset + count : Nat) : Rat)) := Or.inl rfl
      obtain ⟨n, hn⟩ := ih (i + 1) (by omega) ⟨by omega, Or.inl (by omega)⟩ harg
        (lines ++ value.lines)
      refine ⟨n + 1, ?_⟩
      have hlen : (((shownLines caps t).drop (offset - 1)).take count).length = count := by
        rw [length_take, length_drop]
        omega
      have hrest : (shownLines caps t).drop (offset + count - 1)
          = ((shownLines caps t).drop (offset - 1)).drop count := by
        rw [drop_drop]
        congr 1
        omega
      simp only [follow, hread, hnext]
      rw [hn, hvalue, hrest, append_assoc]
      conv_rhs => rw [← take_append_drop count ((shownLines caps t).drop (offset - 1)), numbered_append, hlen]
    · rw [if_neg hleft] at hnext
      refine ⟨1, ?_⟩
      simp only [follow, hread, hnext, hvalue]
      rw [take_of_length_le]
      rw [length_drop]
      omega

/-- **A walk in front of a line that does not fit never ends.** -/
theorem follow_stuck (hcalls : ∀ i, (calls i).Accepted caps t) (hline : (shownLines caps t)[j]? = some line)
    (hover : caps.maxBytes < byteLength line) (n i : Nat) (hpos : 0 < offset) (hle : offset ≤ j + 1)
    (hgiven : offsetArg offset given) (lines : List FileTextLine) :
    ∃ lines', follow caps calls n i given lines = .unfinished lines' := by
  induction n generalizing i offset given lines with
  | zero => exact ⟨lines, rfl⟩
  | succ n ih =>
    have hj : j < (shownLines caps t).length := (List.getElem?_eq_some_iff.mp hline).1
    obtain ⟨value, footer, hread, hvalue, hnext⟩ := read_at (hcalls i) ⟨hpos, Or.inl (by omega)⟩ hgiven
    have hstop : offset - 1 + shownCount caps t offset ((calls i).effectiveLimit caps) ≤ j :=
      shownCount_stops hline hover hpos hle
    rw [if_pos (by omega)] at hnext
    simp only [follow, hread, hnext]
    exact ih (i + 1) (by omega) (by omega) (Or.inl rfl) _

end Walk

/-- **When reading by the footers covers a file.**  Whatever the limits and the chunks, the walk from the first line
ends with every line of the file once and in order exactly when each line, as shown, by itself fits the byte cap. -/
theorem follow_covers_iff {calls : Nat → ReadCall} {t : Text} {config : ResolvedConfig} (hconfig : readToolCaps config = .ok caps)
    (hcalls : ∀ i, (calls i).Accepted caps t) :
    (∃ n, follow caps calls n 0 none [] = .ended (numbered 1 (shownLines caps t))) ↔
      ∀ line ∈ shownLines caps t, byteLength line ≤ caps.maxBytes := by
  have hlimit := readToolCaps_limit hconfig
  constructor
  · rintro ⟨n, hended⟩ line hmem
    by_contra hover
    obtain ⟨j, hj⟩ := mem_iff_getElem?.mp hmem
    obtain ⟨lines', hstuck⟩ := follow_stuck hcalls hj (Nat.not_le.mp hover) n 0 Nat.one_pos
      (by omega) (Or.inr ⟨rfl, rfl⟩) []
    rw [hstuck] at hended
    cases hended
  · intro hfits
    exact follow_ends hcalls hlimit hfits (shownLines caps t).length 0 (by omega)
      ⟨Nat.one_pos, Or.inr rfl⟩ (Or.inr ⟨rfl, rfl⟩) []

def smallConfig : ResolvedConfig :=
  { readLimit := 2, readMaxLineLength := 8, readMaxBytes := 3, readStreamMinSize := 1 }

def smallCaps : ReadToolCaps := { limit := 2, maxLineLength := 8, maxBytes := 3, streamMinSize := 1 }

theorem smallConfig_accepted : readToolCaps smallConfig = .ok smallCaps := by
  have htwo : assertPositiveInteger "readLimit" smallConfig.readLimit = .ok 2 := by decide +kernel
  have height : assertPositiveInteger "readMaxLineLength" smallConfig.readMaxLineLength = .ok 8 := by decide +kernel
  have hthree : assertPositiveInteger "readMaxBytes" smallConfig.readMaxBytes = .ok 3 := by decide +kernel
  have hone : assertPositiveInteger "readStreamMinSize" smallConfig.readStreamMinSize = .ok 1 := by decide +kernel
  simp only [readToolCaps, htwo, height, hthree, hone, ok_bind]
  rfl

def plainCall (t : Text) : ReadCall :=
  { filePath := text "f"
    limit := none
    target := { displayPath := text "f", size := none, contents := t, stream := [t]
                streamed := by simp } }

theorem plainCall_accepted (caps : ReadToolCaps) (t : Text) : (plainCall t).Accepted caps t :=
  { reads := rfl
    path := by show (trim (text "f")).length ≠ 0; decide
    limit := by intro value h; cases h }

/-- Three lines of two bytes, under a cap of three. -/
theorem follow_covers_three_lines : ∃ n, follow smallCaps (fun _ => plainCall (text "ab\r\ncd\nef")) n 0 none [] =
      .ended [{ number := 1, text := text "ab" }, { number := 2, text := text "cd" },
        { number := 3, text := text "ef" }] := by
  have hfits : (shownLines smallCaps (text "ab\r\ncd\nef")).all
      (fun line => decide (byteLength line ≤ smallCaps.maxBytes)) = true := by decide +kernel
  have hlines : numbered 1 (shownLines smallCaps (text "ab\r\ncd\nef")) =
      [{ number := 1, text := text "ab" }, { number := 2, text := text "cd" },
        { number := 3, text := text "ef" }] := by decide +kernel
  rw [← hlines]
  apply (follow_covers_iff smallConfig_accepted (fun _ => plainCall_accepted smallCaps (text "ab\r\ncd\nef"))).mpr
  intro line hmem
  exact of_decide_eq_true (all_eq_true.mp hfits line hmem)

/-- One line of four bytes under a cap of three: the first call shows nothing and names its own offset. -/
theorem follow_never_ends : readToolCaps smallConfig = .ok smallCaps ∧
    (plainCall (text "abcd\n")).Accepted smallCaps (text "abcd\n") ∧
    ∀ n lines, follow smallCaps (fun _ => plainCall (text "abcd\n")) n 0 none [] ≠ .ended lines := by
  refine ⟨smallConfig_accepted, plainCall_accepted _ _, ?_⟩
  intro n lines hended
  have hline : (shownLines smallCaps (text "abcd\n"))[0]? = some (text "abcd") := by decide +kernel
  obtain ⟨lines', hstuck⟩ := follow_stuck (fun _ => plainCall_accepted smallCaps (text "abcd\n")) hline
    (show smallCaps.maxBytes < byteLength (text "abcd") by decide +kernel) n 0 Nat.one_pos (Nat.le_refl 1)
    (Or.inr ⟨rfl, rfl⟩) []
  rw [hstuck] at hended
  cases hended

end CocoHarness.Files
