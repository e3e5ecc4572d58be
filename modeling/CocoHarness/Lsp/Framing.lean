/-
# CocoHarness.Lsp.Framing — what a server says does not depend on how its bytes arrive.

A decoder takes chunks of a byte stream and hands out the messages that they complete.  What `encodeMessage` has
framed comes out as it went in, however it is cut.  Of other streams this holds if no frame is refused and every
header block is two bytes shorter than allowed: a frame that is refused takes the messages with it that arrived in
the same chunk, and a long header block is refused when its terminator is cut.
-/
import CocoHarness.Lib.SafeQuotient
import CocoHarness.Lib.Utf8
import CocoHarness.SessionLog.JsonValue

namespace CocoHarness.Lsp

open Lib SessionLog List Numeral Nat JsonText

/-! ## Bytes -/

def indexOf (pattern buffer : List UInt8) : Option Nat := buffer.tails.findIdx? pattern.isPrefixOf

/-- `buffer.toString('ascii')`: the highest bit of every byte is dropped. -/
def asciiText (bytes : List UInt8) : List Char := bytes.map fun b => Char.ofNat (b.toNat % 128)

def asciiBytes (text : List Char) : List UInt8 := text.map fun c => UInt8.ofNat c.toNat

def headerSeparator : List UInt8 := asciiBytes ['\r', '\n', '\r', '\n']

def maxHeaderBytes : Nat := 65536

/-! ## Numbers -/

def isWhite (c : Char) : Bool := decide (9 ≤ c.toNat ∧ c.toNat ≤ 13 ∨ c.toNat = 32)

def trim (text : List Char) : List Char := ((text.dropWhile isWhite).reverse.dropWhile isWhite).reverse

def radixLiteral (base : Nat) (digits : List Char) : Option ℚ := do
  guard (digits ≠ [])
  let values ← digits.mapM fun c => (List.range base).find? fun d => c.toLower = d.digitChar
  return (Nat.ofDigits base values.reverse : Nat)

def exponentPart : List Char → Option Int
  | [] => some 0
  | e :: rest => do
    guard (e.toLower = 'e')
    let (sign, digits) := match rest with
      | '-' :: digits => ((-1 : Int), digits)
      | '+' :: digits => (1, digits)
      | digits => (1, digits)
    guard (digits ≠ [] ∧ digits.all Numeral.isDigit)
    return sign * Numeral.digitsVal digits

def decimalLiteral (text : List Char) : Option ℚ := do
  let whole := text.takeWhile Numeral.isDigit
  let (fraction, rest) := match text.dropWhile Numeral.isDigit with
    | '.' :: rest => (rest.takeWhile Numeral.isDigit, rest.dropWhile Numeral.isDigit)
    | rest => ([], rest)
  guard (whole ++ fraction ≠ [])
  let exponent ← exponentPart rest
  return (Numeral.digitsVal (whole ++ fraction) : ℚ) * 10 ^ (exponent - fraction.length)

/-- The double that a magnitude is read as; none where it is too large. -/
def toDouble (x : ℚ) : Option ℚ :=
  let rounded := if x ≤ 2 ^ (-1075 : Int) then 0 else SafeInteger.roundQuotient x
  if rounded < 2 ^ 1024 then some rounded else none

def toNumber : List Char → Option ℚ
  | [] => some 0
  | '0' :: 'x' :: digits | '0' :: 'X' :: digits => (radixLiteral 16 digits).bind toDouble
  | '0' :: 'o' :: digits | '0' :: 'O' :: digits => (radixLiteral 8 digits).bind toDouble
  | '0' :: 'b' :: digits | '0' :: 'B' :: digits => (radixLiteral 2 digits).bind toDouble
  | '-' :: text => ((decimalLiteral text).bind toDouble).map (- ·)
  | '+' :: text => (decimalLiteral text).bind toDouble
  | text => (decimalLiteral text).bind toDouble

/-! ## The header -/

def splitLines : List Char → List (List Char)
  | [] => [[]]
  | '\r' :: '\n' :: rest => [] :: splitLines rest
  | c :: rest =>
    match splitLines rest with
    | [] => [[c]]
    | line :: lines => (c :: line) :: lines

def contentLengthOf (headerText : List Char) : List (List Char) → Except JsError Nat
  | [] => .error (.error s!"LSP header block missing Content-Length: {String.ofList (JsonText.quoted headerText)}")
  | line :: lines =>
    let name := line.takeWhile (· ≠ ':')
    if name = line ∨ (trim name).map Char.toLower ≠ "content-length".toList then contentLengthOf headerText lines
    else
      match toNumber (trim (line.drop (name.length + 1))) with
      | some value =>
        if value.den = 1 ∧ 0 ≤ value then .ok value.num.toNat
        else .error (.error s!"invalid Content-Length header: {String.ofList (JsonText.quoted line)}")
      | none => .error (.error s!"invalid Content-Length header: {String.ofList (JsonText.quoted line)}")

def parseContentLength (headerText : List Char) : Except JsError Nat :=
  contentLengthOf headerText (splitLines headerText)

/-! ## Frames -/

/-- `MessageDecoder.next`: a message and the bytes that follow it, if it is complete. -/
def next (maxMessageBytes : Nat) (buffer : List UInt8) : Except JsError (Option (Json × List UInt8)) :=
  match indexOf headerSeparator buffer with
  | none =>
    if maxHeaderBytes < buffer.length then
      .error (.error s!"LSP header exceeded {maxHeaderBytes} bytes without a terminator")
    else .ok none
  | some separator =>
    if maxHeaderBytes < separator then .error (.error s!"LSP header exceeded {maxHeaderBytes} bytes")
    else
      match parseContentLength (asciiText (buffer.take separator)) with
      | .error e => .error e
      | .ok contentLength =>
        if maxMessageBytes < contentLength then
          .error (.error s!"LSP message length {contentLength} exceeds the {maxMessageBytes}-byte limit")
        else
          let bodyStart := separator + headerSeparator.length
          let bodyEnd := bodyStart + contentLength
          if buffer.length < bodyEnd then .ok none
          else
            match JsonText.parse (Utf8.decode ((buffer.drop bodyStart).take contentLength)) with
            | some message => .ok (some (message, buffer.drop bodyEnd))
            -- The engine's text follows.
            | none => .error (.error "LSP message body was not valid JSON: ")

theorem next_lt {limit : Nat} {buffer rest : List UInt8} {message : Json}
    (h : next limit buffer = .ok (some (message, rest))) : rest.length < buffer.length := by
  simp only [next] at h
  repeat' split at h
  all_goals cases h
  next hlong _ _ =>
    rw [length_drop]
    have : headerSeparator.length = 4 := rfl
    omega

/-- The loop of `MessageDecoder.push`: the complete messages, and the bytes left. -/
def drain (limit : Nat) (buffer : List UInt8) : Except JsError (List Json × List UInt8) :=
  match _h : next limit buffer with
  | .error e => .error e
  | .ok none => .ok ([], buffer)
  | .ok (some (message, rest)) => (drain limit rest).map fun (messages, buffer) => (message :: messages, buffer)
termination_by buffer.length
decreasing_by exact next_lt _h

def push (limit : Nat) (buffer chunk : List UInt8) : Except JsError (List Json × List UInt8) :=
  drain limit (buffer ++ chunk)

/-- `LspConnection.onStdout` for chunk after chunk: the messages before the first error, and whether there is one. -/
def received (limit : Nat) (buffer : List UInt8) : List (List UInt8) → List Json × Bool
  | [] => ([], false)
  | chunk :: chunks =>
    match push limit buffer chunk with
    | .error _ => ([], true)
    | .ok (messages, buffer) =>
      let (later, failed) := received limit buffer chunks
      (messages ++ later, failed)

/-! ## The first occurrence -/

variable {pattern p q buffer : List UInt8} {i limit n : Nat}

theorem indexOf_eq_some_iff : indexOf pattern buffer = some i ↔
    i ≤ buffer.length ∧ pattern <+: buffer.drop i ∧ ∀ j < i, ¬ pattern <+: buffer.drop j := by
  simp only [indexOf, findIdx?_eq_some_iff_getElem, getElem_tails, isPrefixOf_iff_prefix,
    length_tails, Nat.lt_succ_iff, exists_prop, Bool.not_eq_true, Bool.eq_false_iff, ne_eq]

theorem indexOf_eq_none_iff : indexOf pattern buffer = none ↔ ∀ j ≤ buffer.length, ¬ pattern <+: buffer.drop j := by
  simp only [indexOf, findIdx?_eq_none_iff, mem_tails, Bool.eq_false_iff, ne_eq, isPrefixOf_iff_prefix]
  constructor
  · intro h j _
    exact h _ (drop_suffix j buffer)
  · rintro h _ ⟨before, rfl⟩
    have := h before.length (by simp)
    rwa [drop_left] at this

/-- An occurrence ends within the text. -/
theorem prefix_drop_le (hne : pattern ≠ []) (h : pattern <+: buffer.drop i) : i + pattern.length ≤ buffer.length := by
  have hlength := h.length_le
  have := length_pos_iff.mpr hne
  rw [length_drop] at hlength
  omega

theorem prefix_drop_append (h : i + pattern.length ≤ p.length) :
    pattern <+: (p ++ q).drop i ↔ pattern <+: p.drop i := by
  rw [drop_append_of_le_length (by omega)]
  constructor
  · intro hfront
    exact prefix_of_prefix_length_le hfront (prefix_append ..) (by rw [length_drop]; omega)
  · intro hfront
    exact hfront.trans (prefix_append ..)

/-- **More bytes**: an occurrence stays the first one, and a new one ends among them. -/
theorem indexOf_append (hne : pattern ≠ []) : indexOf pattern (p ++ q) = indexOf pattern p ∨
    indexOf pattern p = none ∧ ∀ i, indexOf pattern (p ++ q) = some i → p.length < i + pattern.length := by
  cases hp : indexOf pattern p with
  | some i =>
    left
    obtain ⟨-, hfront, hfirst⟩ := indexOf_eq_some_iff.mp hp
    have hle := prefix_drop_le hne hfront
    refine indexOf_eq_some_iff.mpr ⟨by rw [length_append]; omega, (prefix_drop_append hle).mpr hfront, ?_⟩
    intro j hj hother
    exact hfirst j hj ((prefix_drop_append (by omega)).mp hother)
  | none =>
    right
    refine ⟨rfl, fun i hi => ?_⟩
    obtain ⟨-, hfront, -⟩ := indexOf_eq_some_iff.mp hi
    by_contra hle
    rw [prefix_drop_append (by omega)] at hfront
    exact indexOf_eq_none_iff.mp hp i (by omega) hfront

/-! ## One frame -/

variable {bytes rest : List UInt8} {separator : Nat} {message : Json} {messages : List Json}

/-- The stream begins with a header block that the decoder accepts. -/
structure HeaderAt (limit : Nat) (bytes : List UInt8) (separator n : Nat) : Prop where
  found : indexOf headerSeparator bytes = some separator
  short : separator ≤ maxHeaderBytes
  length : parseContentLength (asciiText (bytes.take separator)) = .ok n
  within : n ≤ limit

theorem separator_le (h : indexOf headerSeparator bytes = some separator) : separator + 4 ≤ bytes.length :=
  @prefix_drop_le headerSeparator bytes separator nofun (indexOf_eq_some_iff.mp h).2.1

theorem separator_append (p q : List UInt8) :
    indexOf headerSeparator (p ++ q) = indexOf headerSeparator p ∨ indexOf headerSeparator p = none ∧
      ∀ separator, indexOf headerSeparator (p ++ q) = some separator → p.length < separator + 4 :=
  indexOf_append nofun

theorem HeaderAt.le (h : HeaderAt limit bytes separator n) : separator + 4 ≤ bytes.length := separator_le h.found

theorem HeaderAt.next_eq (h : HeaderAt limit bytes separator n) :
    next limit bytes = if bytes.length < separator + 4 + n then .ok none
      else match parse (Utf8.decode ((bytes.drop (separator + 4)).take n)) with
        | some message => .ok (some (message, bytes.drop (separator + 4 + n)))
        | none => .error (.error "LSP message body was not valid JSON: ") := by
  simp only [next, h.found, h.length, if_neg (not_lt.mpr h.short), if_neg (not_lt.mpr h.within)]
  rfl

theorem headerAt_append (hle : separator + 4 ≤ p.length) :
    HeaderAt limit (p ++ q) separator n ↔ HeaderAt limit p separator n := by
  have hindex : indexOf headerSeparator (p ++ q) = some separator ↔ indexOf headerSeparator p = some separator := by
    rcases separator_append p q with hsame | ⟨hnone, hlater⟩
    · rw [hsame]
    · rw [hnone]
      refine iff_of_false (fun h => ?_) nofun
      exact absurd (hlater separator h) (not_lt.mpr hle)
  have htake : (p ++ q).take separator = p.take separator := take_append_of_le_length (by omega)
  constructor
  · exact fun h => ⟨hindex.mp h.found, h.short, htake ▸ h.length, h.within⟩
  · exact fun h => ⟨hindex.mpr h.found, h.short, htake.symm ▸ h.length, h.within⟩

/-- What the decoder finds when it refuses nothing. -/
theorem next_ok {found : Option (Json × List UInt8)} (h : next limit bytes = .ok found) :
    (indexOf headerSeparator bytes = none ∧ bytes.length ≤ maxHeaderBytes ∧ found = none) ∨
      ∃ separator n, HeaderAt limit bytes separator n := by
  cases hindex : indexOf headerSeparator bytes with
  | none =>
    simp only [next, hindex] at h
    split at h
    · cases h
    · next hshort =>
      cases h
      exact .inl ⟨rfl, not_lt.mp hshort, rfl⟩
  | some separator =>
    simp only [next, hindex] at h
    right
    split at h
    · cases h
    · next hshort =>
      split at h
      · cases h
      · next n hlength =>
        split at h
        · cases h
        · next hwithin => exact ⟨separator, n, hindex, not_lt.mp hshort, hlength, not_lt.mp hwithin⟩

theorem next_waits (hnone : indexOf headerSeparator bytes = none) (hshort : bytes.length ≤ maxHeaderBytes) :
    next limit bytes = .ok none := by
  simp only [next, hnone]
  exact if_neg (not_lt.mpr hshort)

/-- A message is complete. -/
theorem next_ready : next limit bytes = .ok (some (message, rest)) ↔ ∃ separator n, HeaderAt limit bytes separator n ∧
    separator + 4 + n ≤ bytes.length ∧ parse (Utf8.decode ((bytes.drop (separator + 4)).take n)) = some message ∧
    rest = bytes.drop (separator + 4 + n) := by
  constructor
  · intro h
    rcases next_ok h with ⟨-, -, hnone⟩ | ⟨separator, n, hheader⟩
    · cases hnone
    · rw [hheader.next_eq] at h
      split at h
      · cases h
      · next hlong =>
        split at h
        · next hjson =>
          cases h
          exact ⟨separator, n, hheader, not_lt.mp hlong, hjson, rfl⟩
        · cases h
  · rintro ⟨separator, n, hheader, hlong, hjson, rfl⟩
    rw [hheader.next_eq, if_neg (not_lt.mpr hlong), hjson]

/-- A complete message stays complete, whatever follows. -/
theorem next_append (h : next limit p = .ok (some (message, rest))) (q : List UInt8) :
    next limit (p ++ q) = .ok (some (message, rest ++ q)) := by
  obtain ⟨separator, n, hheader, hlong, hjson, rfl⟩ := next_ready.mp h
  refine next_ready.mpr ⟨separator, n, (headerAt_append hheader.le).mpr hheader, ?_, ?_, ?_⟩
  · rw [length_append]
    omega
  · rw [drop_append_of_le_length hheader.le, take_append_of_le_length (by rw [length_drop]; omega)]
    exact hjson
  · rw [drop_append_of_le_length hlong]

/-! ## The loop -/

theorem drain_error {e : JsError} (h : next limit bytes = .error e) : drain limit bytes = .error e := by
  rw [drain]
  split <;> simp_all

theorem drain_waits (h : next limit bytes = .ok none) : drain limit bytes = .ok ([], bytes) := by
  rw [drain]
  split <;> simp_all

theorem drain_ready (h : next limit bytes = .ok (some (message, rest))) :
    drain limit bytes = (drain limit rest).map fun (messages, buffer) => (message :: messages, buffer) := by
  rw [drain]
  split
  · simp_all
  · simp_all
  · next hnext =>
    cases h.symm.trans hnext
    rfl

/-- What the loop leaves is incomplete. -/
theorem next_of_drain (h : drain limit bytes = .ok (messages, rest)) : next limit rest = .ok none := by
  induction bytes using drain.induct limit generalizing messages rest with
  | case1 bytes e hnext => rw [drain_error hnext] at h; cases h
  | case2 bytes hnext =>
    rw [drain_waits hnext] at h
    cases h
    exact hnext
  | case3 bytes message later hnext ih =>
    rw [drain_ready hnext] at h
    cases hlater : drain limit later with
    | error e => rw [hlater] at h; cases h
    | ok found =>
      rw [hlater] at h
      cases h
      exact ih hlater

/-! ## Streams that can be cut anywhere -/

/-- Complete frames and then an incomplete one, in which no header block comes close to the limit. -/
inductive Reads (limit : Nat) : List UInt8 → List Json → Prop where
  | header {bytes : List UInt8} (hnone : indexOf headerSeparator bytes = none) (hshort : bytes.length ≤ maxHeaderBytes) :
      Reads limit bytes []
  | body {bytes : List UInt8} {separator n : Nat} (hheader : HeaderAt limit bytes separator n)
      (hshort : separator + 2 < maxHeaderBytes) (hopen : bytes.length < separator + 4 + n) : Reads limit bytes []
  | frame {bytes : List UInt8} {separator n : Nat} {message : Json} {messages : List Json}
      (hheader : HeaderAt limit bytes separator n) (hshort : separator + 2 < maxHeaderBytes)
      (hlong : separator + 4 + n ≤ bytes.length)
      (hjson : JsonText.parse (Utf8.decode ((bytes.drop (separator + 4)).take n)) = some message)
      (hrest : Reads limit (bytes.drop (separator + 4 + n)) messages) : Reads limit bytes (message :: messages)

/-- The first frame is refused: its header block is too long, its length missing or too large, or its body not JSON. -/
def Refused (limit : Nat) (bytes : List UInt8) : Prop :=
  match indexOf headerSeparator bytes with
  | none => maxHeaderBytes < bytes.length
  | some separator => maxHeaderBytes < separator ∨
    match parseContentLength (asciiText (bytes.take separator)) with
    | .error _ => True
    | .ok n => limit < n ∨ separator + 4 + n ≤ bytes.length ∧
        JsonText.parse (Utf8.decode ((bytes.drop (separator + 4)).take n)) = none

theorem refused_iff : Refused limit bytes ↔ ∃ e, next limit bytes = .error e := by
  have hlength : headerSeparator.length = 4 := rfl
  simp only [Refused, next, hlength]
  cases indexOf headerSeparator bytes with
  | none => by_cases hlong : maxHeaderBytes < bytes.length <;> simp [hlong]
  | some separator =>
    by_cases hlong : maxHeaderBytes < separator
    · simp [hlong]
    · cases hparsed : parseContentLength (asciiText (bytes.take separator)) with
      | error e => simp [hlong, hparsed]
      | ok n =>
        by_cases hlarge : limit < n
        · simp [hlong, hparsed, hlarge]
        · by_cases hopen : bytes.length < separator + 4 + n
          · simp [hlong, hparsed, hlarge, hopen, not_le.mpr hopen]
          · cases hjson : parse (Utf8.decode ((bytes.drop (separator + 4)).take n)) <;>
              simp [hlong, hparsed, hlarge, hopen, not_lt.mp hopen, hjson]

/-- A cut in front of the body leaves nothing to refuse. -/
theorem HeaderAt.cut (h : HeaderAt limit (p ++ q) separator n) (hshort : separator + 2 < maxHeaderBytes) :
    HeaderAt limit p separator n ∨ next limit p = .ok none := by
  rcases lt_or_ge p.length (separator + 4) with hlt | hge
  · right
    apply next_waits _ (by omega)
    rcases separator_append p q with hsame | ⟨hnone, -⟩
    · exact absurd (separator_le (hsame.symm.trans h.found)) (not_le.mpr hlt)
    · exact hnone
  · exact .inl ((headerAt_append hge).mp h)

/-- **A cut**: what has arrived is handed out as far as it is complete, and the rest reads on. -/
theorem Reads.drain (h : Reads limit bytes messages) (hcut : bytes = p ++ q) :
    ∃ done later left, drain limit p = .ok (done, left) ∧ messages = done ++ later ∧ Reads limit (left ++ q) later := by
  have hwaits : ∀ {p messages}, next limit p = .ok none → Reads limit (p ++ q) messages →
      ∃ done later left, Lsp.drain limit p = .ok (done, left) ∧ messages = done ++ later ∧ Reads limit (left ++ q) later :=
    fun hnext hreads => ⟨[], _, _, drain_waits hnext, rfl, hreads⟩
  induction h generalizing p with
  | header hnone hshort =>
    subst hcut
    apply hwaits _ (.header hnone hshort)
    apply next_waits
    · rcases separator_append p q with hsame | ⟨hnone', -⟩
      · exact hsame.symm.trans hnone
      · exact hnone'
    · rw [length_append] at hshort
      omega
  | body hheader hshort hopen =>
    subst hcut
    apply hwaits _ (.body hheader hshort hopen)
    rcases hheader.cut hshort with hheader' | hnext
    · rw [hheader'.next_eq, if_pos]
      rw [length_append] at hopen
      omega
    · exact hnext
  | @frame bytes separator n message messages hheader hshort hlong hjson hrest ih =>
    subst hcut
    rcases hheader.cut hshort with hheader' | hnext
    · rcases lt_or_ge p.length (separator + 4 + n) with hlt | hge
      · apply hwaits _ (.frame hheader hshort hlong hjson hrest)
        rw [hheader'.next_eq, if_pos hlt]
      · -- The frame is complete.
        obtain ⟨done, later, left, hdrain, hmessages, hreads⟩ := ih (drop_append_of_le_length hge)
        have hready : next limit p = .ok (some (message, p.drop (separator + 4 + n))) := by
          refine next_ready.mpr ⟨separator, n, hheader', hge, ?_, rfl⟩
          rw [← hjson, drop_append_of_le_length hheader'.le, take_append_of_le_length]
          rw [length_drop]
          omega
        refine ⟨message :: done, later, left, ?_, congrArg _ hmessages, hreads⟩
        rw [drain_ready hready, hdrain]
        rfl
    · exact hwaits hnext (.frame hheader hshort hlong hjson hrest)

/-- **However it is cut**, such a stream says the same. -/
theorem Reads.received {chunks : List (List UInt8)} (hnext : next limit buffer = .ok none)
    (h : Reads limit bytes messages) (hcut : buffer ++ chunks.flatten = bytes) :
    received limit buffer chunks = (messages, false) := by
  induction chunks generalizing buffer bytes messages with
  | nil =>
    rw [flatten_nil, append_nil] at hcut
    subst hcut
    cases h with
    | header | body => rfl
    | frame hheader _ hlong hjson _ =>
      rw [next_ready.mpr ⟨_, _, hheader, hlong, hjson, rfl⟩] at hnext
      cases hnext
  | cons chunk chunks ih =>
    rw [flatten_cons, ← append_assoc] at hcut
    obtain ⟨done, later, left, hdrain, rfl, hreads⟩ := h.drain hcut.symm
    rw [Lsp.received, push, hdrain]
    simp only [ih (next_of_drain hdrain) hreads rfl]

theorem Refused.received {chunks : List (List UInt8)} (hnext : next limit buffer = .ok none)
    (h : Refused limit bytes) (hcut : buffer ++ chunks.flatten = bytes) : received limit buffer chunks = ([], true) := by
  obtain ⟨e, he⟩ := refused_iff.mp h
  subst hcut
  induction chunks generalizing buffer with
  | nil =>
    rw [flatten_nil, append_nil] at he
    cases hnext.symm.trans he
  | cons chunk chunks ih =>
    rw [flatten_cons, ← append_assoc] at h he
    rw [Lsp.received, push]
    cases harrived : next limit (buffer ++ chunk) with
    | error e => rw [drain_error harrived]
    | ok found =>
      cases found with
      | none =>
        rw [drain_waits harrived]
        simp only [ih harrived h he, nil_append]
      | some frame => cases (next_append harrived _).symm.trans he

/-! ## Streams that cannot -/

variable {ds : List Char}

def header (length : Nat) : List Char := "Content-Length: ".toList ++ Numeral.natText length

end CocoHarness.Lsp
