/-
# CocoHarness.Composer.InputMachine — the per-session input state machine of the composer.

The draft holds one U+FFFC placeholder for each chip, and the occurrence table beside it says what each one is; every
mutation of the draft is one transaction that edits the text, reconciles the table and records an undo unit.

Beside the source's own state the machine carries where the draft came from: `marks` says for every unit of the draft
by which event it was entered, an undo unit keeps the marks of its draft, and an attempt remembers as its `entry`
what the composer held when Enter was pressed.  No branch reads them.
-/
import CocoHarness.Lib.MarkedText
import CocoHarness.Lib.Utf16

namespace CocoHarness.Composer

open Lib Lib.MarkedText
open Lib.Utf16 (Unit16)

/-! ## Texts -/

abbrev Text := List Unit16

/-- The object-replacement character backing every chip occurrence in the draft. -/
def placeholder : Unit16 := 0xFFFC

def isSpace (u : Unit16) : Bool :=
  u ∈ ([9, 10, 11, 12, 13, 32, 0xA0, 0x1680, 0x2000, 0x2001, 0x2002, 0x2003, 0x2004, 0x2005, 0x2006,
    0x2007, 0x2008, 0x2009, 0x200A, 0x2028, 0x2029, 0x202F, 0x205F, 0x3000, 0xFEFF] : Text)

def trimStart (s : Text) : Text := s.dropWhile isSpace

def trimEnd (s : Text) : Text := (s.reverse.dropWhile isSpace).reverse

def trim (s : Text) : Text := trimEnd (trimStart s)

/-- The args of a draft behind its claim token; exactly one separator unit is consumed. -/
def argsAfter (draft token : Text) : Text :=
  let s := trimStart draft
  if token.isPrefixOf s then s.drop token.length
  else
    let base := trimEnd token
    if base.isPrefixOf s then
      match s.drop base.length with
      | [] => []
      | u :: rest => if isSpace u then rest else u :: rest
    else []

/-! ## What the composer is about -/

inductive InputSubmitMode where
  | queue
  | steer
  deriving DecidableEq

/-- A command-mode entry credential; what its `submit` does lies outside. -/
structure CommandClaim where
  token : Text
  hint : Option Text := none
  deriving DecidableEq

structure ReferenceInsert where
  source : String
  ref : String
  label : Text
  clipboardText : Text
  deriving DecidableEq

structure TokenSpan where
  start : Nat
  stop : Nat
  draftRev : Nat
  deriving DecidableEq

/-- The range an edit replaced, in old-draft offsets, and how much it inserted. -/
structure EditRange where
  start : Nat
  stop : Nat
  insertedLength : Nat
  deriving DecidableEq

/-- A chip: its placeholder's offset, and what its owner supplied when it was inserted. -/
structure Occurrence where
  occurrenceId : Nat
  source : String
  ref : String
  offset : Nat
  label : Text
  clipboardText : Text
  invalid : Bool := false
  deriving DecidableEq

/-- A sync-matched paste component, in offsets of the pasted text. -/
structure PasteComponent where
  start : Nat
  stop : Nat
  reference : ReferenceInsert
  deriving DecidableEq

structure PasteAttemptState where
  attemptId : Nat
  insertedStart : Nat
  insertedStop : Nat
  generation : Nat
  deriving DecidableEq

inductive ConsumeTokenGuard where
  | span (span : TokenSpan)
  | bareToken (token : Text)
  deriving DecidableEq

inductive Phase where
  | plain
  | adjudicating
  | claimed
  | submitting
  deriving DecidableEq

inductive PickOutcome where
  | claim (claim : CommandClaim)
  | insert (reference : ReferenceInsert)
  | text (text : Text)
  | handled
  | miss
  deriving DecidableEq

inductive OutcomeKind where
  | success
  | error
  deriving DecidableEq

structure SubmitOutcome where
  kind : OutcomeKind
  text : Option Text := none
  deriving DecidableEq

/-- How a unit came into the draft: by this event, or as the draft of this Enter, put back. -/
inductive Mark where
  | typed (event : Nat)
  | restored (enter : Nat)
  deriving DecidableEq

/-- What the composer held when Enter was pressed; `enter` is the number of that event. -/
structure Entry where
  enter : Nat
  draft : Text
  marks : List Mark
  occurrences : List Occurrence
  deriving DecidableEq

structure SubmitAttempt where
  seq : Nat
  draftSnapshot : Text
  mode : InputSubmitMode
  entry : Entry
  deriving DecidableEq

/-- One undo unit: snapshots taken before the transaction applied. -/
structure Transaction where
  draftBefore : Text
  occurrencesBefore : List Occurrence
  marksBefore : List Mark
  deriving DecidableEq

inductive InputEvent where
  /-- `time` is the wall clock when the event is handled. -/
  | draftChanged (draft : Text) (editRange : Option EditRange) (time : Nat)
  | beginCommand (claim : CommandClaim) (span : TokenSpan)
  | insertRef (reference : ReferenceInsert) (span : TokenSpan)
  | consumeToken (guard : ConsumeTokenGuard)
  | setInvalid (invalidIds : List Nat)
  | undo
  | redo
  | pasteBegin (text : Text) (start stop : Nat) (components : List PasteComponent) (generation : Nat)
  | pasteUpgrade (attemptId : Nat) (span : TokenSpan) (reference : ReferenceInsert)
  | invalidatePaste
  | enter (mode : InputSubmitMode)
  | adjudicated (attempt : SubmitAttempt) (outcome : PickOutcome)
  | adjudicationFailed (attempt : SubmitAttempt) (message : Text)
  | submitSettled (attempt : SubmitAttempt) (ok : Bool) (outcome : Option SubmitOutcome)
      (message : Option Text)
  | sendCommitted
  | release
  deriving DecidableEq

inductive NoticeLevel where
  | info
  | error
  deriving DecidableEq

inductive InputEffect where
  | adjudicate (attempt : SubmitAttempt) (draft : Text)
  | beginSubmit (attempt : SubmitAttempt) (claim : CommandClaim) (args : Text)
  | defaultSink (draft : Text) (mode : InputSubmitMode) (entry : Entry)
  | notice (level : NoticeLevel) (text : Text)
  deriving DecidableEq

/-! ## Projections and edits -/

def diffEdit (prev next : Text) : EditRange :=
  { start := commonLength prev next
    stop := prev.length - commonSuffix prev next
    insertedLength := next.length - commonSuffix prev next - commonLength prev next }

/-- Expand the placeholders into their occurrences' clipboard text. -/
def projectClipboard (draft : Text) (occurrences : List Occurrence) : Text :=
  if occurrences.isEmpty then draft
  else substitute draft 0 (occurrences.map fun o => (o.offset, o.clipboardText))

structure InputMachine where
  draft : Text := []
  draftRev : Nat := 0
  phase : Phase := .plain
  claim : Option CommandClaim := none
  occurrences : List Occurrence := []
  occurrenceSeq : Nat := 0
  seq : Nat := 0
  inflight : Option SubmitAttempt := none
  /-- The newest unit first. -/
  log : List Transaction := []
  redoStack : List Transaction := []
  /-- Where the open typing run ends, and when its last unit was typed. -/
  typingRun : Option (Nat × Nat) := none
  paste : Option PasteAttemptState := none
  pasteSeq : Nat := 0
  /-- The attempts whose signal is aborted. -/
  aborted : List Nat := []
  /-- How many events were handled. -/
  events : Nat := 0
  marks : List Mark := []
  deriving DecidableEq

def logLimit : Nat := 100

def mergeWindowMs : Nat := 1000

namespace InputMachine

/-! ## Transaction plumbing -/

variable (m : InputMachine)

def adopt (draft : Text) (marks : List Mark) : InputMachine :=
  { m with draft, marks, draftRev := m.draftRev + 1 }

def entered (start stop count : Nat) : List Mark :=
  splice m.marks start stop (List.replicate count (.typed m.events))

def pushTxn : InputMachine :=
  { m with
    log := (⟨m.draft, m.occurrences, m.marks⟩ :: m.log).take logLimit
    redoStack := [] }

/-- Where one entry of the table is after an edit; `none` when its placeholder lies in the range. -/
def reconcileOne (range : EditRange) (o : Occurrence) : Option Occurrence :=
  let delta : Int := range.insertedLength - ((range.stop : Int) - range.start)
  if o.offset < range.start then some o
  else if range.stop ≤ o.offset then some { o with offset := ((o.offset : Int) + delta).toNat }
  else none

def reconcile (range : EditRange) : InputMachine :=
  { m with occurrences := m.occurrences.filterMap (reconcileOne range) }

/-- A mutation after which the draft no longer starts with the token releases the claim. -/
def watchClaim : InputMachine :=
  match m.claim with
  | some claim =>
    if m.phase = .claimed ∧ claim.token.isPrefixOf m.draft = false then
      { m with phase := .plain, claim := none }
    else m
  | none => m

def mint (reference : ReferenceInsert) (offset : Nat) : InputMachine × Occurrence :=
  let m := { m with occurrenceSeq := m.occurrenceSeq + 1 }
  (m, { occurrenceId := m.occurrenceSeq, source := reference.source, ref := reference.ref, offset,
        label := reference.label, clipboardText := reference.clipboardText })

def withMinted (minted : List Occurrence) : InputMachine :=
  if minted.isEmpty then m
  else { m with occurrences := (m.occurrences ++ minted).insertionSort fun a b => a.offset ≤ b.offset }

/-! ## Draft transactions -/

def onDraftChanged (draft : Text) (editRange : Option EditRange) (time : Nat) : InputMachine :=
  if draft = m.draft then m
  else
    let range := editRange.getD (diffEdit m.draft draft)
    -- single-unit typing joins the open run while contiguous and inside the merge window
    let typing := range.start = range.stop ∧ range.insertedLength = 1
    let merges := typing ∧ ∃ run ∈ m.typingRun, run.1 = range.start ∧ time - run.2 ≤ mergeWindowMs
    let marks := m.entered range.start range.stop range.insertedLength
    let m := if merges then m else m.pushTxn
    let m := { m with typingRun := if typing then some (range.start + 1, time) else none }
    { ((m.reconcile range).adopt draft marks).watchClaim with paste := none }

def casOk (span : TokenSpan) : Bool :=
  span.draftRev == m.draftRev && span.start ≤ span.stop && span.stop ≤ m.draft.length

def accepts : Bool := m.phase == .plain || m.phase == .claimed

def onBeginCommand (claim : CommandClaim) (span : TokenSpan) : InputMachine :=
  if !m.accepts then m
  -- only white space may precede the span
  else if !m.casOk span || trim (slice m.draft 0 span.start) ≠ [] then m
  else
    let marks := m.entered 0 span.stop claim.token.length
    let m := { m.pushTxn with typingRun := none }
    let m := m.reconcile ⟨0, span.stop, claim.token.length⟩
    { m.adopt (claim.token ++ m.draft.drop span.stop) marks with
      claim := some claim, phase := .claimed, paste := none }

/-- The shared chip-insertion transaction; answers the inserted length. -/
def replaceSpanWithChip (reference : ReferenceInsert) (span : TokenSpan) : InputMachine × Nat :=
  let m := { m.pushTxn with typingRun := none }
  let tail := m.draft.drop span.stop
  -- a separating space, unless one is already next
  let gap : Text := if tail.head? = some (Utf16.unit ' ') then [] else [Utf16.unit ' ']
  let inserted := placeholder :: gap
  let marks := m.entered span.start span.stop inserted.length
  let m := m.reconcile ⟨span.start, span.stop, inserted.length⟩
  let (m, minted) := m.mint reference span.start
  let m := m.withMinted [minted]
  let m := m.adopt (slice m.draft 0 span.start ++ inserted ++ tail) marks
  (m.watchClaim, inserted.length)

def onInsertRef (reference : ReferenceInsert) (span : TokenSpan) : InputMachine :=
  if !m.accepts then m
  else if !m.casOk span then m
  else { (m.replaceSpanWithChip reference span).1 with paste := none }

def onConsumeToken (guard : ConsumeTokenGuard) : InputMachine :=
  if !m.accepts then m
  else
    match guard with
    | .span span =>
      if !m.casOk span || span.start = span.stop then m
      else
        let marks := m.entered span.start span.stop 0
        let m := { m.pushTxn with typingRun := none }
        let m := m.reconcile ⟨span.start, span.stop, 0⟩
        { (m.adopt (slice m.draft 0 span.start ++ m.draft.drop span.stop) marks).watchClaim with
          paste := none }
    | .bareToken token =>
      if token = [] ∨ trim m.draft ≠ token then m
      else
        let m := { m.pushTxn with typingRun := none }
        { ({ m with occurrences := [] }.adopt [] []).watchClaim with paste := none }

def onSetInvalid (invalidIds : List Nat) : InputMachine :=
  { m with occurrences := m.occurrences.map fun o => { o with invalid := decide (o.occurrenceId ∈ invalidIds) } }

/-! ## Undo and redo -/

def onUndo : InputMachine :=
  match m.log with
  | [] => m
  | entry :: log =>
    let m := { m with log, redoStack := ⟨m.draft, m.occurrences, m.marks⟩ :: m.redoStack }
    let m := { m with occurrences := entry.occurrencesBefore }
    { (m.adopt entry.draftBefore entry.marksBefore).watchClaim with typingRun := none, paste := none }

def onRedo : InputMachine :=
  match m.redoStack with
  | [] => m
  | entry :: redoStack =>
    -- `pushTxn` would cut the redo chain being walked
    let now : Transaction := ⟨m.draft, m.occurrences, m.marks⟩
    let m := { m with redoStack, log := (now :: m.log).take logLimit }
    let m := { m with occurrences := entry.occurrencesBefore }
    { (m.adopt entry.draftBefore entry.marksBefore).watchClaim with typingRun := none, paste := none }

/-! ## The paste plane -/

/-- Replace each matched range of the pasted text by a placeholder, and mint the entries. -/
def componentize (m : InputMachine) (text : Text) (start : Nat) :
    Nat → Text → List PasteComponent → InputMachine × Text × List Occurrence
  | cursor, inserted, [] => (m, inserted ++ text.drop cursor, [])
  | cursor, inserted, c :: components =>
    let inserted := inserted ++ slice text cursor c.start
    let (m, minted) := m.mint c.reference (start + inserted.length)
    let (m, inserted, rest) := m.componentize text start c.stop (inserted ++ [placeholder]) components
    (m, inserted, minted :: rest)

/-- Paste as one transaction: the text, without placeholders of its own, replaces the selection. -/
def onPasteBegin (rawText : Text) (start stop : Nat)
    (components : List PasteComponent) (generation : Nat) : InputMachine :=
  if stop < start || m.draft.length < stop then m
  else
    let text := rawText.filter (· ≠ placeholder)
    let m := { m.pushTxn with typingRun := none }
    let sorted := components.insertionSort fun a b => a.start ≤ b.start
    let (m, inserted, minted) := m.componentize text start 0 [] sorted
    let marks := m.entered start stop inserted.length
    let m := (m.reconcile ⟨start, stop, inserted.length⟩).withMinted minted
    let m := (m.adopt (slice m.draft 0 start ++ inserted ++ m.draft.drop stop) marks).watchClaim
    if m.accepts then
      { m with
        pasteSeq := m.pasteSeq + 1
        paste := some ⟨m.pasteSeq + 1, start, start + inserted.length, generation⟩ }
    else { m with paste := none }

/-- Upgrade one pasted token to a chip as a transaction of its own. -/
def onPasteUpgrade (attemptId : Nat) (span : TokenSpan) (reference : ReferenceInsert) : InputMachine :=
  match m.paste with
  | none => m
  | some attempt =>
    if attempt.attemptId ≠ attemptId then m
    else if !m.accepts then m
    else if !m.casOk span || span.start = span.stop then m
    else
      let (m, insertedLength) := m.replaceSpanWithChip reference span
      { m with paste := some { attempt with
          insertedStop := attempt.insertedStop + insertedLength - (span.stop - span.start) } }

/-! ## The submit plane -/

def entryNow : Entry :=
  { enter := m.events, draft := m.draft, marks := m.marks, occurrences := m.occurrences }

def beginAttempt (mode : InputSubmitMode) : InputMachine × SubmitAttempt :=
  let attempt := { seq := m.seq + 1, draftSnapshot := m.draft, mode, entry := m.entryNow }
  ({ m with seq := m.seq + 1, inflight := some attempt }, attempt)

def onEnter (mode : InputSubmitMode) : InputMachine × List InputEffect :=
  if m.phase = .adjudicating ∨ m.phase = .submitting then (m, [])
  else
    match if m.phase = .claimed then m.claim else none with
    | some claim =>
      let (m, attempt) := m.beginAttempt mode
      ({ m with phase := .submitting, paste := none }, [.beginSubmit attempt claim (argsAfter m.draft claim.token)])
    | none =>
      let trimmed := trim m.draft
      if trimmed = [] then (m, [])
      else
        let m := { m with paste := none }
        if trimmed.head? = some (Utf16.unit '/') then
          let (m, attempt) := m.beginAttempt mode
          ({ m with phase := .adjudicating }, [.adjudicate attempt m.draft])
        else (m, [.defaultSink m.draft mode m.entryNow])

def onAdjudicated (attempt : SubmitAttempt) (outcome : PickOutcome) : InputMachine × List InputEffect :=
  if m.phase ≠ .adjudicating ∨ m.inflight.map (·.seq) ≠ some attempt.seq then (m, [])
  else
    match outcome with
    | .claim claim =>
      ({ m with claim := some claim, phase := .submitting },
        [.beginSubmit attempt claim (argsAfter attempt.draftSnapshot claim.token)])
    | .miss =>
      ({ m with inflight := none, phase := .plain }, [.defaultSink attempt.draftSnapshot attempt.mode attempt.entry])
    | .insert _ | .text _ | .handled => ({ m with inflight := none, phase := .plain }, [])

def onAdjudicationFailed (attempt : SubmitAttempt) (message : Text) : InputMachine × List InputEffect :=
  if m.phase ≠ .adjudicating ∨ m.inflight.map (·.seq) ≠ some attempt.seq then (m, [])
  else ({ m with inflight := none, phase := .plain }, [.notice .error message])

def commit : InputMachine :=
  { { m with claim := none, occurrences := [] }.adopt [] [] with
    log := [], redoStack := [], typingRun := none, paste := none }

def onSubmitSettled (attempt : SubmitAttempt) (ok : Bool)
    (outcome : Option SubmitOutcome) (message : Option Text) : InputMachine × List InputEffect :=
  match m.inflight with
  | none => (m, [])
  | some flight =>
    if m.phase ≠ .submitting ∨ flight.seq ≠ attempt.seq then (m, [])
    else
      let m := { m with inflight := none }
      if ok then
        let m := { m with phase := .plain }.commit
        match outcome with
        | some ⟨kind, some text⟩ => (m, [.notice (if kind = .error then .error else .info) text])
        | _ => (m, [])
      else
        let text := message.getD ((outcome.bind (·.text)).getD (Utf16.text "command failed"))
        -- the enter-time draft is kept under the same claim while the live draft still equals it
        if m.draft = flight.draftSnapshot ∧ ∃ claim ∈ m.claim, claim.token.isPrefixOf m.draft = true then
          ({ m with phase := .claimed }, [.notice .error text])
        else ({ m with phase := .plain, claim := none }, [.notice .error text])

def onRelease : InputMachine :=
  let m := match m.inflight with
    | some flight => { m with aborted := flight.seq :: m.aborted, inflight := none }
    | none => m
  { m with phase := .plain, claim := none, typingRun := none, paste := none }

def dispatch (ev : InputEvent) : InputMachine × List InputEffect :=
  let (next, effects) : InputMachine × List InputEffect :=
    match ev with
    | .draftChanged draft editRange time => (m.onDraftChanged draft editRange time, [])
    | .beginCommand claim span => (m.onBeginCommand claim span, [])
    | .insertRef reference span => (m.onInsertRef reference span, [])
    | .consumeToken guard => (m.onConsumeToken guard, [])
    | .setInvalid invalidIds => (m.onSetInvalid invalidIds, [])
    | .undo => (m.onUndo, [])
    | .redo => (m.onRedo, [])
    | .pasteBegin text start stop components generation => (m.onPasteBegin text start stop components generation, [])
    | .pasteUpgrade attemptId span reference => (m.onPasteUpgrade attemptId span reference, [])
    | .invalidatePaste => ({ m with paste := none }, [])
    | .enter mode => m.onEnter mode
    | .adjudicated attempt outcome => m.onAdjudicated attempt outcome
    | .adjudicationFailed attempt message => m.onAdjudicationFailed attempt message
    | .submitSettled attempt ok outcome message => m.onSubmitSettled attempt ok outcome message
    | .sendCommitted => (m.commit, [])
    | .release => (m.onRelease, [])
  ({ next with events := m.events + 1 }, effects)

end InputMachine

end CocoHarness.Composer
