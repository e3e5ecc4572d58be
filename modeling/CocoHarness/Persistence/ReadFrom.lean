/-
# CocoHarness.Persistence.ReadFrom — reading a stored log from a position.

A backend reads a whole stored log, and some can seek: they read the events from a seq on without the rest.
`readFrom` uses the seek where there is one, and turns back to the whole log when the suffix holds an event whose
upgrade needs what came before.
-/
import CocoHarness.Persistence.BackendAgreement
import CocoHarness.Persistence.LegacyLog

namespace CocoHarness.Persistence

open Lib SessionLog Lib.SafeInteger List

/-! ## Backends -/

structure StoredHeader where
  id : String
  version : Number
  others : List (String × Json) := []
  deriving DecidableEq

structure StoredEvents where
  header : StoredHeader
  events : List SessionEvent
  deriving DecidableEq

def StoredEvents.suffix (whole : StoredEvents) (fromSeq : Nat) : StoredEvents :=
  { whole with events := whole.events.filter ((fromSeq : Int) ≤ ·.seq) }

/-- The reads of a backend; `none` is a session it does not have. -/
structure Backend where
  loadStored : String → Except JsError (Option StoredEvents)
  /-- The seek, where the backend has one. -/
  loadStoredFrom : Option (String → Nat → Except JsError (Option StoredEvents))
  /-- The path of a session's raw log, where there is one. -/
  locate : StoredHeader → Option String

inductive ReadFailure where
  | error (error : JsError)
  | typeError (message : String)
  /-- The log is intact, but this build cannot interpret it. -/
  | formatUnsupported (message : String) (location : Option String)
  deriving DecidableEq

def thrown {α : Type} : Except JsError α → Except ReadFailure α
  | .ok a => .ok a
  | .error error => .error (.error error)

theorem thrown_eq_ok_iff {α : Type} {step : Except JsError α} {a : α} : thrown step = .ok a ↔ step = .ok a := by
  cases step <;> simp [thrown]

/-! ## Checks -/

def knownSessionEventTypes : List String :=
  ["agent-preset/selected", "agent/inbox/spliced", "approval/asked", "approval/decided", "approval/policy",
    "assistant/chunk", "assistant/message", "command/done", "command/run", "compaction/end", "compaction/prune",
    "compaction/start", "compaction/summary", "feedback/record", "goal/change", "hook/invoked", "hook/result",
    "llm/retry", "llm/retry-started", "permission/preset", "plan/mode", "request/context", "request/header",
    "sandbox/mode", "schedule/change", "session/end-seed", "session/title", "session/title-llm-request",
    "step/end", "step/start", "subagent/descriptor", "todo/write", "tool-workflow/agent-end",
    "tool-workflow/agent-start", "tool-workflow/run-end", "tool-workflow/run-start", "tool/call",
    "tool/code-dispatch", "tool/code-dispatch-start", "tool/result", "turn/end", "turn/start", "user/message",
    "web/deepseek-search-llm-request"]

namespace Backend

variable (b : Backend)

/-- A format refusal that points at the raw artifact when the backend has one. -/
def unsupported (header : StoredHeader) (reason : String) : ReadFailure :=
  match b.locate header with
  | none => .formatUnsupported reason none
  | some path => .formatUnsupported s!"{reason} (raw log: {path})" (some path)

def assertVersion (header : StoredHeader) : Except ReadFailure Unit :=
  if header.version = .int sessionFormatVersion then .ok ()
  else .error (b.unsupported header (sessionFormatVersionRefusal header.id header.version))

/-- Reject backend metadata that is not bound to the requested session id. -/
def assertStoredId (id : String) (header : StoredHeader) : Except ReadFailure Unit :=
  if header.id ≠ id then
    .error (.error (.error s!"stored session identity mismatch: requested \"{id}\", header contains \"{header.id}\""))
  else .ok ()

def isInterpretable (event : SessionEvent) : Bool := knownSessionEventTypes.contains event.type || event.ignorable

/-- Refuse an event type this build does not know, unless it is marked ignorable. -/
def assertEventsSupported (header : StoredHeader) : List SessionEvent → Except ReadFailure Unit
  | [] => .ok ()
  | event :: events =>
    if isInterpretable event then assertEventsSupported header events
    else
      .error (b.unsupported header (s!"session \"{header.id}\" contains event type \"{event.type}\" "
        ++ s!"(seq {event.seq}) unknown to this harness and not marked ignorable; refusing to interpret the log "
        ++ "— it was likely written by a newer harness"))

/-! ## Reads -/

def readStoredPrefix (id : String) : Except ReadFailure StoredEvents := do
  match ← thrown (b.loadStored id) with
  | none => throw (.error (.error s!"session \"{id}\" not found"))
  | some stored =>
    assertStoredId id stored.header
    b.assertVersion stored.header
    let events ← thrown (snapshotStoredEvents stored.events id)
    b.assertEventsSupported stored.header events
    return { header := stored.header, events }

/-- The stored events a load starts from: what `prepareCore` adopts before it repairs them. -/
def adoptStoredPrefix (id : String) : Except ReadFailure StoredEvents := do
  match ← thrown (b.loadStored id) with
  | none => throw (.error (.error s!"session \"{id}\" not found"))
  | some stored =>
    assertStoredId id stored.header
    b.assertVersion stored.header
    let events ← thrown (adoptStoredEvents stored.events id)
    b.assertEventsSupported stored.header events
    return { header := stored.header, events }

def readFromCore (id : String) (fromSeq : Nat) : Except ReadFailure StoredEvents :=
  match b.loadStoredFrom with
  | some loadStoredFrom => do
    match ← thrown (loadStoredFrom id fromSeq) with
    | none => throw (.error (.error s!"session \"{id}\" not found"))
    | some suffix =>
      assertStoredId id suffix.header
      b.assertVersion suffix.header
      if suffix.events.any needsLegacyPrefix then do
        let whole ← b.readStoredPrefix id
        return whole.suffix fromSeq
      else do
        let events ← thrown (snapshotStoredEvents suffix.events id)
        b.assertEventsSupported suffix.header events
        return { header := suffix.header, events }
  | none => do
    let whole ← b.readStoredPrefix id
    return { whole with events := whole.events.drop fromSeq }

/-- The position a read may start from: a non-negative safe integer. -/
def fromSeq? : Number → Option Nat
  | .int n => if IsSafe n ∧ 0 ≤ n then some n.toNat else none
  | .frac _ _ _ => none

/-- Read the stored events from `fromSeq` onward, detached and non-mutating. -/
def readFrom (id : String) (fromSeq : Number) : Except ReadFailure StoredEvents :=
  match fromSeq? fromSeq with
  | none =>
    let text := String.ofList (Numeral.numberText fromSeq)
    .error (.typeError s!"readFrom fromSeq must be a non-negative safe integer, got {text}")
  | some n => b.readFromCore id n

/-! ## What a backend answers -/

/-- The whole read answers the log, a seek its events from the seq on, and they are numbered from 0. -/
structure Holds (id : String) (header : StoredHeader) (log : List SessionEvent) : Prop where
  whole : b.loadStored id = .ok (some { header, events := log })
  seek : ∀ loadStoredFrom, b.loadStoredFrom = some loadStoredFrom → ∀ fromSeq : Nat,
    loadStoredFrom id fromSeq = .ok (some { header, events := log.filter ((fromSeq : Int) ≤ ·.seq) })
  numbered : EventsFrom 0 log

variable {b : Backend} {id : String} {header : StoredHeader} {log events : List SessionEvent}

theorem assertEventsSupported_iff :
    b.assertEventsSupported header events = .ok () ↔ ∀ event ∈ events, isInterpretable event = true := by
  induction events with
  | nil => exact ⟨fun _ => forall_mem_nil _, fun _ => rfl⟩
  | cons event events ih =>
    rw [assertEventsSupported, forall_mem_cons, ← ih]
    split
    · next hknown => exact ⟨fun h => ⟨hknown, h⟩, fun h => h.2⟩
    · next hunknown =>
      constructor
      · intro h
        cases h
      · exact fun h => absurd h.1 hunknown

theorem filter_numbered {start : Nat} {fromSeq : Nat} : ∀ {events : List SessionEvent}, EventsFrom start events →
    start ≤ fromSeq → events.filter ((fromSeq : Int) ≤ ·.seq) = events.drop (fromSeq - start) := by
  intro events
  induction events generalizing start with
  | nil => exact fun _ _ => drop_nil.symm
  | cons event events ih =>
    intro hnumbered hle
    have hhead : event.seq = start := by simpa using hnumbered 0 event rfl
    have htail : EventsFrom (start + 1 : Nat) events := by
      intro i e he
      rw [hnumbered (i + 1) e he]
      push_cast
      omega
    by_cases heq : fromSeq = start
    · subst heq
      rw [Nat.sub_self, drop_zero, filter_eq_self]
      intro e he
      obtain ⟨i, hi, rfl⟩ := getElem_of_mem he
      rw [hnumbered i _ (List.getElem?_eq_getElem hi), decide_eq_true_iff]
      omega
    · rw [filter_cons_of_neg, ih htail (by omega)]
      · rw [show fromSeq - start = (fromSeq - (start + 1)) + 1 by omega, drop_succ_cons]
      · rw [hhead, decide_eq_true_iff]
        omega

theorem Holds.readStoredPrefix_eq_ok_iff (h : b.Holds id header log) {whole : StoredEvents} :
    b.readStoredPrefix id = .ok whole ↔ header.id = id ∧ header.version = .int sessionFormatVersion ∧
      whole.header = header ∧ snapshotStoredEvents log id = .ok whole.events ∧
      ∀ event ∈ whole.events, isInterpretable event = true := by
  unfold readStoredPrefix
  rw [h.whole, show thrown (Except.ok (some { header, events := log } : Option StoredEvents)) = .ok _ from rfl, ok_bind]
  dsimp only
  unfold assertStoredId assertVersion
  constructor
  · intro hread
    obtain ⟨_, hid, hread⟩ := bind_eq_ok_iff.mp hread
    obtain ⟨_, hversion, hread⟩ := bind_eq_ok_iff.mp hread
    obtain ⟨events, hevents, hread⟩ := bind_eq_ok_iff.mp hread
    obtain ⟨_, hsupported, hread⟩ := bind_eq_ok_iff.mp hread
    cases hread
    refine ⟨?_, ?_, rfl, thrown_eq_ok_iff.mp hevents, assertEventsSupported_iff.mp hsupported⟩
    · split at hid
      · cases hid
      · next hsame => exact not_not.mp hsame
    · split at hversion
      · next hcurrent => exact hcurrent
      · cases hversion
  · rintro ⟨hid, hversion, hheader, hevents, hsupported⟩
    rw [if_neg fun hne => hne hid, ok_bind, if_pos hversion, ok_bind, thrown_eq_ok_iff.mpr hevents, ok_bind,
      assertEventsSupported_iff.mpr hsupported, ok_bind, ← hheader]
    rfl

/-! ## The suffix of a whole read -/

theorem numbered_of_snapshotLoop {messageIds : MessageIds} {start : Int} (hnumbered : EventsFrom start log)
    (h : snapshotLoop id messageIds log = .ok events) : EventsFrom start events := by
  intro i event hevent
  have hall := current_of_snapshotLoop h
  obtain ⟨hi, rfl⟩ := List.getElem?_eq_some_iff.mp hevent
  have hlt : i < log.length := hall.length_eq ▸ hi
  obtain ⟨-, hseq, -⟩ := List.Forall₂.get hall hlt hi
  exact hseq.trans (hnumbered i log[i] (List.getElem?_eq_getElem hlt))

/-- The upgrade of events that need no prefix is what the upgrade of all leaves of them. -/
theorem snapshotStoredEvents_drop (h : snapshotStoredEvents log id = .ok events) (n : Nat)
    (hneeds : ∀ event ∈ log.drop n, needsLegacyPrefix event = false) :
    snapshotStoredEvents (log.drop n) id = .ok (events.drop n) := by
  obtain ⟨_, hsupported, hloop⟩ := bind_eq_ok_iff.mp h
  have hevents := assertSupportedEvents_iff.mp hsupported
  rw [← take_append_drop n log] at hloop
  obtain ⟨messageIds, before, behind, hbefore, hbehind, rfl⟩ := snapshotLoop_append hloop
  have hlength := (current_of_snapshotLoop hbefore).length_eq
  have hlength' := (current_of_snapshotLoop hbehind).length_eq
  rw [length_take] at hlength
  rw [length_drop] at hlength'
  have hdrop : (before ++ behind).drop n = behind := by
    by_cases hle : n ≤ log.length
    · exact drop_left' (by omega)
    · have hnil : behind = [] := eq_nil_of_length_eq_zero (by omega)
      rw [hnil, append_nil, drop_eq_nil_of_le (by omega)]
  unfold snapshotStoredEvents
  rw [assertSupportedEvents_iff.mpr fun event hevent => hevents event (mem_of_mem_drop hevent), ok_bind, hdrop,
    snapshotLoop_of_not_needs hneeds [] messageIds]
  exact hbehind

/-- **Where the whole read succeeds**, the suffix read is its events from the seq on. -/
theorem Holds.readFromCore_of_whole (h : b.Holds id header log) {whole : StoredEvents}
    (hwhole : b.readStoredPrefix id = .ok whole) (n : Nat) : b.readFromCore id n = .ok (whole.suffix n) := by
  obtain ⟨hid, hversion, hheader, hevents, hknown⟩ := h.readStoredPrefix_eq_ok_iff.mp hwhole
  obtain ⟨_, -, hloop⟩ := bind_eq_ok_iff.mp hevents
  have hnumbered := numbered_of_snapshotLoop h.numbered hloop
  have hdrop : whole.events.filter ((n : Int) ≤ ·.seq) = whole.events.drop n :=
    @filter_numbered 0 n whole.events hnumbered (Nat.zero_le n)
  have hdropLog : log.filter ((n : Int) ≤ ·.seq) = log.drop n := @filter_numbered 0 n log h.numbered (Nat.zero_le n)
  unfold readFromCore StoredEvents.suffix
  rw [hdrop]
  split
  · next loadStoredFrom hseek =>
    rw [h.seek loadStoredFrom hseek n, hdropLog,
      show thrown (Except.ok (some { header, events := log.drop n } : Option StoredEvents)) = .ok _ from rfl, ok_bind]
    dsimp only
    unfold assertStoredId assertVersion
    rw [if_neg fun hne => hne hid, ok_bind, if_pos hversion, ok_bind]
    split
    · rw [hwhole]
      show Except.ok (whole.suffix n) = _
      unfold StoredEvents.suffix
      rw [hdrop]
    · next hnone =>
      have hneeds : ∀ event ∈ log.drop n, needsLegacyPrefix event = false := by
        intro event hevent
        rw [← Bool.not_eq_true]
        exact fun htrue => hnone (any_eq_true.mpr ⟨event, hevent, htrue⟩)
      have hknown' : ∀ event ∈ whole.events.drop n, isInterpretable event = true :=
        fun event hevent => hknown event (mem_of_mem_drop hevent)
      rw [snapshotStoredEvents_drop hevents n hneeds]
      show (b.assertEventsSupported header (whole.events.drop n) >>= fun _ => _) = _
      rw [assertEventsSupported_iff.mpr hknown', ok_bind, hheader]
      rfl
  · rw [hwhole]
    rfl

/-- **Where the whole read fails**, only a seek may answer, with the upgrade of the suffix. -/
theorem Holds.readFromCore_cases (h : b.Holds id header log) {n : Nat} {read : StoredEvents}
    (hread : b.readFromCore id n = .ok read) :
    (∃ whole, b.readStoredPrefix id = .ok whole ∧ read = whole.suffix n) ∨
      (∀ whole, b.readStoredPrefix id ≠ .ok whole) ∧ b.loadStoredFrom.isSome = true ∧
        (∀ event ∈ log.filter ((n : Int) ≤ ·.seq), needsLegacyPrefix event = false) ∧
        snapshotStoredEvents (log.filter ((n : Int) ≤ ·.seq)) id = .ok read.events := by
  by_cases hsome : ∃ whole, b.readStoredPrefix id = .ok whole
  · obtain ⟨whole, hwhole⟩ := hsome
    rw [h.readFromCore_of_whole hwhole n] at hread
    exact Or.inl ⟨whole, hwhole, (Except.ok.inj hread).symm⟩
  · have hnone : ∀ whole, b.readStoredPrefix id ≠ .ok whole := fun whole hwhole => hsome ⟨whole, hwhole⟩
    refine Or.inr ⟨hnone, ?_⟩
    unfold readFromCore at hread
    split at hread
    · next loadStoredFrom hseek =>
      rw [h.seek loadStoredFrom hseek n, show thrown (Except.ok (some
        { header, events := log.filter ((n : Int) ≤ ·.seq) } : Option StoredEvents)) = .ok _ from rfl, ok_bind] at hread
      dsimp only at hread
      obtain ⟨_, -, hread⟩ := bind_eq_ok_iff.mp hread
      obtain ⟨_, -, hread⟩ := bind_eq_ok_iff.mp hread
      split at hread
      · obtain ⟨whole, hwhole, -⟩ := bind_eq_ok_iff.mp hread
        exact absurd hwhole (hnone whole)
      · next hneeds =>
        obtain ⟨events, hevents, hread⟩ := bind_eq_ok_iff.mp hread
        obtain ⟨_, -, hread⟩ := bind_eq_ok_iff.mp hread
        cases hread
        refine ⟨by rw [hseek]; rfl, fun event hevent => ?_, thrown_eq_ok_iff.mp hevents⟩
        rw [← Bool.not_eq_true]
        exact fun htrue => hneeds (any_eq_true.mpr ⟨event, hevent, htrue⟩)
    · obtain ⟨whole, hwhole, -⟩ := bind_eq_ok_iff.mp hread
      exact absurd hwhole (hnone whole)

theorem adoptStoredPrefix_eq (b : Backend) (id : String) : b.adoptStoredPrefix id = b.readStoredPrefix id := by
  unfold adoptStoredPrefix readStoredPrefix
  simp only [adoptStoredEvents_eq]

end Backend

/-! ## The SQLite backend -/

/-- The stored sessions: a header and the event rows of each, ordered by seq. -/
abbrev SessionTable := String → Option (StoredHeader × List EventRow)

/-- The reads of the SQLite backend: SQL selects the rows of a seek. -/
def sqliteBackend (table : SessionTable) : Backend where
  loadStored id :=
    match table id with
    | none => .ok none
    | some (header, rows) => do
      let scan ← scanRows rows 0
      return some { header, events := scan.preserved }
  loadStoredFrom := some fun id fromSeq =>
    match table id with
    | none => .ok none
    | some (header, rows) => do
      let scan ← scanRows (rows.filter ((fromSeq : Int) ≤ ·.seq)) fromSeq
      return some { header, events := scan.preserved }
  locate _ := none

theorem preserveLoop_undamaged {base last : Int} : ∀ {rows : List EventRow} {events : List SessionEvent} {i : Nat},
    rows.map rowToEvent = events.map some → EventsFrom (base + i) events →
    preserveLoop base last i rows = .ok events := by
  intro rows
  induction rows with
  | nil =>
    intro events i hrows _
    rw [map_eq_nil_iff.mp hrows.symm]
    rfl
  | cons row rows ih =>
    intro events i hrows hnumbered
    cases events with
    | nil => cases hrows
    | cons event events =>
      obtain ⟨hrow, hrest⟩ := List.cons.inj hrows
      have hhead : event.seq = base + i := by simpa using hnumbered 0 event rfl
      have htail : EventsFrom (base + (i + 1 : Nat)) events := by
        intro k e he
        rw [hnumbered (k + 1) e he]
        push_cast
        omega
      rw [preserveLoop, hrow]
      dsimp only
      rw [if_neg fun hne => hne hhead, ih hrest htail]
      rfl

/-- An undamaged table holds its log. -/
theorem sqliteBackend_holds {table : SessionTable} {id : String} {header : StoredHeader} {rows : List EventRow}
    {log : List SessionEvent} (hsession : table id = some (header, rows))
    (hscan : scanRows rows 0 = .ok { preserved := log, tornFrom := none }) :
    (sqliteBackend table).Holds id header log := by
  obtain ⟨preserved, hloop, hkept⟩ := bind_eq_ok_iff.mp hscan
  obtain ⟨rfl, htorn⟩ := RowScan.mk.inj (Except.ok.inj hkept)
  obtain ⟨hlength, hrows, hnumbered⟩ := preserveLoop_spec hloop
  have hall : preserved.length = rows.length := by
    split at htorn
    · cases htorn
    · omega
  rw [hall, take_length] at hrows
  have hnumbered' : EventsFrom 0 preserved := by simpa using hnumbered
  refine ⟨?_, ?_, hnumbered'⟩
  · show (match table id with | none => _ | some (header, rows) => _) = _
    rw [hsession]
    dsimp only
    rw [hscan]
    rfl
  · intro loadStoredFrom hseek fromSeq
    cases hseek
    dsimp only
    rw [hsession]
    dsimp only
    -- the rows selected are the events selected, row by row
    have hselected : ∀ {rows : List EventRow} {events : List SessionEvent}, rows.map rowToEvent = events.map some →
        (rows.filter ((fromSeq : Int) ≤ ·.seq)).map rowToEvent
          = (events.filter ((fromSeq : Int) ≤ ·.seq)).map some := by
      intro rows
      induction rows with
      | nil =>
        intro events h
        rw [map_eq_nil_iff.mp h.symm]
        rfl
      | cons row rows ih =>
        intro events h
        cases events with
        | nil => cases h
        | cons event events =>
          obtain ⟨hrow, hrest⟩ := List.cons.inj h
          rw [filter_cons, filter_cons, (rowToEvent_spec hrow).1]
          split
          · rw [map_cons, map_cons, ih hrest, hrow]
          · exact ih hrest
    have hseqs : EventsFrom (fromSeq + (0 : Nat)) (preserved.filter ((fromSeq : Int) ≤ ·.seq)) := by
      rw [@Backend.filter_numbered 0 fromSeq preserved hnumbered' (Nat.zero_le _)]
      intro i event hevent
      rw [List.getElem?_drop] at hevent
      rw [hnumbered' _ event hevent]
      push_cast
      omega
    have hlast := @preserveLoop_undamaged fromSeq (lastTurnEnd (rows.filter ((fromSeq : Int) ≤ ·.seq))
      (rows.filter ((fromSeq : Int) ≤ ·.seq)).length) _ _ 0 (hselected hrows) hseqs
    unfold scanRows
    rw [hlast]
    rfl

/-! ## Reading from a position -/

/-- **Reading from a position is filtering a whole read.**  Both whole reads agree. Where they succeed, the read from
any position is their events from the seq on; where they refuse the log, only a seek may answer, with the upgrade of a
suffix that needs no prefix. Upgrading twice is upgrading once, and what is in the current format stays. -/
theorem readFrom_spec (b : Backend) (id : String) (header : StoredHeader) (log : List SessionEvent)
    (h : b.Holds id header log) :
    b.adoptStoredPrefix id = b.readStoredPrefix id ∧
    (∀ fromSeq n, Backend.fromSeq? fromSeq = some n → ∀ whole, b.readStoredPrefix id = .ok whole →
      b.readFrom id fromSeq = .ok (whole.suffix n)) ∧
    (∀ fromSeq n read, Backend.fromSeq? fromSeq = some n → b.readFrom id fromSeq = .ok read →
      (∃ whole, b.readStoredPrefix id = .ok whole ∧ read = whole.suffix n) ∨
        (∀ whole, b.readStoredPrefix id ≠ .ok whole) ∧ b.loadStoredFrom.isSome = true ∧
          (∀ event ∈ log.filter ((n : Int) ≤ ·.seq), needsLegacyPrefix event = false) ∧
          snapshotStoredEvents (log.filter ((n : Int) ≤ ·.seq)) id = .ok read.events) ∧
    (∀ fromSeq, Backend.fromSeq? fromSeq = none → ∃ message, b.readFrom id fromSeq = .error (.typeError message)) ∧
    ∀ events events', snapshotStoredEvents events id = .ok events' →
      adoptStoredEvents events id = .ok events' ∧ snapshotStoredEvents events' id = .ok events' ∧
        adoptStoredEvents events' id = .ok events' ∧ (∀ event ∈ events', Current event) ∧
        ((∀ event ∈ events, Current event) → events' = events) := by
  have hcore : ∀ fromSeq n, Backend.fromSeq? fromSeq = some n → b.readFrom id fromSeq = b.readFromCore id n := by
    intro fromSeq n hn
    unfold Backend.readFrom
    rw [hn]
  refine ⟨b.adoptStoredPrefix_eq id, ?_, ?_, ?_, ?_⟩
  · intro fromSeq n hn whole hwhole
    rw [hcore fromSeq n hn]
    exact h.readFromCore_of_whole hwhole n
  · intro fromSeq n read hn hread
    rw [hcore fromSeq n hn] at hread
    exact h.readFromCore_cases hread
  · intro fromSeq hnone
    unfold Backend.readFrom
    rw [hnone]
    exact ⟨_, rfl⟩
  · intro events events' hevents
    obtain ⟨hcurrent, hagain⟩ := snapshotStoredEvents_idem hevents
    rw [adoptStoredEvents_eq, adoptStoredEvents_eq]
    exact ⟨hevents, hagain id, hagain id, hcurrent, fun hall => snapshotStoredEvents_of_current hall hevents⟩

def tableOf (rows : List EventRow) : SessionTable := fun id =>
  if id = "s" then some ({ id := "s", version := .int 0 }, rows) else none

def plainRow (seq : Int) (type data : String) : EventRow :=
  { seq, type, time := 5, data, sourceEventSeqs := none, surfaceOp := none, ignorable := none }

def legacyRows : List EventRow :=
  [plainRow 0 "turn/start" "\x7b\"turn\":1,\"trigger\":\x7b\"kind\":\"user\"\x7d\x7d",
    plainRow 1 "user/message" "\x7b\"content\":[],\"source\":\x7b\"kind\":\"user\"\x7d\x7d"]

def legacyLog : List SessionEvent :=
  [{ type := "turn/start", seq := 0, time := 5
     data := .obj [("turn", .num (.int 1)), ("trigger", .obj [("kind", .str "user")])] },
    { type := "user/message", seq := 1, time := 5
      data := .obj [("content", .arr []), ("source", .obj [("kind", .str "user")])] }]

theorem readFrom_legacy : (∃ whole, (sqliteBackend (tableOf legacyRows)).readStoredPrefix "s" = .ok whole) ∧
    ∀ fromSeq n, Backend.fromSeq? fromSeq = some n →
      ∀ whole, (sqliteBackend (tableOf legacyRows)).readStoredPrefix "s" = .ok whole →
        (sqliteBackend (tableOf legacyRows)).readFrom "s" fromSeq = .ok (whole.suffix n) := by
  have hholds : (sqliteBackend (tableOf legacyRows)).Holds "s" { id := "s", version := .int 0 } legacyLog :=
    sqliteBackend_holds rfl (by decide +kernel)
  have hwhole : ((sqliteBackend (tableOf legacyRows)).readStoredPrefix "s").isOk = true := by decide +kernel
  refine ⟨?_, (readFrom_spec _ _ _ _ hholds).2.1⟩
  cases hread : (sqliteBackend (tableOf legacyRows)).readStoredPrefix "s" with
  | ok whole => exact ⟨whole, rfl⟩
  | error failure =>
    rw [hread] at hwhole
    cases hwhole

/-- An event of the obsolete vocabulary below the position: the seek answers. -/
theorem readFrom_behind_refused :
    ¬ ∀ (b : Backend) (id : String) (header : StoredHeader) (log : List SessionEvent), b.Holds id header log →
      ∀ n read, b.readFromCore id n = .ok read →
        ∃ whole, b.readStoredPrefix id = .ok whole ∧ read = whole.suffix n := by
  intro hclaim
  let rows := [plainRow 0 "mode/set" "null", plainRow 1 "turn/start" "\x7b\"turn\":1\x7d"]
  let started : SessionEvent := { type := "turn/start", seq := 1, time := 5, data := .obj [("turn", .num (.int 1))] }
  have hholds : (sqliteBackend (tableOf rows)).Holds "s" { id := "s", version := .int 0 }
      [{ type := "mode/set", seq := 0, time := 5, data := .null }, started] :=
    sqliteBackend_holds rfl (by decide +kernel)
  have hread : (sqliteBackend (tableOf rows)).readFromCore "s" 1
      = .ok { header := { id := "s", version := .int 0 }, events := [started] } := by decide +kernel
  obtain ⟨whole, hwhole, -⟩ := hclaim _ _ _ _ hholds 1 _ hread
  have hrefused : ((sqliteBackend (tableOf rows)).readStoredPrefix "s").isOk = false := by decide +kernel
  rw [hwhole] at hrefused
  cases hrefused

end CocoHarness.Persistence
