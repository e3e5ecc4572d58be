/-
# CocoHarness.SessionLog.RepairAdmission — when the repaired log can be loaded.

The closers are built from the call ids of the interrupted step's assistant blocks, and the constructor
validates them like any seed: a tool result must have a tool source with a non-empty call id.  An
assistant message may carry a tool-call block with an empty id, which no check of the constructor looks
at, so the log extended by its closers is accepted exactly when no such call is pending
(`create_closers_iff`).
-/
import CocoHarness.SessionLog.RepairInvariant
import CocoHarness.SessionLog.Seeding

namespace CocoHarness.SessionLog

open Lib Lib.SafeInteger List EventData RepairScan InsertionMap

/-! ## The scan, read off the log -/

namespace EventData

def startsTurn : EventData → Bool
  | .turnStart _ => true
  | _ => false

def endsTurn : EventData → Bool
  | .turnEnd _ => true
  | _ => false

def resetsCalls : EventData → Bool
  | .turnStart _ | .turnEnd _ | .stepEnd _ _ => true
  | _ => false

end EventData

variable (log : List TypedEvent)

def TurnOpen : Prop := Since (·.startsTurn = true) (·.endsTurn = true) (dataOf log)

/-- An assistant message after the last turn or step boundary requests a call with this id. -/
def RequestedInTail (callId : String) : Prop :=
  Since (callId ∈ ·.requested) (·.resetsCalls = true) (dataOf log)

/-- The scan holds the call as pending: requested, and neither reset nor named by a result since. -/
def Pending (callId : String) : Prop :=
  Since (callId ∈ ·.requested) (fun d => d.resetsCalls = true ∨ d.resultOf = some callId) (dataOf log)

theorem dataOf_snoc (event : TypedEvent) : dataOf (log ++ [event]) = dataOf log ++ [event.data] := map_append

theorem scanTurns_snoc (event : TypedEvent) : scanTurns (log ++ [event]) = (scanTurns log).scan event := by
  rw [scanTurns, foldl_append]
  rfl

theorem openTurn_scanTurns : (scanTurns log).openTurn.isSome ↔ TurnOpen log := by
  induction log using List.reverseRecOn with
  | nil => exact ⟨nofun, fun h => absurd h Since.since_nil⟩
  | append_singleton log event ih =>
    rw [scanTurns_snoc, TurnOpen, dataOf_snoc, Since.since_snoc, ← TurnOpen, ← ih]
    cases hdata : event.data with
    | toolCall _ _ callId =>
      cases hlookup : (scanTurns log).pendingCalls.lookup callId <;>
        simp [scan, hdata, hlookup, startsTurn, endsTurn]
    | _ => simp [scan, hdata, startsTurn, endsTurn]

theorem mem_keys_scanTurns (callId : String) : callId ∈ (scanTurns log).pendingCalls.keys ↔ Pending log callId := by
  induction log using List.reverseRecOn with
  | nil => exact ⟨nofun, fun h => absurd h Since.since_nil⟩
  | append_singleton log event ih =>
    rw [scanTurns_snoc, Pending, dataOf_snoc, Since.since_snoc, ← Pending, ← ih]
    cases hdata : event.data with
    | toolCall _ _ c =>
      cases hlookup : (scanTurns log).pendingCalls.lookup c with
      | none => simp [scan, hdata, hlookup, requested, resetsCalls, resultOf]
      | some entry =>
        have hmem := mem_keys.mpr ⟨entry, lookup_eq_some_iff.mp hlookup⟩
        simp only [scan, hdata, hlookup, mem_keys_set, requested,
          resetsCalls, resultOf]
        constructor
        · rintro (rfl | h)
          · exact .inr ⟨hmem, by simp⟩
          · exact .inr ⟨h, by simp⟩
        · rintro (h | ⟨h, -⟩)
          · exact absurd h not_mem_nil
          · exact .inr h
    | _ =>
      simp [scan, hdata, requested, resetsCalls, resultOf, and_comm, eq_comm]

theorem callSeq_mem_seqs : ∀ e ∈ (scanTurns log).pendingCalls.entries, ∀ callSeq, e.2.callSeq = some callSeq →
      ∃ event ∈ log, event.event.seq = callSeq := by
  induction log using List.reverseRecOn with
  | nil => simp [scanTurns]
  | append_singleton log event ih =>
    have hold : ∀ e ∈ (scanTurns log).pendingCalls.entries, ∀ callSeq, e.2.callSeq = some callSeq →
        ∃ event' ∈ log ++ [event], event'.event.seq = callSeq := fun e he callSeq hcall => by
      obtain ⟨event', hmem, hseq⟩ := ih e he callSeq hcall
      exact ⟨event', mem_append_left _ hmem, hseq⟩
    rw [scanTurns_snoc]
    intro e he callSeq hcall
    cases hdata : event.data with
    | turnStart _ | turnEnd _ | stepEnd _ _ => simp [scan, hdata] at he
    | assistantMessage _ step calls =>
      simp only [scan, hdata] at he
      rcases mem_entries_registerCalls he with hnew | hmem
      · rw [hnew] at hcall
        cases hcall
      · exact hold e hmem callSeq hcall
    | toolCall _ _ c =>
      cases hlookup : (scanTurns log).pendingCalls.lookup c with
      | none =>
        simp only [scan, hdata, hlookup] at he
        exact hold e he callSeq hcall
      | some entry =>
        simp only [scan, hdata, hlookup] at he
        rcases mem_entries_set he with rfl | ⟨-, hmem⟩
        · exact ⟨event, by simp, Option.some.inj hcall⟩
        · exact hold e hmem callSeq hcall
    | toolResult _ _ c _ _ _ =>
      simp only [scan, hdata] at he
      exact hold e (mem_entries_erase.mp he).2 callSeq hcall
    | stepStart _ _ | assistantChunk _ _ | turnEnclosed | other =>
      simp only [scan, hdata] at he
      exact hold e he callSeq hcall

/-! ## What the constructor says of a closer -/

theorem interruptedId_ne_empty (callId : String) (seq : Int) : s!"interrupted-tool-result-{callId}-{seq}" ≠ "" := by
  intro h
  rw [String.append_eq_empty_iff, String.append_eq_empty_iff, String.append_eq_empty_iff] at h
  exact absurd h.1.1.1 (by decide)

theorem assertCurrentLlmShape_interruptedResult (turn : Number) (callId : String) (call : PendingCall)
    (seq time : Int) (index : Nat) :
    assertCurrentLlmShape "tool/result" (interruptedResult turn callId call seq time).data index
      = .ok () ↔ callId ≠ "" := by
  obtain ⟨message, hmessage, messageId, hid, hmessageId, hrole, hsource, block, hcontent, htype,
      htoolCallId, parts, hparts⟩ : ∃ message,
      messageOf "tool/result" (interruptedResult turn callId call seq time).data = some message ∧
      ∃ messageId, messageId ≠ "" ∧ field? (some message) "id" = some (.str messageId) ∧
      field? (some message) "role" = some (.str "user") ∧
      field? (some message) "source" = some (.obj [("kind", .str "tool"), ("callId", .str callId)]) ∧
      ∃ block, field? (some message) "content" = some (.arr [block]) ∧
        field? (some block) "type" = some (.str "tool-result") ∧
        field? (some block) "toolCallId" = some (.str callId) ∧
        ∃ parts, field? (some block) "content" = some (.arr parts) :=
    ⟨_, rfl, _, interruptedId_ne_empty callId seq, rfl, rfl, rfl, _, rfl, rfl, rfl, _, rfl⟩
  generalize (interruptedResult turn callId call seq time).data = data at hmessage ⊢
  have hkind : field? (some (.obj [("kind", .str "tool"), ("callId", .str callId)])) "kind" = some (.str "tool") := rfl
  have hcallId : field? (some (.obj [("kind", .str "tool"), ("callId", .str callId)])) "callId"
      = some (.str callId) := rfl
  by_cases hcall : callId = ""
  · subst hcall
    simp [assertCurrentLlmShape, assertMessageEventShape, assertToolResultShape, nonEmptyStr?,
      hmessage, hmessageId, hrole, hsource, hkind, hcallId, hcontent, hid, Json.str?, Json.arr?,
      require]
  · simp [assertCurrentLlmShape, assertMessageEventShape, assertToolResultShape, nonEmptyStr?,
      hmessage, hmessageId, hrole, hsource, hkind, hcallId, hcontent, htype, htoolCallId, hparts,
      hid, hcall, Json.str?, Json.arr?, require]

variable {time : Int}

theorem storable_interruptedResult (turn : Number) (callId : String) (call : PendingCall) (seq : Int)
    (htime : IsSafe time) : Storable (interruptedResult turn callId call seq time) :=
  ⟨interruptedResult_wf turn callId call seq time, htime, fun _ => rfl⟩

variable {index : Nat}

theorem admissible_stepCloser (turn step : Number) (hsafe : IsSafe index) (htime : IsSafe time) :
    Admissible index (stepCloser turn step index time).event :=
  ⟨rfl, hsafe, ⟨(stepCloser turn step index time).wf, htime, fun _ => rfl⟩, rfl⟩

theorem admissible_turnCloser (turn : Number) (hsafe : IsSafe index) (htime : IsSafe time) :
    Admissible index (turnCloser turn index time).event :=
  ⟨rfl, hsafe, ⟨(turnCloser turn index time).wf, htime, fun _ => rfl⟩, rfl⟩

/-! ## What the surface says of a closer -/

/-- The surface takes the event at position `index` whatever its state. -/
def Appendable (index : Nat) (e : SessionEvent) : Prop :=
  ∀ state log, ∃ plan, planSurfaceEvent state e index log 0 = .ok plan

theorem surfaceAfter_appendable {events more : List SessionEvent}
    {r : SurfaceFoldState × List SurfaceFoldReplacement} (h : surfaceAfter events = .ok r)
    (hmore : ∀ (i : Nat) e, more[i]? = some e → Appendable (events.length + i) e) :
    ∃ r', surfaceAfter (events ++ more) = .ok r' := by
  induction more generalizing events r with
  | nil => exact ⟨r, by simpa using h⟩
  | cons e more ih =>
    obtain ⟨state, rs⟩ := r
    obtain ⟨plan, hplan⟩ := hmore 0 e rfl state events
    rw [Nat.add_zero] at hplan
    have hone : surfaceAfter (events ++ [e]) = .ok ((applySurfacePlan state plan).1,
        rs ++ (applySurfacePlan state plan).2.toList) := by
      simp [surfaceAfter_snoc, h, applySurfaceEvent, hplan]
    rw [append_cons]
    refine ih hone fun i e' he' => ?_
    rw [length_append, length_singleton, Nat.add_assoc, Nat.add_comm 1]
    exact hmore (i + 1) e' he'

variable {call : PendingCall}

theorem citedSources_interruptedResult (turn : Number) (callId : String)
    {seq : Int} (time : Int) (hcall : ∀ callSeq, call.callSeq = some callSeq →
      0 ≤ callSeq ∧ callSeq < seq ∧ IsSafe callSeq) :
    citedSources (interruptedResult turn callId call seq time) = .ok call.callSeq.toList := by
  cases hseq : call.callSeq with
  | none => simp [citedSources, interruptedResult, hseq]
  | some callSeq =>
    obtain ⟨hpos, hlt, hsafe⟩ := hcall callSeq hseq
    have hread : eventSeq? (SessionEvent.intField callSeq) = some callSeq := by
      rw [eventSeq?, safeInt?_intField_eq, if_pos hsafe]
      simp [Option.filter_some, hpos]
    simp [citedSources, interruptedResult, hseq, SessionEvent.intArray, Json.arr?, hread, hlt]

theorem appendable_resultCloser (turn : Number) (callId : String) (hcall : ∀ callSeq, call.callSeq = some callSeq →
      0 ≤ callSeq ∧ callSeq < index ∧ IsSafe callSeq) :
    Appendable index (interruptedResult turn callId call index time) := by
  intro state log
  have hop : surfaceOpOf (interruptedResult turn callId call index time) = .ok (some .append) := rfl
  have hseq : (interruptedResult turn callId call index time).seq = index := rfl
  have hsources := citedSources_interruptedResult turn callId time hcall
  refine ⟨some (.append index), ?_⟩
  rw [planSurfaceEvent, if_neg (by simp [hseq]), hop, ok_bind]
  simp [assertProvenance, hsources, hseq]

theorem appendable_stepCloser (turn step : Number) (index : Nat) (time : Int) :
    Appendable index (stepCloser turn step index time).event := by
  intro state log
  have hop : surfaceOpOf (stepCloser turn step index time).event = .ok none := rfl
  exact ⟨none, by rw [planSurfaceEvent, if_neg (by simp [stepCloser, interruptedStepEnd]), hop]; rfl⟩

theorem appendable_turnCloser (turn : Number) (index : Nat) (time : Int) :
    Appendable index (turnCloser turn index time).event := by
  intro state log
  have hop : surfaceOpOf (turnCloser turn index time).event = .ok none := rfl
  exact ⟨none, by rw [planSurfaceEvent, if_neg (by simp [turnCloser, interruptedTurnEnd]), hop]; rfl⟩

/-! ## Which closers there are -/

inductive IsCloser (turn : Number) (time : Int) (s : RepairScan) : TypedEvent → Prop
  | result {callId : String} {call : PendingCall} {seq : Int}
      (h : (callId, call) ∈ s.pendingCalls.entries) :
      IsCloser turn time s (resultCloser turn callId call seq time)
  | stepEnd {step : Number} {seq : Int} : IsCloser turn time s (stepCloser turn step seq time)
  | turnEnd {seq : Int} : IsCloser turn time s (turnCloser turn seq time)

variable {calls : List (String × PendingCall)}

theorem mem_resultClosers {turn : Number} : ∀ {seq : Int} {e : TypedEvent}, e ∈ resultClosers turn time seq calls →
      ∃ c ∈ calls, ∃ seq', e = resultCloser turn c.1 c.2 seq' time := by
  induction calls with
  | nil => simp [resultClosers]
  | cons c calls ih =>
    intro seq e he
    rcases mem_cons.mp he with rfl | he
    · exact ⟨c, by simp, seq, rfl⟩
    · obtain ⟨c', hc', seq', heq⟩ := ih he
      exact ⟨c', mem_cons_of_mem _ hc', seq', heq⟩

theorem resultCloser_mem (turn : Number) (time : Int) {c : String × PendingCall} (hc : c ∈ calls) :
    ∀ seq : Int, ∃ seq', resultCloser turn c.1 c.2 seq' time ∈ resultClosers turn time seq calls := by
  induction calls with
  | nil => simp at hc
  | cons c' calls ih =>
    intro seq
    rcases mem_cons.mp hc with rfl | hc
    · exact ⟨seq, mem_cons_self⟩
    · obtain ⟨seq', hmem⟩ := ih hc (seq + 1)
      exact ⟨seq', mem_cons_of_mem _ hmem⟩

section

variable {log : List TypedEvent} {turn : Number} {last : TypedEvent}
  (hturn : (scanTurns log).openTurn = some turn) (hlast : log.getLast? = some last)

include hturn hlast

theorem interruptedTurnClosers_eq : interruptedTurnClosers log =
    resultClosers turn last.event.time (last.event.seq + 1) (scanTurns log).pendingCalls.entries
      ++ boundaryClosers turn (scanTurns log).openStep
          (last.event.seq + 1 + (scanTurns log).pendingCalls.entries.length) last.event.time := by
  simp only [interruptedTurnClosers, hturn, hlast]

theorem contiguous_closers : Contiguous (last.event.seq + 1) (interruptedTurnClosers log) := by
  rw [interruptedTurnClosers_eq hturn hlast]
  exact contiguous_resultClosers _ _ (contiguous_boundaryClosers _ _ _ _)

theorem isCloser_of_mem {e : TypedEvent} (he : e ∈ interruptedTurnClosers log) : IsCloser turn last.event.time (scanTurns log) e := by
  rw [interruptedTurnClosers_eq hturn hlast] at he
  rcases mem_append.mp he with he | he
  · obtain ⟨c, hc, seq, rfl⟩ := mem_resultClosers he
    exact .result hc
  · cases hstep : (scanTurns log).openStep with
    | none =>
      obtain rfl := mem_singleton.mp (by simpa [hstep, boundaryClosers] using he)
      exact .turnEnd
    | some step =>
      rw [hstep, boundaryClosers, mem_cons, mem_singleton] at he
      rcases he with rfl | rfl
      · exact .stepEnd
      · exact .turnEnd

end

variable {e : TypedEvent}

/-- A closer at its own position passes the constructor's checks, unless it answers an empty id. -/
theorem IsCloser.admitted {turn : Number} {s : RepairScan} (h : IsCloser turn time s e)
    (hseq : e.event.seq = index) (hsafe : IsSafe index) (htime : IsSafe time)
    (hempty : "" ∉ s.pendingCalls.keys)
    (hcalls : ∀ c ∈ s.pendingCalls.entries, ∀ callSeq, c.2.callSeq = some callSeq →
      0 ≤ callSeq ∧ callSeq < index ∧ IsSafe callSeq) :
    Admissible index e.event ∧ Appendable index e.event := by
  cases h with
  | @result callId call seq hmem =>
    obtain rfl : seq = index := hseq
    have hid : callId ≠ "" := fun h => hempty (h ▸ mem_keys.mpr ⟨call, hmem⟩)
    exact ⟨⟨rfl, hsafe, storable_interruptedResult turn callId call index htime,
      (assertCurrentLlmShape_interruptedResult turn callId call index time index).mpr hid⟩,
      appendable_resultCloser turn callId (hcalls _ hmem)⟩
  | @stepEnd step seq =>
    obtain rfl : seq = index := hseq
    exact ⟨admissible_stepCloser turn step hsafe htime, appendable_stepCloser turn step index time⟩
  | @turnEnd seq =>
    obtain rfl : seq = index := hseq
    exact ⟨admissible_turnCloser turn hsafe htime, appendable_turnCloser turn index time⟩

/-! ## Empty call ids -/

variable {callId : String}

theorem eventData?_toolResult {turn : Number} {event : SessionEvent} {step : Number}
    {appended isError : Bool} {errorCode : Option String}
    (h : eventData? event = some (.toolResult turn step callId appended isError errorCode)) :
    event.type = "tool/result" ∧
      field? (field? (field? (some event.data) "message") "source") "callId" = some (.str callId) := by
  unfold eventData? at h
  split at h <;> simp [stringField?, Option.bind_eq_some_iff] at h
  next htype =>
    obtain ⟨_, -, -, -, hcallId, -⟩ := h
    exact ⟨htype, hcallId⟩

theorem callId_of_shape {data : Json} (h : assertCurrentLlmShape "tool/result" data index = .ok ()) :
    (nonEmptyStr? (field? (field? (messageOf "tool/result" data) "source") "callId")).isSome := by
  obtain ⟨location, hshape⟩ : ∃ location, assertMessageEventShape "tool/result" data location = .ok () := ⟨_, h⟩
  rw [assertMessageEventShape, if_neg (by decide)] at hshape
  obtain ⟨-, -, -, hsource⟩ := by simpa only [require_bind_eq_ok_iff, and_assoc] using hshape
  split at hsource
  · cases hsource
  · rw [if_neg (by decide), if_pos trivial, assertToolResultShape, require_bind_eq_ok_iff] at hsource
    exact (Bool.and_eq_true_iff.mp hsource.1).2

theorem resultOf_ne_empty (hshape : assertCurrentLlmShape e.event.type e.event.data index = .ok ())
    (h : e.data.resultOf = some callId) : callId ≠ "" := by
  rintro rfl
  obtain ⟨event, wf, data, typed⟩ := e
  cases data with
  | toolResult turn step c appended isError errorCode =>
    cases h
    obtain ⟨htype, hcallId⟩ := eventData?_toolResult typed
    rw [htype] at hshape
    have hsource := callId_of_shape hshape
    rw [show messageOf "tool/result" event.data = field? (some event.data) "message" from rfl, hcallId] at hsource
    simp [nonEmptyStr?, Json.str?] at hsource
  | _ => cases h

theorem pending_empty_iff {log : List TypedEvent} (hlog : ∀ (i : Nat) e, log[i]? = some e →
      assertCurrentLlmShape e.event.type e.event.data i = .ok ()) :
    Pending log "" ↔ RequestedInTail log "" := by
  refine ⟨fun h => h.mono (fun _ _ hp => hp) fun d _ hq => .inl hq,
    fun h => h.mono (fun _ _ hp => hp) fun d hd hq => ?_⟩
  rcases hq with hq | hq
  · exact hq
  · obtain ⟨e, he, rfl⟩ := mem_map.mp hd
    obtain ⟨i, hi, hget⟩ := mem_iff_getElem.mp he
    exact absurd rfl (resultOf_ne_empty (hlog i e (List.getElem?_eq_some_iff.mpr ⟨hi, hget⟩)) hq)

/-! ## The repaired log -/

def maxArrayLength : Nat := 4294967295

theorem isSafe_of_lt_maxArrayLength {n : Nat} (h : n < maxArrayLength) : IsSafe n := by
  simp only [maxArrayLength, IsSafe] at *
  omega

def eventsOfTyped (log : List TypedEvent) : List SessionEvent := log.map (·.event)

theorem eventsOfTyped_wf (log : List TypedEvent) : ∀ e ∈ eventsOfTyped log, e.WF := by
  intro e he
  obtain ⟨event, -, rfl⟩ := mem_map.mp he
  exact event.wf

variable {id : String} {now : EpochMs}

theorem create_typed_iff {log : List TypedEvent} : (∃ s, Session.create id (some (seedOfEvents (eventsOfTyped log))) now = .ok s) ↔
      (∀ (i : Nat) e, log[i]? = some e → Admissible i e.event) ∧ ∃ r, surfaceAfter (eventsOfTyped log) = .ok r := by
  rw [create_ok_iff, Option.getD_some]
  simp only [admitSeeds_toJson_iff (eventsOfTyped_wf log), Nat.zero_add]
  constructor
  · rintro ⟨events, r, ⟨rfl, hall⟩, hfold⟩
    exact ⟨fun i e he => hall i e.event (by simp [eventsOfTyped, he]), r, hfold⟩
  · rintro ⟨hall, r, hfold⟩
    refine ⟨_, r, ⟨rfl, fun i e he => ?_⟩, hfold⟩
    obtain ⟨event, hevent, rfl⟩ := by simpa [eventsOfTyped] using he
    exact hall i event hevent

/-- **When a session can be repaired and loaded again.**  The constructor accepts an accepted log with its closers
exactly when no assistant message after the last boundary of an open turn requests a call with an empty id. -/
theorem create_closers_iff {log : List TypedEvent} {id' : String} {now' : EpochMs} {s : Session}
    (h : Session.create id (some (seedOfEvents (eventsOfTyped log))) now = .ok s)
    (hlength : (log ++ interruptedTurnClosers log).length ≤ maxArrayLength) :
    (∃ s', Session.create id'
        (some (seedOfEvents (eventsOfTyped (log ++ interruptedTurnClosers log)))) now' = .ok s') ↔
      (TurnOpen log → ¬ RequestedInTail log "") := by
  obtain ⟨hadmissible, r, hfold⟩ := create_typed_iff.mp ⟨s, h⟩
  have hempty := pending_empty_iff fun i e he => (hadmissible i e he).shape
  rw [create_typed_iff, ← openTurn_scanTurns, ← hempty, ← mem_keys_scanTurns]
  cases hturn : (scanTurns log).openTurn with
  | none =>
    have hclosers : interruptedTurnClosers log = [] := by simp only [interruptedTurnClosers, hturn]
    rw [hclosers, append_nil]
    exact ⟨fun _ => (fun h => by cases h), fun _ => ⟨hadmissible, r, hfold⟩⟩
  | some turn =>
    obtain ⟨last, hlast⟩ : ∃ last, log.getLast? = some last := by
      cases hlog : log.getLast? with
      | some last => exact ⟨last, rfl⟩
      | none =>
        rw [List.getLast?_eq_none_iff] at hlog
        subst hlog
        cases hturn
    have hseq : last.event.seq + 1 = (log.length : Int) := by
      have hget : log[log.length - 1]? = some last := by rw [← List.getLast?_eq_getElem?, hlast]
      have hpos : 0 < log.length := length_pos_of_mem (mem_of_getLast? hlast)
      have hlastSeq := (hadmissible _ last hget).seq
      omega
    have hcontiguous := contiguous_closers hturn hlast
    rw [hseq] at hcontiguous
    have hsafe : ∀ i : Nat, i < (interruptedTurnClosers log).length → IsSafe (log.length + i : Nat) :=
      fun i hi => isSafe_of_lt_maxArrayLength (by rw [length_append] at hlength; omega)
    have htime : IsSafe last.event.time := by
      obtain ⟨i, hi, hget⟩ := mem_iff_getElem.mp (mem_of_getLast? hlast)
      exact (hadmissible i last (List.getElem?_eq_some_iff.mpr ⟨hi, hget⟩)).storable.time
    simp only [Option.isSome_some, true_implies]
    constructor
    · rintro ⟨hall, -⟩ hmem
      -- The pending call with the empty id has a closer, which the shape check refuses.
      obtain ⟨call, hcall⟩ := InsertionMap.mem_keys.mp hmem
      obtain ⟨seq, hcloser⟩ := resultCloser_mem turn last.event.time hcall (last.event.seq + 1)
      have hin : resultCloser turn "" call seq last.event.time ∈ log ++ interruptedTurnClosers log := by
        rw [interruptedTurnClosers_eq hturn hlast]
        exact mem_append_right _ (mem_append_left _ hcloser)
      obtain ⟨i, hi, hget⟩ := mem_iff_getElem.mp hin
      have hshape := (hall i _ (List.getElem?_eq_some_iff.mpr ⟨hi, hget⟩)).shape
      exact (assertCurrentLlmShape_interruptedResult turn "" call seq last.event.time i).mp hshape rfl
    · intro hempty
      have hcalls : ∀ c ∈ (scanTurns log).pendingCalls.entries, ∀ callSeq, c.2.callSeq = some callSeq →
          0 ≤ callSeq ∧ callSeq < (log.length : Int) ∧ IsSafe callSeq := by
        intro c hc callSeq hcall
        obtain ⟨event, hmem, rfl⟩ := callSeq_mem_seqs log c hc callSeq hcall
        obtain ⟨i, hi, hget⟩ := mem_iff_getElem.mp hmem
        have hevent := hadmissible i event (List.getElem?_eq_some_iff.mpr ⟨hi, hget⟩)
        rw [hevent.seq]
        exact ⟨Int.natCast_nonneg i, by omega, hevent.safe⟩
      have hclosers : ∀ (i : Nat) e, (interruptedTurnClosers log)[i]? = some e →
          Admissible (log.length + i) e.event ∧ Appendable (log.length + i) e.event := by
        intro i e he
        have hi := (List.getElem?_eq_some_iff.mp he).1
        refine (isCloser_of_mem hturn hlast (mem_of_getElem? he)).admitted ?_ (hsafe i hi) htime
          hempty fun c hc callSeq hcall => ?_
        · rw [hcontiguous i e he]
          push_cast
          rfl
        · obtain ⟨hpos, hlt, hsafeSeq⟩ := hcalls c hc callSeq hcall
          exact ⟨hpos, by push_cast; omega, hsafeSeq⟩
      refine ⟨fun i e he => ?_, ?_⟩
      · rcases Nat.lt_or_ge i log.length with hi | hi
        · rw [List.getElem?_append_left hi] at he
          exact hadmissible i e he
        · rw [List.getElem?_append_right hi] at he
          have hcloser := (hclosers _ e he).1
          rwa [Nat.add_sub_cancel' hi] at hcloser
      · rw [eventsOfTyped, map_append]
        refine surfaceAfter_appendable hfold fun i e he => ?_
        obtain ⟨closer, hget, rfl⟩ := by simpa using he
        rw [length_map]
        exact (hclosers i closer hget).2

/-- The events up to a call with this id, requested and not recorded. -/
def requestedLog (callId : String) : List TypedEvent :=
  [startedTurn 0, startedStep 1 1, assistantRequest 2 1 "m1" callId]

/-- A requested call with an id is closed and loads again. -/
theorem create_closers_identified : ∃ s', Session.create "s" (some (seedOfEvents (eventsOfTyped
      (requestedLog "c" ++ interruptedTurnClosers (requestedLog "c"))))) ⟨0, by decide⟩ = .ok s' := by
  obtain ⟨s, hs⟩ : ∃ s, Session.create "s" (some (seedOfEvents (eventsOfTyped (requestedLog "c"))))
      ⟨0, by decide⟩ = .ok s := ⟨_, rfl⟩
  exact (create_closers_iff hs (by decide)).mpr fun _ => by
    rw [RequestedInTail]
    decide

/-- **A session that cannot be loaded again**: its last message requests a call with an empty id. -/
theorem empty_call_id_unloadable : ¬ ∀ (log : List TypedEvent) (id : String) (now : EpochMs),
      (∃ s, Session.create id (some (seedOfEvents (eventsOfTyped log))) now = .ok s) →
      ∃ s', Session.create id (some (seedOfEvents (eventsOfTyped
        (log ++ interruptedTurnClosers log)))) now = .ok s' := by
  intro h
  obtain ⟨s', hs'⟩ := h (requestedLog "") "s" ⟨0, by decide⟩ ⟨_, rfl⟩
  have hrefused : Session.create "s" (some (seedOfEvents (eventsOfTyped
      (requestedLog "" ++ interruptedTurnClosers (requestedLog ""))))) ⟨0, by decide⟩
      = .error (.error "seed tool/result at index 3 message must have tool source") := rfl
  rw [hrefused] at hs'
  cases hs'

end CocoHarness.SessionLog
