/-
# CocoHarness.SessionLog.RepairInvariant — when the repaired log is sound.

The repair keeps its own account of the open turn, the open step and the calls still to answer, beside the trace of
the invariant machine.  Read off the log itself, a call is unanswered when no appended result and no step end came
after it (`Unanswered`), and the repair holds it as pending when an assistant message requested it and no result of
any kind came after (`Registered`).  The scan and the trace agree on everything but this difference (`Agree`, kept by
every event), so the closers always balance the log, and they answer every unanswered call exactly when the two
notions coincide (`interruptedTurnClosers_repairs_iff`).
-/
import CocoHarness.Lib.Since
import CocoHarness.SessionLog.Repair
import CocoHarness.SessionLog.Surface

namespace CocoHarness.SessionLog

open Lib Lib.SafeInteger List EventData InsertionMap RepairScan

/-! ## Calls and results, read off the log -/

namespace EventData

/-- The calls an event makes: the tool-call blocks of an assistant message, or one recorded call. -/
def calls : EventData → List String
  | .assistantMessage _ _ toolCalls => toolCalls
  | .toolCall _ _ callId => [callId]
  | _ => []

def requested : EventData → List String
  | .assistantMessage _ _ toolCalls => toolCalls
  | _ => []

def answered : EventData → Option String
  | .toolResult _ _ callId true _ _ => some callId
  | _ => none

/-- The call a result names, appended or replacing an earlier one. -/
def resultOf : EventData → Option String
  | .toolResult _ _ callId _ _ _ => some callId
  | _ => none

def endsStep : EventData → Bool
  | .stepEnd _ _ => true
  | _ => false

end EventData

def dataOf (log : List TypedEvent) : List EventData := log.map (·.data)

/-- A tool call of the open step that no appended result answers. -/
def Unanswered (log : List TypedEvent) (callId : String) : Prop :=
  Since (callId ∈ ·.calls) (fun d => d.endsStep ∨ d.answered = some callId) (dataOf log)

/-- A call requested in the open step that no result has named since. -/
def Registered (log : List TypedEvent) (callId : String) : Prop :=
  Since (callId ∈ ·.requested) (fun d => d.endsStep ∨ d.resultOf = some callId) (dataOf log)

instance (log : List TypedEvent) (callId : String) : Decidable (Unanswered log callId) :=
  inferInstanceAs (Decidable (Since _ _ _))

instance (log : List TypedEvent) (callId : String) : Decidable (Registered log callId) :=
  inferInstanceAs (Decidable (Since _ _ _))

theorem not_unanswered_nil (callId : String) : ¬ Unanswered [] callId := Since.since_nil

theorem not_registered_nil (callId : String) : ¬ Registered [] callId := Since.since_nil

variable {log : List TypedEvent} {event : TypedEvent} {callId : String}

theorem unanswered_snoc : Unanswered (log ++ [event]) callId ↔ callId ∈ event.data.calls ∨
      Unanswered log callId ∧ ¬ (event.data.endsStep ∨ event.data.answered = some callId) := by
  rw [Unanswered, dataOf, map_append, map_singleton, Since.since_snoc]
  rfl

theorem registered_snoc : Registered (log ++ [event]) callId ↔ callId ∈ event.data.requested ∨
      Registered log callId ∧ ¬ (event.data.endsStep ∨ event.data.resultOf = some callId) := by
  rw [Registered, dataOf, map_append, map_singleton, Since.since_snoc]
  rfl

theorem Registered.unanswered (h : Registered log callId) : Unanswered log callId := by
  refine h.mono ?_ ?_
  · intro d _ hd
    cases d <;> first | exact hd | exact absurd hd not_mem_nil
  · rintro d - (hd | hd)
    · exact .inl hd
    · cases d with
      | toolResult _ _ _ appended => cases appended <;> first | exact .inr hd | cases hd
      | _ => cases hd

/-! ## The scan follows the trace -/

variable {step : Number} {pending : InsertionMap String PendingCall}

@[simp] theorem mem_keys_registerCalls
    {calls : List String} :
    callId ∈ (registerCalls step pending calls).keys ↔ callId ∈ calls ∨ callId ∈ pending.keys := by
  induction calls generalizing pending with
  | nil => simp [registerCalls]
  | cons call calls ih =>
    rw [registerCalls, foldl_cons, ← registerCalls, ih, mem_keys_set,
      mem_cons, or_left_comm, or_assoc]

theorem mem_entries_registerCalls {calls : List String} {e : String × PendingCall}
    (h : e ∈ (registerCalls step pending calls).entries) :
    e.2 = { step } ∨ e ∈ pending.entries := by
  induction calls generalizing pending with
  | nil => exact .inr h
  | cons call calls ih =>
    rcases ih h with hnew | hold
    · exact .inl hnew
    · rcases InsertionMap.mem_entries_set hold with rfl | ⟨-, hmem⟩
      · exact .inl rfl
      · exact .inr hmem

structure Agree (log : List TypedEvent) (trace : SessionTrace) (s : RepairScan) : Prop where
  turn : s.openTurn = trace.openTurn
  step : s.openStep = trace.openStep
  nested : trace.openTurn = none → trace.openStep = none
  idle : trace.openStep = none → ∀ callId, ¬ Unanswered log callId
  keys : ∀ callId, callId ∈ s.pendingCalls.keys ↔ Registered log callId
  entries : ∀ e ∈ s.pendingCalls.entries,
    some e.2.step = trace.openStep ∧ (e.2.callSeq.isSome → e.1 ∈ trace.pendingCalls)
  last : ∀ last, log.getLast? = some last → last.event.seq = trace.lastSeq
  started : trace.openTurn.isSome → log ≠ []

theorem agree_fresh : Agree [] freshTrace {} where
  turn := rfl
  step := rfl
  nested _ := rfl
  idle _ := not_unanswered_nil
  keys callId := by simp [not_registered_nil]
  entries := by simp
  last := by simp
  started := by simp [freshTrace]

namespace Agree

variable {log : List TypedEvent} {trace trace' : SessionTrace} {s : RepairScan} {event : TypedEvent}

theorem pendingCalls_eq_empty (h : Agree log trace s) (hstep : trace.openStep = none) : s.pendingCalls = ∅ :=
  eq_empty_of_keys fun callId hmem => h.idle hstep callId ((h.keys callId).mp hmem).unanswered

theorem not_registered (h : Agree log trace s) (hstep : trace.openStep = none) (callId : String) :
    ¬ Registered log callId :=
  fun hreg => h.idle hstep callId hreg.unanswered

/-- An event that neither calls, answers nor moves a cursor keeps the agreement. -/
theorem quiet (h : Agree log trace s) (hcalls : event.data.calls = [])
    (hrequested : event.data.requested = []) (hresult : event.data.resultOf = none)
    (hanswered : event.data.answered = none) (hends : event.data.endsStep = false) :
    Agree (log ++ [event]) { trace with lastSeq := event.event.seq } s where
  turn := h.turn
  step := h.step
  nested := h.nested
  idle hstep callId := by simpa [unanswered_snoc, hcalls, hanswered, hends] using h.idle hstep callId
  keys callId := by simpa [registered_snoc, hrequested, hresult, hends] using h.keys callId
  entries := h.entries
  last := by simp
  started := by simp

/-- **One event.** What the machine accepts keeps the scan and the trace in agreement. -/
theorem observe (h : Agree log trace s) (hobserve : trace.observe event = .ok trace') :
    Agree (log ++ [event]) trace' (s.scan event) := by
  obtain ⟨-, hcase⟩ := observe_ok_iff.mp hobserve
  obtain ⟨event, wf, data, typed⟩ := event
  cases data with
  | turnStart turn =>
    obtain ⟨hopen, -, rfl⟩ := hcase
    have hidle := h.nested hopen
    refine ⟨rfl, hidle.symm, nofun, fun _ callId => ?_, fun callId => ?_, by simp [scan],
      by simp, by simp⟩
    · simpa [unanswered_snoc, calls, endsStep, answered]
        using h.idle hidle callId
    · simpa [scan, registered_snoc, requested, endsStep,
        resultOf] using h.not_registered hidle callId
  | turnEnd turn =>
    obtain ⟨hopen, hidle, rfl⟩ := hcase
    refine ⟨rfl, hidle.symm, fun _ => hidle, fun _ callId => ?_, fun callId => ?_,
      by simp [scan], by simp, by simp⟩
    · simpa [unanswered_snoc, calls, endsStep, answered]
        using h.idle hidle callId
    · simpa [scan, registered_snoc, requested, endsStep,
        resultOf] using h.not_registered hidle callId
  | stepStart turn step =>
    obtain ⟨hopen, hidle, -, rfl⟩ := hcase
    refine ⟨h.turn, rfl, by simp [hopen], nofun, fun callId => ?_, ?_, by simp, by simp⟩
    · simpa [scan, registered_snoc, requested, endsStep,
        resultOf] using h.keys callId
    · simp [scan, h.pendingCalls_eq_empty hidle]
  | stepEnd turn step =>
    obtain ⟨hopen, rfl⟩ := hcase
    refine ⟨h.turn, rfl, by simp, fun _ callId => ?_, fun callId => ?_, by simp [scan],
      by simp, by simp⟩
    · simp [unanswered_snoc, calls, endsStep]
    · simp [scan, registered_snoc, requested, endsStep]
  | assistantMessage turn step toolCalls =>
    obtain ⟨hopen, rfl⟩ := hcase
    refine ⟨h.turn, h.step, h.nested, by simp [hopen.2], fun callId => ?_, fun e he => ?_, by simp,
      by simp⟩
    · simp [scan, registered_snoc, requested, endsStep,
        resultOf, h.keys callId]
    · rcases mem_entries_registerCalls he with hnew | hold
      · rw [hnew]
        exact ⟨hopen.2.symm, nofun⟩
      · exact h.entries e hold
  | toolCall turn step callId =>
    obtain ⟨hopen, rfl⟩ := hcase
    have hkeys : ∀ c, c ∈ s.pendingCalls.keys ↔
        Registered (log ++ [⟨event, wf, .toolCall turn step callId, typed⟩]) c := by
      intro c
      simpa [registered_snoc, requested, endsStep, resultOf]
        using h.keys c
    have hentries : ∀ e ∈ s.pendingCalls.entries, some e.2.step = trace.openStep ∧
        (e.2.callSeq.isSome → e.1 ∈ insert callId trace.pendingCalls) :=
      fun e he => ⟨(h.entries e he).1, fun hseq => Finset.mem_insert_of_mem ((h.entries e he).2 hseq)⟩
    cases hlookup : s.pendingCalls.lookup callId with
    | none =>
      have hscan : s.scan ⟨event, wf, .toolCall turn step callId, typed⟩ = s := by simp [scan, hlookup]
      rw [hscan]
      exact ⟨h.turn, h.step, h.nested, by simp [hopen.2], hkeys, hentries, by simp, by simp⟩
    | some entry =>
      have hscan : s.scan ⟨event, wf, .toolCall turn step callId, typed⟩ = { s with
          pendingCalls := s.pendingCalls.set callId { entry with callSeq := some event.seq } } := by
        simp [scan, hlookup]
      have hentry := InsertionMap.lookup_eq_some_iff.mp hlookup
      rw [hscan]
      refine ⟨h.turn, h.step, h.nested, by simp [hopen.2], fun c => ?_, fun e he => ?_, by simp,
        by simp⟩
      · rw [← hkeys, mem_keys_set, or_iff_right_iff_imp]
        rintro rfl
        exact InsertionMap.mem_keys.mpr ⟨entry, hentry⟩
      · rcases InsertionMap.mem_entries_set he with rfl | ⟨-, hmem⟩
        · exact ⟨(h.entries _ hentry).1, fun _ => Finset.mem_insert_self _ _⟩
        · exact hentries e hmem
  | toolResult turn step callId appended isError errorCode =>
    have hkeys : ∀ c, c ∈ (s.pendingCalls.erase callId).keys ↔ Registered
        (log ++ [⟨event, wf, .toolResult turn step callId appended isError errorCode, typed⟩]) c := by
      intro c
      rw [mem_keys_erase, h.keys c]
      simp [registered_snoc, requested, endsStep, resultOf, and_comm, eq_comm]
    cases appended with
    | false =>
      obtain ⟨hopen, rfl⟩ := hcase
      refine ⟨h.turn, h.step, h.nested, fun hidle c => ?_, hkeys, fun e he => ?_, by simp, by simp⟩
      · simpa [unanswered_snoc, calls, endsStep, answered]
          using h.idle hidle c
      · exact h.entries e (mem_entries_erase.mp he).2
    | true =>
      obtain ⟨hopen, -, rfl⟩ := hcase
      refine ⟨h.turn, h.step, h.nested, by simp [hopen.2], hkeys, fun e he => ?_, by simp, by simp⟩
      obtain ⟨hne, hmem⟩ := mem_entries_erase.mp he
      exact ⟨(h.entries e hmem).1, fun hseq => Finset.mem_erase.mpr ⟨hne, (h.entries e hmem).2 hseq⟩⟩
  | assistantChunk turn step | turnEnclosed =>
    obtain ⟨-, rfl⟩ := hcase
    refine h.quiet ?_ ?_ ?_ ?_ ?_ <;> rfl
  | other =>
    subst hcase
    refine h.quiet ?_ ?_ ?_ ?_ ?_ <;> rfl

end Agree

theorem agree_scanTurns {trace : SessionTrace} (h : runTrace freshTrace log = .ok trace) : Agree log trace (scanTurns log) := by
  induction log using List.reverseRecOn generalizing trace with
  | nil =>
    cases h
    exact agree_fresh
  | append_singleton log event ih =>
    rw [runTrace_append, bind_eq_ok_iff] at h
    obtain ⟨before, hbefore, hlast⟩ := h
    rw [runTrace_cons, bind_eq_ok_iff] at hlast
    obtain ⟨after, hobserve, hnil⟩ := hlast
    cases hnil
    rw [scanTurns, foldl_append, ← scanTurns]
    exact (ih hbefore).observe hobserve

/-! ## The closers run -/

variable {calls : List (String × PendingCall)}

theorem runTrace_resultClosers (turn step : Number) (time : Int) (hnodup : (calls.map Prod.fst).Nodup) :
    ∀ (trace : SessionTrace) (seq : Int), trace.Open turn step → trace.lastSeq < seq →
      (∀ e ∈ calls, e.2.step = step ∧ (e.2.callSeq.isSome → e.1 ∈ trace.pendingCalls)) →
      ∃ trace', runTrace trace (resultClosers turn time seq calls) = .ok trace' ∧
        trace'.Open turn step ∧ trace'.lastSeq < seq + calls.length := by
  induction calls with
  | nil =>
    intro trace seq hopen hseq _
    exact ⟨trace, rfl, hopen, by simpa using hseq⟩
  | cons e calls ih =>
    obtain ⟨callId, call⟩ := e
    obtain ⟨hfresh, hnodup⟩ := nodup_cons.mp hnodup
    intro trace seq hopen hseq hcalls
    obtain ⟨hstep, hpending⟩ := hcalls _ mem_cons_self
    have hanswers : callId ∈ trace.pendingCalls ∨
        true ∧ some (interruptedCode call.callSeq.isSome) = some toolNotStarted := by
      cases hcall : call.callSeq.isSome with
      | true => exact .inl (hpending hcall)
      | false => exact .inr ⟨rfl, rfl⟩
    have hobserve : trace.observe (resultCloser turn callId call seq time) = .ok
        { trace with lastSeq := seq, pendingCalls := trace.pendingCalls.erase callId } :=
      observe_ok_iff.mpr ⟨hseq, ⟨hopen.1, hstep ▸ hopen.2⟩, by simpa using hanswers, rfl⟩
    obtain ⟨trace', hrun, hopen', hseq'⟩ := ih hnodup
      { trace with lastSeq := seq, pendingCalls := trace.pendingCalls.erase callId } (seq + 1)
      hopen (Int.lt_succ seq) fun e he => by
        obtain ⟨hstep, hpending⟩ := hcalls e (mem_cons_of_mem _ he)
        refine ⟨hstep, fun hcall => Finset.mem_erase.mpr ⟨?_, hpending hcall⟩⟩
        rintro rfl
        exact hfresh (mem_map.mpr ⟨e, he, rfl⟩)
    refine ⟨trace', ?_, hopen', ?_⟩
    · rw [resultClosers, runTrace_cons, hobserve]
      exact hrun
    · rw [length_cons]
      omega

variable {turn : Number} {seq : Int}

theorem runTrace_boundaryClosers {trace : SessionTrace} (time : Int) (hturn : trace.openTurn = some turn) (hseq : trace.lastSeq < seq) :
    ∃ trace', runTrace trace (boundaryClosers turn trace.openStep seq time) = .ok trace' ∧
      trace'.openTurn = none ∧ trace'.openStep = none := by
  cases hstep : trace.openStep with
  | none =>
    let closed : SessionTrace := { trace with lastSeq := seq, openTurn := none, nextTurn := fadd trace.nextTurn 1 }
    have hturnEnd : trace.observe (turnCloser turn seq time) = .ok closed :=
      observe_ok_iff.mpr ⟨hseq, hturn, hstep, rfl⟩
    refine ⟨closed, ?_, rfl, hstep⟩
    rw [boundaryClosers, runTrace_cons, hturnEnd, ok_bind, runTrace_nil]
  | some step =>
    let ended : SessionTrace :=
      { trace with
        lastSeq := seq, openStep := none, nextStep := fadd trace.nextStep 1, pendingCalls := ∅ }
    let closed : SessionTrace :=
      { ended with lastSeq := seq + 1, openTurn := none, nextTurn := fadd ended.nextTurn 1 }
    have hstepEnd : trace.observe (stepCloser turn step seq time) = .ok ended :=
      observe_ok_iff.mpr ⟨hseq, ⟨hturn, hstep⟩, rfl⟩
    have hturnEnd : ended.observe (turnCloser turn (seq + 1) time) = .ok closed :=
      observe_ok_iff.mpr ⟨Int.lt_succ seq, hturn, rfl, rfl⟩
    refine ⟨closed, ?_, rfl, rfl⟩
    rw [boundaryClosers, runTrace_cons, hstepEnd, ok_bind, runTrace_cons, hturnEnd, ok_bind, runTrace_nil]

/-! ## The seqs and the answers of the closers -/

def Contiguous (seq : Int) (events : List TypedEvent) : Prop :=
  ∀ (i : Nat) e, events[i]? = some e → e.event.seq = seq + i

theorem contiguous_cons {events : List TypedEvent} (hevent : event.event.seq = seq)
    (h : Contiguous (seq + 1) events) : Contiguous seq (event :: events) := by
  intro i e he
  cases i with
  | zero =>
    cases he
    simpa using hevent
  | succ i =>
    rw [h i e he]
    push_cast
    omega

theorem contiguous_nil (seq : Int) : Contiguous seq [] := by
  intro i e he
  simp at he

theorem contiguous_resultClosers (turn : Number) (time : Int) {rest : List TypedEvent} :
    ∀ {seq : Int}, Contiguous (seq + calls.length) rest →
      Contiguous seq (resultClosers turn time seq calls ++ rest) := by
  induction calls with
  | nil =>
    intro seq h
    simpa [resultClosers] using h
  | cons call calls ih =>
    intro seq h
    rw [length_cons] at h
    push_cast at h
    exact contiguous_cons rfl (ih (by rwa [add_assoc, add_comm 1]))

theorem contiguous_boundaryClosers (turn : Number) (openStep : Option Number) (seq time : Int) :
    Contiguous seq (boundaryClosers turn openStep seq time) := by
  cases openStep with
  | none => exact contiguous_cons rfl (contiguous_nil _)
  | some step => exact contiguous_cons rfl (contiguous_cons rfl (contiguous_nil _))

def answeredCalls (events : List TypedEvent) : List String := (dataOf events).filterMap EventData.answered

theorem answeredCalls_resultClosers (turn : Number) (time seq : Int) (calls : List (String × PendingCall)) :
    answeredCalls (resultClosers turn time seq calls) = calls.map Prod.fst := by
  induction calls generalizing seq with
  | nil => rfl
  | cons call calls ih => exact congrArg (call.1 :: ·) (ih (seq + 1))

theorem answeredCalls_boundaryClosers (turn : Number) (openStep : Option Number) (seq time : Int) :
    answeredCalls (boundaryClosers turn openStep seq time) = [] := by
  cases openStep <;> rfl

theorem resultClosers_endsStep {time : Int} : ∀ e ∈ resultClosers turn time seq calls, e.data.endsStep = false := by
  induction calls generalizing seq with
  | nil => simp [resultClosers]
  | cons call calls ih =>
    intro e he
    rcases mem_cons.mp he with rfl | he
    · rfl
    · exact ih e he

namespace Agree

variable {log : List TypedEvent} {trace : SessionTrace}

theorem closers_of_closed (h : Agree log trace (scanTurns log)) (hturn : trace.openTurn = none) :
    interruptedTurnClosers log = [] := by
  simp only [interruptedTurnClosers, h.turn, hturn]

theorem closers_of_open (h : Agree log trace (scanTurns log))
    (hturn : trace.openTurn = some turn) : ∃ last, log.getLast? = some last ∧ interruptedTurnClosers log
        = resultClosers turn last.event.time (trace.lastSeq + 1) (scanTurns log).pendingCalls.entries
          ++ boundaryClosers turn trace.openStep
              (trace.lastSeq + 1 + (scanTurns log).pendingCalls.entries.length) last.event.time := by
  obtain ⟨last, hlast⟩ := Option.isSome_iff_exists.mp
    (getLast?_isSome.mpr (h.started (by simp [hturn])))
  refine ⟨last, hlast, ?_⟩
  simp only [interruptedTurnClosers, h.turn, hturn, hlast, h.step, h.last last hlast]

theorem answeredCalls_closers (h : Agree log trace (scanTurns log)) :
    answeredCalls (interruptedTurnClosers log) = (scanTurns log).pendingCalls.keys := by
  cases hturn : trace.openTurn with
  | none =>
    rw [h.closers_of_closed hturn, h.pendingCalls_eq_empty (h.nested hturn)]
    rfl
  | some turn =>
    obtain ⟨last, -, hclosers⟩ := h.closers_of_open hturn
    have hends := answeredCalls_boundaryClosers turn trace.openStep
      (trace.lastSeq + 1 + (scanTurns log).pendingCalls.entries.length) last.event.time
    have hresults := answeredCalls_resultClosers turn last.event.time (trace.lastSeq + 1)
      (scanTurns log).pendingCalls.entries
    rw [hclosers]
    simp only [answeredCalls, dataOf, map_append, filterMap_append] at hends hresults ⊢
    rw [hends, hresults, append_nil]
    rfl

theorem runTrace_closers (h : Agree log trace (scanTurns log)) :
    ∃ trace', runTrace trace (interruptedTurnClosers log) = .ok trace' ∧
      trace'.openTurn = none ∧ trace'.openStep = none := by
  cases hturn : trace.openTurn with
  | none =>
    rw [h.closers_of_closed hturn]
    exact ⟨trace, rfl, hturn, h.nested hturn⟩
  | some turn =>
    obtain ⟨last, -, hclosers⟩ := h.closers_of_open hturn
    rw [hclosers]
    cases hstep : trace.openStep with
    | none =>
      have hends := runTrace_boundaryClosers last.event.time hturn (Int.lt_succ trace.lastSeq)
      rw [hstep] at hends
      simpa [h.pendingCalls_eq_empty hstep, resultClosers] using hends
    | some step =>
      obtain ⟨trace₁, hrun, hopen, hseq⟩ := runTrace_resultClosers turn step
        last.event.time (scanTurns log).pendingCalls.nodup trace (trace.lastSeq + 1) ⟨hturn, hstep⟩ (Int.lt_succ _) fun e he =>
          ⟨Option.some.inj ((h.entries e he).1.trans hstep), (h.entries e he).2⟩
      rw [runTrace_append, hrun, ok_bind, ← hopen.2]
      exact runTrace_boundaryClosers _ hopen.1 hseq

end Agree

/-! ## What a repair owes -/

def nextSeq (log : List TypedEvent) : Int :=
  match log.getLast? with
  | some last => last.event.seq + 1
  | none => 0

theorem nextSeq_of_getLast? {last : TypedEvent} (h : log.getLast? = some last) : nextSeq log = last.event.seq + 1 := by
  rw [nextSeq, h]

/-- The machine accepts the closers and nothing is left open, their seqs continue the log's, exactly the unanswered
calls get one appended result each, no result follows a step end, and the repaired log needs no repair. -/
structure Repairs (log closers : List TypedEvent) : Prop where
  accepted : ∃ trace, runTrace freshTrace (log ++ closers) = .ok trace ∧ trace.openTurn = none ∧ trace.openStep = none
  contiguous : Contiguous (nextSeq log) closers
  once : (answeredCalls closers).Nodup
  answered : ∀ callId, callId ∈ answeredCalls closers ↔ Unanswered log callId
  beforeStepEnd : ∃ results ends, closers = results ++ ends ∧
    (∀ e ∈ results, e.data.endsStep = false) ∧ answeredCalls ends = []
  balanced : interruptedTurnClosers (log ++ closers) = []

/-- **When the repair is sound**: exactly when every unanswered call was requested by an assistant message that no
result for the call comes after. -/
theorem interruptedTurnClosers_repairs_iff {trace : SessionTrace} (h : runTrace freshTrace log = .ok trace) :
    Repairs log (interruptedTurnClosers log) ↔ ∀ callId, Unanswered log callId → Registered log callId := by
  have hagree := agree_scanTurns h
  have hcalls := hagree.answeredCalls_closers
  obtain ⟨closed, hrun, hturn, hstep⟩ := hagree.runTrace_closers
  have haccepted : runTrace freshTrace (log ++ interruptedTurnClosers log) = .ok closed := by
    rw [runTrace_append, h, ok_bind, hrun]
  constructor
  · intro hrepairs callId hunanswered
    rw [← hagree.keys callId, ← hcalls]
    exact (hrepairs.answered callId).mpr hunanswered
  · intro hregistered
    refine ⟨⟨closed, haccepted, hturn, hstep⟩, ?_, ?_, fun callId => ?_, ?_,
      (agree_scanTurns haccepted).closers_of_closed hturn⟩
    · cases hopen : trace.openTurn with
      | none =>
        rw [hagree.closers_of_closed hopen]
        exact contiguous_nil _
      | some turn =>
        obtain ⟨last, hlast, hclosers⟩ := hagree.closers_of_open hopen
        rw [hclosers, nextSeq_of_getLast? hlast, hagree.last last hlast]
        exact contiguous_resultClosers _ _ (contiguous_boundaryClosers _ _ _ _)
    · rw [hcalls]
      exact InsertionMap.keys_nodup _
    · rw [hcalls, hagree.keys callId]
      exact ⟨Registered.unanswered, hregistered callId⟩
    · cases hopen : trace.openTurn with
      | none => exact ⟨[], [], hagree.closers_of_closed hopen, by simp, rfl⟩
      | some turn =>
        obtain ⟨last, -, hclosers⟩ := hagree.closers_of_open hopen
        exact ⟨_, _, hclosers, resultClosers_endsStep, answeredCalls_boundaryClosers _ _ _ _⟩

/-! ## A reused call id and a rewritten result -/

def stepData (step : Int) (fields : List (String × Json)) : Json :=
  .obj ([("turn", SessionEvent.intField 1), ("step", SessionEvent.intField step)] ++ fields)

def startedTurn (seq : Int) : TypedEvent where
  event := { type := "turn/start", seq, time := 0, data := .obj [("turn", SessionEvent.intField 1)] }
  wf := ⟨by simp [Json.keys, SessionEvent.intField], nofun, nofun⟩
  data := .turnStart (.int 1)
  typed := rfl

def startedStep (seq step : Int) : TypedEvent where
  event := { type := "step/start", seq, time := 0, data := stepData step [] }
  wf := ⟨by simp [stepData, Json.keys, SessionEvent.intField], nofun, nofun⟩
  data := .stepStart (.int 1) (.int step)
  typed := rfl

def assistantRequest (seq step : Int) (messageId callId : String) : TypedEvent where
  event := {
    type := "assistant/message", seq, time := 0, surfaceOp := some (.str "append")
    data := stepData step [("message", .obj [("id", .str messageId), ("role", .str "assistant"),
      ("source", .obj [("kind", .str "model"), ("provider", .str "p"), ("model", .str "m")]),
      ("content", .arr [.obj [("type", .str "tool-call"), ("id", .str callId),
        ("name", .str "read"), ("arguments", .str "")]])])] }
  wf := ⟨by simp [stepData, Json.keys, SessionEvent.intField], nofun, by simp⟩
  data := .assistantMessage (.int 1) (.int step) [callId]
  typed := rfl

def recordedCall (seq step : Int) (callId : String) : TypedEvent where
  event := {
    type := "tool/call", seq, time := 0
    data := stepData step [("callId", .str callId), ("name", .str "read"), ("arguments", .str "")] }
  wf := ⟨by simp [stepData, Json.keys, SessionEvent.intField], nofun, nofun⟩
  data := .toolCall (.int 1) (.int step) callId
  typed := rfl

def callResult (seq step : Int) (callId text : String) (surfaceOp : Json)
    (hop : surfaceOp.WF) (sources : List Int) : TypedEvent where
  event := {
    type := "tool/result", seq, time := 0, surfaceOp := some surfaceOp
    sourceEventSeqs := some (SessionEvent.intArray sources)
    data := stepData step [("message", .obj [("id", .str "r"), ("role", .str "user"),
      ("source", .obj [("kind", .str "tool"), ("callId", .str callId)]),
      ("content", .arr [.obj [("type", .str "tool-result"), ("toolCallId", .str callId),
        ("content", .arr [.obj [("type", .str "text"), ("text", .str text)]])]])])] }
  wf := ⟨by simp [stepData, Json.keys, SessionEvent.intField],
    by simp [SessionEvent.intArray, SessionEvent.intField], by simpa using hop⟩
  data := .toolResult (.int 1) (.int step) callId (surfaceOp = .str "append") false none
  typed := by simp [eventData?, stepData, contentBlocks?]; rfl

/-- Step 2 requests a call of the id of step 1, and the first result is rewritten. -/
def rewrittenLog : List TypedEvent :=
  [startedTurn 0, startedStep 1 1, assistantRequest 2 1 "m1" "c", recordedCall 3 1 "c",
    callResult 4 1 "c" "long" (.str "append") trivial [3],
    stepCloser (.int 1) (.int 1) 5 0, startedStep 6 2, assistantRequest 7 2 "m2" "c",
    recordedCall 8 2 "c",
    callResult 9 1 "c" "short" (.obj [("op", .str "replace"), ("start", SessionEvent.intField 4),
      ("end", SessionEvent.intField 4)]) (by simp [Json.keys, SessionEvent.intField]) [4]]

/-- **A repair that drops a call**, which its closers do not answer. -/
theorem replaced_result_drops_call : ¬ ∀ log trace, (∃ nodes, foldSurface (log.map (·.event)) = .ok nodes) →
      runTrace freshTrace log = .ok trace → Repairs log (interruptedTurnClosers log) := by
  intro h
  have hrepairs := h rewrittenLog _ ⟨_, rfl⟩ rfl
  have hanswered := (hrepairs.answered "c").mpr (by decide)
  revert hanswered
  decide

/-- With the first call only requested and recorded, the repair is sound. -/
theorem interruptedTurnClosers_repairs_recorded :
    Repairs (rewrittenLog.take 4) (interruptedTurnClosers (rewrittenLog.take 4)) := by
  refine (@interruptedTurnClosers_repairs_iff (rewrittenLog.take 4) _ rfl).mpr ?_
  intro callId hunanswered
  obtain rfl : callId = "c" := by
    rw [Unanswered, ← Since.scan_iff] at hunanswered
    simpa [Since.scan, dataOf, rewrittenLog, startedTurn, startedStep, assistantRequest, recordedCall,
      EventData.calls, EventData.endsStep, EventData.answered] using hunanswered
  decide

end CocoHarness.SessionLog
