/-
# CocoHarness.Agent.DriverTrace — the session machine on the events of a driver.

`follow` is the machine on the driver's own events: what it accepts, `SessionTrace.observe` accepts of any event that
reads as the driver's, the seqs apart.
-/
import CocoHarness.Agent.Driver
import CocoHarness.Agent.ToolCallsRun
import CocoHarness.SessionLog.Invariant

namespace CocoHarness.Agent

open Lib Lib.SafeInteger SessionLog List Option

variable {Result : Type}

/-! ## The machine on the driver's events -/

/-- What an event of the driver reads as.  A result may carry any failure identity. -/
def Reads : DriverEvent → EventData → Prop
  | .turnStart turn, data => data = .turnStart (.int turn)
  | .turnEnd turn _, data => data = .turnEnd (.int turn)
  | .stepStart turn step, data => data = .stepStart (.int turn) (.int step)
  | .stepEnd turn step, data => data = .stepEnd (.int turn) (.int step)
  | .request, data => data = .turnEnclosed
  | .assistantChunk turn step, data => data = .assistantChunk (.int turn) (.int step)
  | .assistantMessage turn step toolCalls _, data => data = .assistantMessage (.int turn) (.int step) toolCalls
  | .toolCall turn step callId, data => data = .toolCall (.int turn) (.int step) callId
  | .toolResult turn step callId, data => ∃ isError errorCode,
    data = .toolResult (.int turn) (.int step) callId true isError errorCode
  | .userMessage _, data | .spliced _ _ _ _ _, data | .other, data => data = .other

def follow (trace : SessionTrace) : DriverEvent → Option SessionTrace
  | .turnStart turn =>
    if trace.openTurn = none ∧ turn = trace.nextTurn then
      some { trace with openTurn := some (.int turn), nextStep := 1 }
    else none
  | .turnEnd turn _ =>
    if trace.openTurn = some (.int turn) ∧ trace.openStep = none then
      some { trace with openTurn := none, nextTurn := fadd trace.nextTurn 1 }
    else none
  | .stepStart turn step =>
    if trace.openTurn = some (.int turn) ∧ trace.openStep = none ∧ step = trace.nextStep then
      some { trace with openStep := some (.int step) }
    else none
  | .stepEnd turn step =>
    if trace.openTurn = some (.int turn) ∧ trace.openStep = some (.int step) then
      some { trace with openStep := none, nextStep := fadd trace.nextStep 1, pendingCalls := ∅ }
    else none
  | .request => if trace.openTurn.isSome then some trace else none
  | .assistantChunk turn step | .assistantMessage turn step _ _ =>
    if trace.openTurn = some (.int turn) ∧ trace.openStep = some (.int step) then some trace else none
  | .toolCall turn step callId =>
    if trace.openTurn = some (.int turn) ∧ trace.openStep = some (.int step) then
      some { trace with pendingCalls := insert callId trace.pendingCalls }
    else none
  | .toolResult turn step callId =>
    if trace.openTurn = some (.int turn) ∧ trace.openStep = some (.int step) ∧ callId ∈ trace.pendingCalls then
      some { trace with pendingCalls := trace.pendingCalls.erase callId }
    else none
  | .userMessage _ | .spliced _ _ _ _ _ | .other => some trace

section

variable {trace : SessionTrace} {turn step : Int}

theorem follow_turnStart (hclosed : trace.openTurn = none) (hnext : turn = trace.nextTurn) :
    follow trace (.turnStart turn)
      = some { trace with openTurn := some (.int turn), nextStep := 1 } := if_pos ⟨hclosed, hnext⟩

theorem follow_turnEnd (hopen : trace.openTurn = some (.int turn)) (hclosed : trace.openStep = none)
    (reason : TurnEndReason) : follow trace (.turnEnd turn reason)
      = some { trace with openTurn := none, nextTurn := fadd trace.nextTurn 1 } :=
  if_pos ⟨hopen, hclosed⟩

theorem follow_stepStart (hopen : trace.openTurn = some (.int turn)) (hclosed : trace.openStep = none)
    (hnext : step = trace.nextStep) : follow trace (.stepStart turn step)
      = some { trace with openStep := some (.int step) } := if_pos ⟨hopen, hclosed, hnext⟩

theorem follow_stepEnd (hopen : trace.Open (.int turn) (.int step)) : follow trace (.stepEnd turn step)
      = some { trace with openStep := none, nextStep := fadd trace.nextStep 1, pendingCalls := ∅ } :=
  if_pos hopen

theorem follow_assistantChunk (hopen : trace.Open (.int turn) (.int step)) :
    follow trace (.assistantChunk turn step) = some trace := if_pos hopen

theorem follow_assistantMessage (hopen : trace.Open (.int turn) (.int step)) (toolCalls : List String)
    (truncated : Bool) : follow trace (.assistantMessage turn step toolCalls truncated) = some trace :=
  if_pos hopen

theorem follow_request (hopen : trace.Open (.int turn) (.int step)) :
    follow trace .request = some trace := if_pos (by rw [hopen.1]; rfl)

theorem follow_toolCall (hopen : trace.Open (.int turn) (.int step)) (callId : String) :
    follow trace (.toolCall turn step callId)
      = some { trace with pendingCalls := insert callId trace.pendingCalls } := if_pos hopen

theorem follow_toolResult (hopen : trace.Open (.int turn) (.int step)) {callId : String}
    (hmem : callId ∈ trace.pendingCalls) : follow trace (.toolResult turn step callId)
      = some { trace with pendingCalls := trace.pendingCalls.erase callId } :=
  if_pos ⟨hopen.1, hopen.2, hmem⟩

end

theorem follow_lastSeq (trace : SessionTrace) (event : DriverEvent) (lastSeq : Int) :
    follow { trace with lastSeq } event = (follow trace event).map fun trace' => { trace' with lastSeq } := by
  cases event <;> simp only [follow] <;> (try split) <;> rfl

/-- **The machine follows.**  What `follow` accepts, the machine accepts of an event that reads as the driver's. -/
theorem observe_of_follow {trace trace' : SessionTrace} {event : DriverEvent} {typed : TypedEvent}
    (hreads : Reads event typed.data) (hseq : trace.lastSeq < typed.event.seq)
    (h : follow trace event = some trace') :
    trace.observe typed = .ok { trace' with lastSeq := typed.event.seq } := by
  rw [observe_ok_iff]
  refine ⟨hseq, ?_⟩
  cases event with
  | turnStart turn =>
    obtain ⟨⟨hnone, rfl⟩, h⟩ := ite_none_right_eq_some.mp h
    cases h
    rw [hreads]
    exact ⟨hnone, rfl, rfl⟩
  | turnEnd turn reason =>
    obtain ⟨⟨hopen, hnone⟩, h⟩ := ite_none_right_eq_some.mp h
    cases h
    rw [hreads]
    exact ⟨hopen, hnone, rfl⟩
  | stepStart turn step =>
    obtain ⟨⟨hopen, hnone, rfl⟩, h⟩ := ite_none_right_eq_some.mp h
    cases h
    rw [hreads]
    exact ⟨hopen, hnone, rfl, rfl⟩
  | stepEnd turn step | request | assistantChunk turn step | assistantMessage turn step toolCalls truncated
  | toolCall turn step callId =>
    obtain ⟨hopen, h⟩ := ite_none_right_eq_some.mp h
    cases h
    rw [hreads]
    exact ⟨hopen, rfl⟩
  | toolResult turn step callId =>
    obtain ⟨⟨hturn, hstep, hpending⟩, h⟩ := ite_none_right_eq_some.mp h
    cases h
    obtain ⟨isError, errorCode, hreads⟩ := hreads
    rw [hreads]
    exact ⟨⟨hturn, hstep⟩, .inl hpending, rfl⟩
  | userMessage message | spliced target start removedCount inserted canceled | other =>
    cases h
    rw [hreads]

/-- Typed events that read as the driver's, with seqs that increase from a last one on. -/
inductive Logs : Int → List DriverEvent → List TypedEvent → Prop where
  | nil (last : Int) : Logs last [] []
  | cons {last : Int} {event : DriverEvent} {events : List DriverEvent} {typed : TypedEvent}
      {rest : List TypedEvent} (hreads : Reads event typed.data) (hseq : last < typed.event.seq)
      (hrest : Logs typed.event.seq events rest) : Logs last (event :: events) (typed :: rest)

theorem runTrace_of_follow {trace trace' : SessionTrace} {last : Int} {events : List DriverEvent}
    {typed : List TypedEvent} (hlogs : Logs last events typed)
    (h : events.foldlM follow trace = some trace') :
    ∃ lastSeq, runTrace { trace with lastSeq := last } typed = .ok { trace' with lastSeq } := by
  induction hlogs generalizing trace with
  | nil last =>
    cases h
    exact ⟨last, rfl⟩
  | @cons last event events typed rest hreads hseq hrest ih =>
    rw [foldlM_cons] at h
    obtain ⟨mid, hmid, h⟩ := bind_eq_some_iff.mp h
    have hfollow : follow { trace with lastSeq := last } event = some { mid with lastSeq := last } := by
      rw [follow_lastSeq, hmid]
      rfl
    rw [runTrace_cons, observe_of_follow hreads hseq hfollow]
    exact @ih mid h

/-! ## What the scheduler logs -/

namespace Scheduler

variable {s s' : Scheduler Result}

/-- The ids of the calls that are logged and have no result yet. -/
def openIds (s : Scheduler Result) : List String := ((s.planned.take s.started).drop s.committed).map (·.id)

/-- **What one action logs**: nothing, the next call, the next result, or both for a call that is
skipped. -/
inductive Grows (s s' : Scheduler Result) : Prop where
  | nothing (hlog : s'.log = s.log) (hstarted : s'.started = s.started)
      (hcommitted : s'.committed = s.committed)
  | call (block : ToolCallBlock) (hblock : s.planned[s.started]? = some block)
      (hlog : s'.log = s.log ++ [.call s.started block]) (hstarted : s'.started = s.started + 1)
      (hcommitted : s'.committed = s.committed)
  | result (block : ToolCallBlock) (callSeq : Nat) (outcome : ToolOutcome Result)
      (hblock : s.planned[s.committed]? = some block) (hlt : s.committed < s.started)
      (hlog : s'.log = s.log ++ [.result s.committed block.id callSeq outcome])
      (hstarted : s'.started = s.started) (hcommitted : s'.committed = s.committed + 1)
  | skipped (block : ToolCallBlock) (callSeq : Nat) (outcome : ToolOutcome Result)
      (hblock : s.planned[s.started]? = some block) (heq : s.committed = s.started)
      (hlog : s'.log = s.log ++ [.call s.started block, .result s.started block.id callSeq outcome])
      (hstarted : s'.started = s.started + 1) (hcommitted : s'.committed = s.committed + 1)

theorem Grows.refl (s : Scheduler Result) : s.Grows s := .nothing rfl rfl rfl

theorem throwSchedulerFailure_grows (h : s.Grows s') : s.Grows (s.throwSchedulerFailure s') := by
  rw [throwSchedulerFailure]
  split
  · exact .nothing rfl rfl rfl
  · exact h

theorem startCall_grows (hnext : s.nextToStart = s.started) (appended : Except JsError Unit) :
    s.Grows (s.startCall appended) := by
  unfold startCall
  split
  · next block hblock =>
    rw [hnext] at hblock
    exact .call block hblock (by rw [hnext]) rfl rfl
  · exact .nothing rfl rfl rfl
  · exact .nothing rfl rfl rfl

theorem step_grows (hs : s.Inv) {act : ToolAct Result} (hown : act ≠ .other)
    (h : s.step act = some s') : s.Grows s' := by
  have htakes := step_takes h
  have hhere := hs.here
  cases act with
  | select mode =>
    obtain ⟨-, rfl⟩ := htakes
    unfold Scheduler.select
    split
    · exact .nothing rfl rfl rfl
    · split <;> exact .nothing rfl rfl rfl
  | fill mode appended =>
    obtain ⟨hpoint, rfl⟩ := htakes
    rw [At, hpoint] at hhere
    have hcall := startCall_grows hhere.2.1 appended
    unfold fillPool
    split
    · exact .nothing rfl rfl rfl
    · split
      · split
        · exact .nothing rfl rfl rfl
        · exact .nothing rfl rfl rfl
        · exact hcall
      · exact hcall
  | prepared outcome =>
    obtain ⟨-, rfl⟩ := htakes
    cases outcome with
    | error error => exact .nothing rfl rfl rfl
    | ok prepared =>
      refine throwSchedulerFailure_grows ?_
      cases prepared <;> exact .nothing rfl rfl rfl
  | commit published =>
    obtain ⟨hpoint, rfl⟩ := htakes
    rw [At, hpoint] at hhere
    unfold commitReady
    split
    · next slot block hslot hblock =>
      have hlt : s.committed < s.started := by
        split at hslot
        · exact hhere.1.slotted _ (by rw [hslot]; rfl)
        · cases hslot
      cases published with
      | threw error => exact .nothing rfl rfl rfl
      | result result concludesTurn accepted =>
        cases accepted with
        | error error | ok _ => exact .result block _ _ hblock hlt rfl rfl rfl
    · exact throwSchedulerFailure_grows (.nothing rfl rfl rfl)
  | race index =>
    obtain ⟨-, ⟨-, rfl⟩ | ⟨-, -, rfl⟩⟩ := htakes
    · unfold endGroup
      split
      · exact .nothing rfl rfl rfl
      · split <;> exact .nothing rfl rfl rfl
    · unfold race throwSchedulerFailure
      dsimp only
      split <;> exact .nothing rfl rfl rfl
  | drained =>
    obtain ⟨-, -, error, rfl⟩ := htakes
    exact .nothing rfl rfl rfl
  | skip call result =>
    obtain ⟨hpoint, rfl⟩ := htakes
    rw [At, hpoint] at hhere
    unfold skip
    split
    · exact .nothing rfl rfl rfl
    · next block hblock =>
      cases call with
      | error error => exact .nothing rfl rfl rfl
      | ok _ =>
        cases result with
        | error error => exact .call block hblock rfl rfl rfl
        | ok _ => exact .skipped block _ _ hblock hhere.1.committed_eq (append_assoc ..) rfl rfl
  | settle index outcome =>
    obtain ⟨-, rfl⟩ := htakes
    cases outcome <;> exact .nothing rfl rfl rfl
  | abort =>
    obtain rfl := htakes
    exact .nothing rfl rfl rfl
  | other => exact absurd rfl hown

/-- **What the scheduler logs follows.**  The pending calls of the machine are the open ones. -/
theorem Grows.follow {turn step : Int} {trace : SessionTrace} (h : s.Grows s') (hcore : s.Core)
    (hnodup : (s.planned.map (·.id)).Nodup) (hopen : trace.Open (.int turn) (.int step))
    (hpending : trace.pendingCalls = s.openIds.toFinset) (hplanned : s'.planned = s.planned) :
    ∃ events : List DriverEvent, (s'.log.drop s.log.length).map (Driver.toolEvent turn step) = events.map .appended
      ∧ events.foldlM follow trace = some { trace with pendingCalls := s'.openIds.toFinset } := by
  cases h with
  | nothing hlog hstarted hcommitted =>
    refine ⟨[], by simp [hlog], ?_⟩
    have hsame : s'.openIds = s.openIds := by rw [openIds, openIds, hplanned, hstarted, hcommitted]
    rw [hsame, ← hpending]
    rfl
  | call block hblock hlog hstarted hcommitted =>
    refine ⟨[.toolCall turn step block.id], by simp [hlog, Driver.toolEvent], ?_⟩
    have hids : s'.openIds = s.openIds ++ [block.id] := by
      have hlen : s.committed ≤ (s.planned.take s.started).length := by
        rw [length_take_of_le hcore.started_le]
        exact hcore.committed_le
      rw [openIds, openIds, hplanned, hstarted, hcommitted, take_add_one, hblock,
        drop_append_of_le_length hlen, map_append]
      rfl
    have hset : s'.openIds.toFinset = insert block.id trace.pendingCalls := by
      rw [hids, hpending]
      ext id
      simp
    rw [foldlM_cons, follow_toolCall hopen, hset]
    rfl
  | result block callSeq outcome hblock hlt hlog hstarted hcommitted =>
    refine ⟨[.toolResult turn step block.id], by simp [hlog, Driver.toolEvent], ?_⟩
    have hids : s.openIds = block.id :: s'.openIds := by
      have hlen : s.committed < (s.planned.take s.started).length := by
        rw [length_take_of_le hcore.started_le]
        exact hlt
      have hget : (s.planned.take s.started)[s.committed] = block := by
        rw [getElem_take]
        exact (List.getElem?_eq_some_iff.mp hblock).2
      rw [openIds, openIds, hplanned, hstarted, hcommitted, drop_eq_getElem_cons hlen, hget]
      rfl
    have hfresh : block.id ∉ s'.openIds := by
      have hsub : s.openIds.Nodup := by
        refine List.Nodup.sublist (List.Sublist.map _ ?_) hnodup
        exact (drop_sublist _ _).trans (take_sublist _ _)
      rw [hids] at hsub
      exact (nodup_cons.mp hsub).1
    have hset : s'.openIds.toFinset = trace.pendingCalls.erase block.id := by
      rw [hpending, hids, toFinset_cons, Finset.erase_insert (by simpa using hfresh)]
    have hmem : block.id ∈ trace.pendingCalls := by
      rw [hpending, hids]
      simp
    rw [foldlM_cons, follow_toolResult hopen hmem, hset]
    rfl
  | skipped block callSeq outcome hblock heq hlog hstarted hcommitted =>
    refine ⟨[.toolCall turn step block.id, .toolResult turn step block.id],
      by simp [hlog, Driver.toolEvent], ?_⟩
    have hnone : s.openIds = [] := by
      rw [openIds, heq, drop_take_self]
      rfl
    have hnone' : s'.openIds = [] := by
      rw [openIds, hstarted, hcommitted, heq, drop_take_self]
      rfl
    have hempty : trace.pendingCalls = ∅ := by rw [hpending, hnone, toFinset_nil]
    have hcall := follow_toolCall hopen block.id
    rw [hempty] at hcall
    have hopen' : SessionTrace.Open { trace with pendingCalls := insert block.id ∅ } (.int turn)
      (.int step) := hopen
    have hresult := follow_toolResult hopen' (Finset.mem_insert_self block.id ∅)
    rw [foldlM_cons, hcall, hnone']
    show List.foldlM _ { trace with pendingCalls := insert block.id ∅ } _ = _
    rw [foldlM_cons, hresult]
    simp

end Scheduler

end CocoHarness.Agent
