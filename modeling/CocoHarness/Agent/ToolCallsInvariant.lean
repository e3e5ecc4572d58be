/-
# CocoHarness.Agent.ToolCallsInvariant — every call gets its one result, in order.

`Core` is what holds at every point: the log pairs calls and results in model order, dispatches in flight
are bounded, and a call in progress that was started as exclusive is alone.  Inside a group (`Group`)
every started call that has no result yet has a slot, is running, or belongs to a failure, and a failure
is noticed before the pool is empty; so a group that ends has published everything it started.
-/
import CocoHarness.Agent.ToolCalls

namespace CocoHarness.Agent

open Lib SessionLog Function List Nat Option

variable {Result : Type}

/-! ## The log of a step -/

def callsOf (log : List (ToolEvent Result)) : List Nat :=
  log.filterMap fun
    | .call index _ => some index
    | _ => none

def resultsOf (log : List (ToolEvent Result)) : List Nat :=
  log.filterMap fun
    | .result index _ _ _ => some index
    | _ => none

@[simp] theorem callsOf_append (log log' : List (ToolEvent Result)) :
    callsOf (log ++ log') = callsOf log ++ callsOf log' := filterMap_append ..

@[simp] theorem resultsOf_append (log log' : List (ToolEvent Result)) :
    resultsOf (log ++ log') = resultsOf log ++ resultsOf log' := filterMap_append ..

def Cites (log : List (ToolEvent Result)) : Prop :=
  ∀ (pos : Nat) index callId callSeq outcome, log[pos]? = some (.result index callId callSeq outcome) →
    callSeq < pos ∧ ∃ block, log[callSeq]? = some (.call index block) ∧ block.id = callId

variable {log : List (ToolEvent Result)} {event entry : ToolEvent Result} {pos : Nat}

theorem getElem?_snoc (h : (log ++ [event])[pos]? = some entry) :
    log[pos]? = some entry ∨ pos = log.length ∧ entry = event := by
  rcases lt_or_ge pos log.length with hlt | hge
  · rw [List.getElem?_append_left hlt] at h
    exact .inl h
  · rw [getElem?_append_right hge, getElem?_singleton] at h
    split at h
    · exact .inr ⟨by omega, (some.inj h).symm⟩
    · cases h

theorem getElem?_of_getElem? (h : log[pos]? = some entry) : (log ++ [event])[pos]? = some entry := by
  rw [List.getElem?_append_left (List.getElem?_eq_some_iff.mp h).1, h]

theorem Cites.snoc (h : Cites log)
    (hevent : ∀ index callId callSeq outcome, event = .result index callId callSeq outcome →
      ∃ block, log[callSeq]? = some (.call index block) ∧ block.id = callId) :
    Cites (log ++ [event]) := by
  intro pos index callId callSeq outcome hpos
  rcases getElem?_snoc hpos with hold | ⟨rfl, hnew⟩
  · obtain ⟨hlt, block, hcall, hid⟩ := h pos index callId callSeq outcome hold
    exact ⟨hlt, block, getElem?_of_getElem? hcall, hid⟩
  · obtain ⟨block, hcall, hid⟩ := hevent index callId callSeq outcome hnew.symm
    exact ⟨(List.getElem?_eq_some_iff.mp hcall).1, block, getElem?_of_getElem? hcall, hid⟩

namespace Scheduler

variable {s s' : Scheduler Result}

/-! ## The invariant -/

/-- Where results come from: from a slot, or from an abort no failure came before. -/
structure Outcomes (s : Scheduler Result) : Prop where
  settled : ∀ index callId callSeq result,
    .result index callId callSeq (.settled result) ∈ s.log → (s.slots index).isSome = true
  skipped : ∀ index callId callSeq, .result index callId callSeq .abortedBeforeDispatch ∈ s.log →
    s.signalAborted = true ∧ s.schedulerFailure = none ∧ s.slots index = none

structure Core (s : Scheduler Result) : Prop where
  calls : callsOf s.log = List.range s.started
  results : resultsOf s.log = List.range s.committed
  cites : Cites s.log
  blocks : ∀ index block, .call index block ∈ s.log → s.planned[index]? = some block
  outcomes : s.Outcomes
  committed_le : s.committed ≤ s.started
  started_le : s.started ≤ s.planned.length
  slots : ∀ i, (s.slots i).isSome = true → i < s.started
  running : ∀ i ∈ s.running, i ∈ s.inFlight ∧ s.slots i = none
  nodup : s.inFlight.Nodup ∧ s.running.Nodup
  inFlight : ∀ i ∈ s.inFlight, i < s.started
  limit : s.inFlight.length ≤ s.maxParallelToolCalls
  /-- A call in progress that was started as exclusive is alone. -/
  alone : ∀ i j, s.committed ≤ i → i < s.started → s.committed ≤ j → j < s.started → s.startedAs i = .exclusive → j = i

/-- What holds of the group being run, also while it is drained. -/
structure Group (s : Scheduler Result) : Prop where
  base_le : s.base ≤ s.committed
  base_lt : s.base < s.groupEnd
  started_le : s.started ≤ s.groupEnd
  groupEnd_le : s.groupEnd ≤ s.planned.length
  exclusive : s.mode = .exclusive → s.groupEnd = s.base + 1
  startedAs : ∀ i, s.base ≤ i → i < s.started → s.startedAs i = s.mode
  callSeqs : ∀ i, s.base ≤ i → i < s.started →
    ∃ block, s.planned[i]? = some block ∧ s.log[s.callSeqs i]? = some (.call i block)
  unskipped : ∀ index callId callSeq, .result index callId callSeq .abortedBeforeDispatch ∉ s.log
  signalAborted : s.aborted = true → s.signalAborted = true

/-- What holds while a group makes progress; `n` calls of it are prepared. -/
structure Progress (s : Scheduler Result) (n : Nat) : Prop extends s.Group where
  slotted : ∀ i, (s.slots i).isSome = true → i < n
  unfinished : ∀ i, s.committed ≤ i → i < n →
    (s.slots i).isSome = true ∨ i ∈ s.running ∨ s.schedulerFailure.isSome = true
  prepared : ∀ i ∈ s.inFlight, i < n
  failed : s.schedulerFailure.isSome = true → ∃ i ∈ s.inFlight, i ∉ s.running ∧ s.slots i = none

/-- Before the pool is filled and while it is awaited, the next result in order is in flight. -/
def Waits (s : Scheduler Result) : Prop :=
  s.schedulerFailure = none → s.committed = s.started ∨ s.committed ∈ s.inFlight

structure Rest (s : Scheduler Result) : Prop where
  committed_eq : s.committed = s.started
  inFlight : s.inFlight = []
  schedulerFailure : s.schedulerFailure = none

def At (s : Scheduler Result) : Prop :=
  match s.point with
  | .select => s.Rest ∧ ∀ index callId callSeq, .result index callId callSeq .abortedBeforeDispatch ∉ s.log
  | .fill => s.Progress s.started ∧ s.nextToStart = s.started ∧ s.Waits ∧ (s.base = s.nextToStart → s.inFlight = [])
  | .race => s.Progress s.started ∧ s.nextToStart = s.started ∧ s.Waits
      ∧ (s.base = s.nextToStart → s.inFlight = [] ∧ (s.aborted = true ∨ s.maxParallelToolCalls = 0))
  | .commit => s.Progress s.started ∧ s.nextToStart = s.started ∧ s.base < s.nextToStart
  | .prepare => s.Progress s.nextToStart ∧ s.started = s.nextToStart + 1
      ∧ s.inFlight.length < s.maxParallelToolCalls ∧ s.base ≤ s.nextToStart
  | .drain => s.Group ∧ s.schedulerFailure.isSome = true
  | .skip => s.Rest ∧ s.signalAborted = true
  | .returned => s.Rest ∧ s.started = s.planned.length
  | .threw _ => s.running = []

/-- **The scheduler invariant.** -/
structure Inv (s : Scheduler Result) : Prop where
  core : s.Core
  here : s.At

theorem inv_iff (s : Scheduler Result) : s.Inv ↔ s.Core ∧ s.At := ⟨fun h => ⟨h.core, h.here⟩, fun h => ⟨h.1, h.2⟩⟩

/-! ## Moving on -/

theorem Core.congr (h : s.Core) {point : Point} {base groupEnd nextToStart : Nat}
    {mode : ToolExecutionMode} {aborted concluded : Bool} :
    { s with point, base, groupEnd, mode, nextToStart, aborted, concluded }.Core :=
  { h with outcomes := ⟨h.outcomes.settled, h.outcomes.skipped⟩ }

/-- **A throw inside a group.**  The core stays, and the started dispatches are awaited. -/
theorem Core.fail (h : s.Core) (hgroup : s.Group) (error : JsError) : (s.fail error).Inv where
  core := { h with
    outcomes := ⟨h.outcomes.settled, fun index callId callSeq hmem =>
      absurd hmem (hgroup.unskipped index callId callSeq)⟩ }
  here := ⟨{ hgroup with }, by cases hfailure : s.schedulerFailure <;> simp [Scheduler.fail, hfailure]⟩

theorem Core.throwSchedulerFailure (h : s.Core) (hgroup : s.Group)
    (hnext : s.schedulerFailure = none → s'.Inv) : (s.throwSchedulerFailure s').Inv := by
  rw [Scheduler.throwSchedulerFailure]
  split
  · exact h.fail hgroup _
  · next hnone => exact hnext hnone

/-! ## Groups -/

theorem Core.running_eq_nil (h : s.Core) (hnil : s.inFlight = []) : s.running = [] := by
  refine eq_nil_iff_forall_not_mem.mpr fun i hi => ?_
  have := (h.running i hi).1
  rw [hnil] at this
  cases this

theorem Inv.select (hs : s.Inv) (hpoint : s.point = .select) (mode : Except JsError ToolExecutionMode) :
    (s.select mode).Inv := by
  obtain ⟨hcore, hhere⟩ := hs
  rw [At, hpoint] at hhere
  obtain ⟨hrest, hunskipped⟩ := hhere
  unfold Scheduler.select
  split
  · next hle => exact ⟨hcore.congr, ⟨{ hrest with }, le_antisymm hcore.started_le hle⟩⟩
  · next hlt =>
    split
    · exact ⟨hcore.congr, hcore.running_eq_nil hrest.inFlight⟩
    · next mode =>
      refine ⟨hcore.congr, ⟨⟨?_, ?_, ?_, ?_, ?_⟩, rfl, fun _ => .inl hrest.committed_eq, fun _ => hrest.inFlight⟩⟩
      · refine ⟨hrest.committed_eq.ge, ?_, ?_, ?_, ?_, fun i hle hlt => ?_, fun i hle hlt => ?_, hunskipped, id⟩
        · dsimp only
          split <;> omega
        · dsimp only
          split <;> omega
        · dsimp only
          split <;> omega
        · rintro rfl
          simp
        · exact absurd hlt (not_lt.mpr hle)
        · exact absurd hlt (not_lt.mpr hle)
      · exact hcore.slots
      · intro i hle hlt
        have heq := hrest.committed_eq
        dsimp only at hle hlt
        omega
      · exact hcore.inFlight
      · intro hfailed
        simp [hrest.schedulerFailure] at hfailed

variable {index : Nat} {block : ToolCallBlock}

theorem Core.blocks_snoc (h : s.Core) (hblock : s.planned[index]? = some block) :
    ∀ index' block', .call index' block' ∈ s.log ++ [ToolEvent.call index block] →
      s.planned[index']? = some block' := by
  intro index' block' hmem
  rcases mem_append.mp hmem with hold | hnew
  · exact h.blocks index' block' hold
  · cases mem_singleton.mp hnew
    exact hblock

theorem Inv.startCall (hs : s.Inv) (hpoint : s.point = .fill) (hroom : s.nextToStart < s.groupEnd)
    (hlimit : s.inFlight.length < s.maxParallelToolCalls) (appended : Except JsError Unit) :
    (s.startCall appended).Inv := by
  obtain ⟨hcore, hhere⟩ := hs
  rw [At, hpoint] at hhere
  obtain ⟨hprogress, hnext, -, -⟩ := hhere
  have hgroup := hprogress.toGroup
  have hlt : s.nextToStart < s.planned.length := lt_of_lt_of_le hroom hgroup.groupEnd_le
  have hblock := getElem?_eq_getElem hlt
  unfold Scheduler.startCall
  rw [hblock]
  cases appended with
  | error error => exact hcore.fail hgroup error
  | ok _ =>
    generalize s.planned[s.nextToStart] = block at hblock
    have hstartedAs : ∀ i, s.base ≤ i → i < s.started + 1 → update s.startedAs s.nextToStart s.mode i = s.mode := by
      intro i hle hi
      by_cases heq : i = s.nextToStart
      · rw [heq, update_self]
      · rw [update_of_ne heq]
        exact hgroup.startedAs i hle (by omega)
    refine ⟨?_, ?_⟩
    · refine ⟨?_, ?_, ?_, ?_, ?_, ?_, ?_, ?_, hcore.running, hcore.nodup, ?_, hcore.limit, ?_⟩
      · show callsOf (s.log ++ [.call s.nextToStart block]) = _
        rw [callsOf_append, hcore.calls, hnext, range_succ]
        rfl
      · show resultsOf (s.log ++ [.call s.nextToStart block]) = _
        rw [resultsOf_append, hcore.results]
        simp [resultsOf]
      · exact hcore.cites.snoc fun _ _ _ _ h => by cases h
      · exact hcore.blocks_snoc hblock
      · refine ⟨fun index callId callSeq result hmem => ?_, fun index callId callSeq hmem => ?_⟩
        · exact hcore.outcomes.settled index callId callSeq result (by simpa using hmem)
        · exact hcore.outcomes.skipped index callId callSeq (by simpa using hmem)
      · exact Nat.le_succ_of_le hcore.committed_le
      · show s.started + 1 ≤ s.planned.length
        omega
      · exact fun i hsome => Nat.lt_succ_of_lt (hcore.slots i hsome)
      · exact fun i hi => Nat.lt_succ_of_lt (hcore.inFlight i hi)
      · intro i j hi hi' hj hj' hexclusive
        have hmode := (hstartedAs i (le_trans hgroup.base_le hi) hi').symm.trans hexclusive
        -- an exclusive group has room for one call
        have hend := hgroup.exclusive hmode
        have hbase := hgroup.base_le
        dsimp only at hi hi' hj hj'
        omega
    · refine ⟨⟨⟨hgroup.base_le, hgroup.base_lt, ?_, hgroup.groupEnd_le, hgroup.exclusive, hstartedAs, ?_, ?_,
        hgroup.signalAborted⟩, ?_, ?_, ?_, hprogress.failed⟩, ?_, hlimit, ?_⟩
      · show s.started + 1 ≤ s.groupEnd
        omega
      · intro i hle hi
        by_cases heq : i = s.nextToStart
        · subst heq
          refine ⟨block, hblock, ?_⟩
          simp
        · have hi : i < s.started + 1 := hi
          obtain ⟨block', hplanned, hcall⟩ := hgroup.callSeqs i hle (by omega)
          refine ⟨block', hplanned, ?_⟩
          simp only [update_of_ne heq]
          exact getElem?_of_getElem? hcall
      · intro index callId callSeq hmem
        exact hgroup.unskipped index callId callSeq (by simpa using hmem)
      · exact hnext ▸ hprogress.slotted
      · exact hnext ▸ hprogress.unfinished
      · exact hnext ▸ hprogress.prepared
      · show s.started + 1 = s.nextToStart + 1
        rw [hnext]
      · show s.base ≤ s.nextToStart
        rw [hnext]
        exact le_trans hgroup.base_le hcore.committed_le

theorem Inv.fillPool (hs : s.Inv) (hpoint : s.point = .fill) (mode : Except JsError ToolExecutionMode)
    (appended : Except JsError Unit) : (s.fillPool mode appended).Inv := by
  have hhere := hs.here
  rw [At, hpoint] at hhere
  obtain ⟨hprogress, hnext, hwaits, hfresh⟩ := hhere
  have hgroup := hprogress.toGroup
  have hwait (h : s.base = s.nextToStart → s.aborted = true ∨ s.maxParallelToolCalls = 0) :
      Inv { s with point := .race } :=
    ⟨hs.core.congr, { hprogress with }, hnext, hwaits, fun heq => ⟨hfresh heq, h heq⟩⟩
  unfold Scheduler.fillPool
  split
  · next hstop =>
    refine hwait fun heq => ?_
    rcases hstop with haborted | hend | hfull
    · exact .inl haborted
    · exact absurd hgroup.base_lt (by omega)
    · rw [hfresh heq] at hfull
      exact .inr (le_zero.mp hfull)
  · next hgo =>
    push Not at hgo
    obtain ⟨-, hroom, hlimit⟩ := hgo
    split
    · next hlater =>
      split
      · exact hs.core.fail hgroup _
      · exact hwait fun heq => absurd hlater.1 (heq ▸ lt_irrefl _)
      · exact hs.startCall hpoint hroom hlimit appended
    · exact hs.startCall hpoint hroom hlimit appended

theorem Core.dispatched (h : s.Core) (hprogress : s.Progress s.nextToStart)
    (hstarted : s.started = s.nextToStart + 1) (hlimit : s.inFlight.length < s.maxParallelToolCalls)
    (hbase : s.base ≤ s.nextToStart) (hnone : s.schedulerFailure = none) :
    Inv { s with
      nextToStart := s.nextToStart + 1
      point := .commit
      inFlight := s.inFlight ++ [s.nextToStart]
      running := s.running ++ [s.nextToStart] } := by
  have hfree : s.slots s.nextToStart = none := by
    cases hslot : s.slots s.nextToStart with
    | none => rfl
    | some slot => exact absurd (hprogress.slotted s.nextToStart (by rw [hslot]; rfl)) (lt_irrefl _)
  have hnew : s.nextToStart ∉ s.inFlight := fun hmem => absurd (hprogress.prepared _ hmem) (lt_irrefl _)
  have hnew' : s.nextToStart ∉ s.running := fun hmem => hnew (h.running _ hmem).1
  refine ⟨?_, ⟨?_, hstarted.symm, lt_succ_of_le hbase⟩⟩
  · refine { h with
      outcomes := ⟨h.outcomes.settled, h.outcomes.skipped⟩
      running := fun i hi => ?_
      nodup := ⟨?_, ?_⟩
      inFlight := fun i hi => ?_
      limit := ?_ }
    · rcases mem_append.mp hi with hold | hlast
      · exact ⟨mem_append_left _ (h.running i hold).1, (h.running i hold).2⟩
      · rw [mem_singleton.mp hlast]
        exact ⟨mem_append_right _ (mem_singleton_self _), hfree⟩
    · exact nodup_append.mpr ⟨h.nodup.1, nodup_singleton _, fun i hi j hj heq =>
        hnew (mem_singleton.mp hj ▸ heq ▸ hi)⟩
    · exact nodup_append.mpr ⟨h.nodup.2, nodup_singleton _, fun i hi j hj heq =>
        hnew' (mem_singleton.mp hj ▸ heq ▸ hi)⟩
    · rcases mem_append.mp hi with hold | hlast
      · exact h.inFlight i hold
      · rw [mem_singleton.mp hlast]
        show s.nextToStart < s.started
        omega
    · show (s.inFlight ++ [s.nextToStart]).length ≤ _
      rw [length_append]
      exact hlimit
  · refine ⟨{ hprogress.toGroup with }, h.slots, fun i hi hlt => ?_, fun i hi => ?_, fun hfailed => ?_⟩
    · rcases Nat.lt_or_eq_of_le (Nat.le_of_lt_succ (hstarted ▸ hlt : i < s.nextToStart + 1))
        with hold | rfl
      · rcases hprogress.unfinished i hi hold with hslot | hrunning | hfailure
        · exact .inl hslot
        · exact .inr (.inl (mem_append_left _ hrunning))
        · exact .inr (.inr hfailure)
      · exact .inr (.inl (mem_append_right _ (mem_singleton_self _)))
    · rcases mem_append.mp hi with hold | hlast
      · exact h.inFlight i hold
      · rw [mem_singleton.mp hlast]
        show s.nextToStart < s.started
        omega
    · have hfailed : s.schedulerFailure.isSome = true := hfailed
      rw [hnone] at hfailed
      cases hfailed

theorem Core.answered (h : s.Core) (hprogress : s.Progress s.nextToStart)
    (hstarted : s.started = s.nextToStart + 1) (hbase : s.base ≤ s.nextToStart)
    (hnone : s.schedulerFailure = none) (slot : Slot Result) :
    Inv { s with
      nextToStart := s.nextToStart + 1
      point := .commit
      slots := update s.slots s.nextToStart (some slot) } := by
  have hother : ∀ i, i ≠ s.nextToStart → update s.slots s.nextToStart (some slot) i = s.slots i := fun i hi =>
    update_of_ne hi _ _
  have hslots : ∀ i, (update s.slots s.nextToStart (some slot) i).isSome = true → i < s.started := by
    intro i hsome
    by_cases heq : i = s.nextToStart
    · omega
    · exact h.slots i (hother i heq ▸ hsome)
  refine ⟨?_, ⟨?_, hstarted.symm, lt_succ_of_le hbase⟩⟩
  · refine { h with
      outcomes := ⟨fun index callId callSeq result hmem => ?_, fun index callId callSeq hmem => ?_⟩
      slots := hslots
      running := fun i hi => ⟨(h.running i hi).1, ?_⟩ }
    · by_cases heq : index = s.nextToStart
      · simp [heq]
      · show (update s.slots s.nextToStart (some slot) index).isSome = true
        rw [hother index heq]
        exact h.outcomes.settled index callId callSeq result hmem
    · exact absurd hmem (hprogress.unskipped index callId callSeq)
    · have hlt := hprogress.prepared i (h.running i hi).1
      exact (hother i (Nat.ne_of_lt hlt)).trans (h.running i hi).2
  · refine ⟨{ hprogress.toGroup with }, hslots, fun i hi hlt => ?_, fun i hi => ?_, fun hfailed => ?_⟩
    · rcases Nat.lt_or_eq_of_le (Nat.le_of_lt_succ (hstarted ▸ hlt : i < s.nextToStart + 1))
        with hold | rfl
      · dsimp only
        rw [hother i (Nat.ne_of_lt hold)]
        exact hprogress.unfinished i hi hold
      · exact .inl (by simp)
    · exact h.inFlight i hi
    · have hfailed : s.schedulerFailure.isSome = true := hfailed
      rw [hnone] at hfailed
      cases hfailed

theorem Inv.prepared (hs : s.Inv) (hpoint : s.point = .prepare)
    (outcome : Except JsError (Prepared Result)) : (s.prepared outcome).Inv := by
  obtain ⟨hcore, hhere⟩ := hs
  rw [At, hpoint] at hhere
  obtain ⟨hprogress, hstarted, hlimit, hbase⟩ := hhere
  have hgroup := hprogress.toGroup
  cases outcome with
  | error error => exact hcore.fail hgroup error
  | ok prepared =>
    refine hcore.throwSchedulerFailure hgroup fun hnone => ?_
    cases prepared with
    | dispatch => exact hcore.dispatched hprogress hstarted hlimit hbase hnone
    | postResult result | finalResult result => exact hcore.answered hprogress hstarted hbase hnone _

/-- **Publishing.**  The next call with a slot gets its result, which cites its call. -/
theorem Core.published (h : s.Core) (hprogress : s.Progress s.started) {slot : Slot Result}
    (hslot : s.slots s.committed = some slot) (hblock : s.planned[s.committed]? = some block)
    (result : Result) (concluded : Bool) :
    let next := { s with
      log := s.log ++ [ToolEvent.result s.committed block.id (s.callSeqs s.committed) (.settled result)]
      committed := s.committed + 1
      concluded }
    next.Core ∧ next.Progress s.started := by
  intro next
  have hlt : s.committed < s.started := hprogress.slotted _ (by rw [hslot]; rfl)
  obtain ⟨block', hblock', hcall⟩ := hprogress.callSeqs s.committed hprogress.base_le hlt
  cases hblock.symm.trans hblock'
  refine ⟨⟨?_, ?_, ?_, ?_, ⟨?_, ?_⟩, hlt, h.started_le, h.slots, h.running, h.nodup, h.inFlight, h.limit, ?_⟩,
    ⟨⟨?_, hprogress.base_lt, hprogress.started_le, hprogress.groupEnd_le, hprogress.exclusive, hprogress.startedAs, ?_, ?_,
      hprogress.signalAborted⟩, hprogress.slotted, ?_, hprogress.prepared, hprogress.failed⟩⟩
  · show callsOf (s.log ++ [_]) = _
    rw [callsOf_append, h.calls]
    simp [callsOf, next]
  · show resultsOf (s.log ++ [_]) = List.range (s.committed + 1)
    rw [resultsOf_append, h.results, range_succ]
    rfl
  · refine h.cites.snoc fun index callId callSeq outcome heq => ?_
    cases heq
    exact ⟨block, hcall, rfl⟩
  · exact fun index block' hmem => h.blocks index block' (by simpa [next] using hmem)
  · intro index callId callSeq result' hmem
    rcases mem_append.mp hmem with hold | hnew
    · exact h.outcomes.settled index callId callSeq result' hold
    · cases mem_singleton.mp hnew
      show (s.slots s.committed).isSome = true
      rw [hslot]
      rfl
  · intro index callId callSeq hmem
    rcases mem_append.mp hmem with hold | hnew
    · exact h.outcomes.skipped index callId callSeq hold
    · cases mem_singleton.mp hnew
  · exact fun i j hi hi' hj hj' => h.alone i j (le_of_succ_le hi) hi' (le_of_succ_le hj) hj'
  · exact Nat.le_succ_of_le hprogress.base_le
  · intro i hi hi'
    obtain ⟨block', hplanned, hcall'⟩ := hprogress.callSeqs i hi hi'
    exact ⟨block', hplanned, getElem?_of_getElem? hcall'⟩
  · intro index callId callSeq hmem
    rcases mem_append.mp hmem with hold | hnew
    · exact hprogress.unskipped index callId callSeq hold
    · cases mem_singleton.mp hnew
  · exact fun i hi hi' => hprogress.unfinished i (le_of_succ_le hi) hi'

theorem Inv.commitReady (hs : s.Inv) (hpoint : s.point = .commit) (published : Published Result) :
    (s.commitReady published).Inv := by
  obtain ⟨hcore, hhere⟩ := hs
  rw [At, hpoint] at hhere
  obtain ⟨hprogress, hnext⟩ := hhere
  unfold Scheduler.commitReady
  split
  · next slot block hslot hblock =>
    obtain ⟨-, hslot⟩ : s.committed < s.groupEnd ∧ s.slots s.committed = some slot := by
      split at hslot
      · next hlt => exact ⟨hlt, hslot⟩
      · cases hslot
    cases published with
    | threw error => exact hcore.fail hprogress.toGroup error
    | result result concludesTurn accepted =>
      cases accepted with
      | error error =>
        obtain ⟨hcore', hprogress'⟩ := hcore.published hprogress hslot hblock result s.concluded
        exact hcore'.fail hprogress'.toGroup error
      | ok _ =>
        obtain ⟨hcore', hprogress'⟩ := hcore.published hprogress hslot hblock result (s.concluded || concludesTurn)
        refine ⟨hcore', ?_⟩
        simp only [At, hpoint]
        exact ⟨{ hprogress' with }, hnext⟩
  · next hnothing =>
    refine hcore.throwSchedulerFailure hprogress.toGroup fun hnone => ?_
    refine ⟨hcore.congr, { hprogress with signalAborted := ?_ }, hnext.1, fun _ => ?_,
      fun heq => absurd hnext.2 (heq ▸ lt_irrefl _)⟩
    · intro haborted
      rcases Bool.or_eq_true_iff.mp haborted with hold | hsignal
      · exact hprogress.signalAborted hold
      · exact hsignal
    rcases Nat.lt_or_eq_of_le hcore.committed_le with hlt | heq
    · -- the call is in the group and has no slot, so it still runs
      have hplanned := getElem?_eq_getElem (lt_of_lt_of_le hlt hcore.started_le)
      rcases hprogress.unfinished s.committed (le_refl _) hlt with hslot | hrunning | hfailure
      · obtain ⟨slot, hslot⟩ := isSome_iff_exists.mp hslot
        refine absurd hplanned (hnothing slot _ ?_)
        rw [if_pos (lt_of_lt_of_le hlt hprogress.started_le), hslot]
      · exact .inr (hcore.running _ hrunning).1
      · rw [hnone] at hfailure
        cases hfailure
    · exact .inl heq

/-- **The end of a group.**  With nothing in flight everything started is published. -/
theorem Inv.endGroup (hs : s.Inv) (hpoint : s.point = .race) (hnil : s.inFlight = []) : s.endGroup.Inv := by
  obtain ⟨hcore, hhere⟩ := hs
  rw [At, hpoint] at hhere
  obtain ⟨hprogress, hnext, hwaits, -⟩ := hhere
  have hnone : s.schedulerFailure = none := by
    cases hfailure : s.schedulerFailure with
    | none => rfl
    | some error =>
      obtain ⟨i, hi, -⟩ := hprogress.failed (by rw [hfailure]; rfl)
      rw [hnil] at hi
      cases hi
  have heq : s.committed = s.started := by
    rcases hwaits hnone with heq | hmem
    · exact heq
    · rw [hnil] at hmem
      cases hmem
  unfold Scheduler.endGroup
  split
  · next haborted => exact ⟨hcore.congr, ⟨heq, hnil, hnone⟩, hprogress.signalAborted haborted⟩
  · split
    · next hne => exact absurd heq hne
    · exact ⟨hcore.congr, ⟨heq, hnil, hnone⟩, hprogress.unskipped⟩

theorem Inv.race (hs : s.Inv) (hpoint : s.point = .race) (hin : index ∈ s.inFlight)
    (hsettled : index ∉ s.running) : (s.race index).Inv := by
  obtain ⟨hcore, hhere⟩ := hs
  rw [At, hpoint] at hhere
  obtain ⟨hprogress, hnext, -, hfresh⟩ := hhere
  have hbase : s.base < s.nextToStart := by
    refine lt_of_le_of_ne (hnext ▸ le_trans hprogress.base_le hcore.committed_le) fun heq => ?_
    rw [(hfresh heq).1] at hin
    cases hin
  have hcore' : Core { s with inFlight := s.inFlight.erase index } :=
    { hcore with
      outcomes := ⟨hcore.outcomes.settled, hcore.outcomes.skipped⟩
      running := fun i hi =>
        ⟨(mem_erase_of_ne fun heq : i = index => hsettled (heq ▸ hi)).mpr (hcore.running i hi).1,
          (hcore.running i hi).2⟩
      nodup := ⟨hcore.nodup.1.erase _, hcore.nodup.2⟩
      inFlight := fun i hi => hcore.inFlight i (mem_of_mem_erase hi)
      limit := le_trans length_erase_le hcore.limit }
  refine hcore'.throwSchedulerFailure { hprogress.toGroup with } fun hnone => ?_
  refine ⟨hcore'.congr, { hprogress with prepared := fun i hi => ?_, failed := fun hfailed => ?_ }, hnext, hbase⟩
  · exact hprogress.prepared i (mem_of_mem_erase hi)
  · have hnone : s.schedulerFailure = none := hnone
    have hfailed : s.schedulerFailure.isSome = true := hfailed
    rw [hnone] at hfailed
    cases hfailed

theorem Core.skipped (h : s.Core) (hrest : s.Rest) (hblock : s.planned[s.started]? = some block) :
    Core { s with log := s.log ++ [.call s.started block], started := s.started + 1 } := by
  refine { h with
    calls := ?_
    results := ?_
    cites := h.cites.snoc fun _ _ _ _ heq => by cases heq
    blocks := h.blocks_snoc hblock
    outcomes := ⟨fun index callId callSeq result hmem => ?_, fun index callId callSeq hmem => ?_⟩
    committed_le := Nat.le_succ_of_le h.committed_le
    started_le := (List.getElem?_eq_some_iff.mp hblock).1
    slots := fun i hsome => Nat.lt_succ_of_lt (h.slots i hsome)
    inFlight := fun i hi => Nat.lt_succ_of_lt (h.inFlight i hi)
    alone := fun i j hi hi' hj hj' _ => ?_ }
  · rw [callsOf_append, h.calls, range_succ]
    rfl
  · rw [resultsOf_append, h.results]
    simp [resultsOf]
  · exact h.outcomes.settled index callId callSeq result (by simpa using hmem)
  · exact h.outcomes.skipped index callId callSeq (by simpa using hmem)
  · have heq := hrest.committed_eq
    dsimp only at hi hi' hj hj'
    omega

/-- **Skipping.**  After an abort each call left gets its pair of events. -/
theorem Inv.skip (hs : s.Inv) (hpoint : s.point = .skip) (call result : Except JsError Unit) :
    (s.skip call result).Inv := by
  obtain ⟨hcore, hhere⟩ := hs
  rw [At, hpoint] at hhere
  obtain ⟨hrest, hsignal⟩ := hhere
  unfold Scheduler.skip
  split
  · next hnone =>
    exact ⟨hcore.congr, { hrest with }, le_antisymm hcore.started_le (getElem?_eq_none_iff.mp hnone)⟩
  · next block hblock =>
    have hlogged := hcore.skipped hrest hblock
    cases call with
    | error error => exact ⟨hcore.congr, hcore.running_eq_nil hrest.inFlight⟩
    | ok _ =>
      cases result with
      | error error => exact ⟨hlogged.congr, hcore.running_eq_nil hrest.inFlight⟩
      | ok _ =>
        refine ⟨?_, ?_⟩
        · refine { hlogged with
            calls := ?_
            results := ?_
            cites := hlogged.cites.snoc fun index callId callSeq outcome heq => ?_
            blocks := fun index block' hmem => hlogged.blocks index block' (by simpa using hmem)
            outcomes := ⟨fun index callId callSeq result hmem => ?_, fun index callId callSeq hmem => ?_⟩
            committed_le := succ_le_succ hcore.committed_le
            alone := fun i j hi hi' hj hj' _ => ?_ }
          · rw [callsOf_append, hlogged.calls]
            simp [callsOf]
          · rw [resultsOf_append, hlogged.results, ← hrest.committed_eq, range_succ]
            rfl
          · cases heq
            exact ⟨block, by simp, rfl⟩
          · rcases mem_append.mp hmem with hold | hnew
            · exact hlogged.outcomes.settled index callId callSeq result hold
            · cases mem_singleton.mp hnew
          · rcases mem_append.mp hmem with hold | hnew
            · exact hlogged.outcomes.skipped index callId callSeq hold
            · cases mem_singleton.mp hnew
              refine ⟨hsignal, hrest.schedulerFailure, ?_⟩
              show s.slots s.started = none
              cases hslot : s.slots s.started with
              | none => rfl
              | some slot => exact absurd (hcore.slots s.started (by rw [hslot]; rfl)) (lt_irrefl _)
          · have heq := hrest.committed_eq
            dsimp only at hi hi' hj hj'
            omega
        · simp only [At, hpoint]
          exact ⟨{ hrest with committed_eq := congrArg (· + 1) hrest.committed_eq }, hsignal⟩

/-! ## What happens around it -/

theorem Core.settle (h : s.Core) (hgroup : s.Group) (hrunning : index ∈ s.running)
    (outcome : Settlement Result) : (s.settle index outcome).Core := by
  have hin := h.running index hrunning
  have hrest : ∀ i ∈ s.running.erase index, i ≠ index ∧ i ∈ s.running := fun i hi =>
    ⟨fun heq => h.nodup.2.not_mem_erase (heq ▸ hi), mem_of_mem_erase hi⟩
  cases outcome with
  | ok slot =>
    refine { h with
      outcomes := ⟨fun i callId callSeq result hmem => ?_, fun i callId callSeq hmem =>
        absurd hmem (hgroup.unskipped i callId callSeq)⟩
      slots := fun i hsome => ?_
      running := fun i hi => ⟨(h.running i (hrest i hi).2).1,
        (update_of_ne (hrest i hi).1 _ _).trans (h.running i (hrest i hi).2).2⟩
      nodup := ⟨h.nodup.1, h.nodup.2.erase _⟩ }
    · have hsome := h.outcomes.settled i callId callSeq result hmem
      by_cases heq : i = index
      · simp [Scheduler.settle, heq]
      · simpa only [Scheduler.settle, update_of_ne heq] using hsome
    · by_cases heq : i = index
      · exact heq ▸ h.inFlight index hin.1
      · rw [show (s.settle index (.ok slot)).slots i = s.slots i from update_of_ne heq _ _] at hsome
        exact h.slots i hsome
  | error error =>
    exact { h with
      outcomes := ⟨h.outcomes.settled, fun i callId callSeq hmem => absurd hmem (hgroup.unskipped i callId callSeq)⟩
      running := fun i hi => h.running i (hrest i hi).2
      nodup := ⟨h.nodup.1, h.nodup.2.erase _⟩ }

theorem Group.settle (h : s.Group) (index : Nat) (outcome : Settlement Result) : (s.settle index outcome).Group := by
  cases outcome <;> exact { h with }

theorem Progress.settle {n : Nat} (h : s.Progress n) (hcore : s.Core) (hrunning : index ∈ s.running)
    (outcome : Settlement Result) : (s.settle index outcome).Progress n := by
  obtain ⟨hin, hfree⟩ := hcore.running index hrunning
  have hgone : index ∉ s.running.erase index := hcore.nodup.2.not_mem_erase
  cases outcome with
  | ok slot =>
    have hother : ∀ i, i ≠ index → update s.slots index (some slot) i = s.slots i := fun i hi => update_of_ne hi _ _
    refine { h.toGroup.settle index (.ok slot) with
      slotted := fun i hsome => ?_
      unfinished := fun i hi hlt => ?_
      prepared := h.prepared
      failed := fun hfailed => ?_ }
    · by_cases heq : i = index
      · exact heq ▸ h.prepared index hin
      · rw [show (s.settle index (.ok slot)).slots i = s.slots i from hother i heq] at hsome
        exact h.slotted i hsome
    · show (update s.slots index (some slot) i).isSome = true ∨ i ∈ s.running.erase index ∨ _
      by_cases heq : i = index
      · exact .inl (by simp [heq])
      · rw [hother i heq, mem_erase_of_ne heq]
        exact h.unfinished i hi hlt
    · obtain ⟨i, hi, hsettled, hslot⟩ := h.failed hfailed
      have hne : i ≠ index := fun heq => hsettled (heq ▸ hrunning)
      exact ⟨i, hi, fun hmem => hsettled (mem_of_mem_erase hmem), (hother i hne).trans hslot⟩
  | error error =>
    have hfailed : (s.settle index (.error error)).schedulerFailure.isSome = true := by
      cases hfailure : s.schedulerFailure <;> simp [Scheduler.settle, hfailure]
    exact { h.toGroup.settle index (.error error) with
      slotted := h.slotted
      unfinished := fun _ _ _ => .inr (.inr hfailed)
      prepared := h.prepared
      failed := fun _ => ⟨index, hin, hgone, hfree⟩ }

theorem Waits.settle (h : s.Waits) (index : Nat) (outcome : Settlement Result) : (s.settle index outcome).Waits := by
  cases outcome with
  | ok slot => exact h
  | error error =>
    intro hnone
    cases hfailure : s.schedulerFailure <;> simp [Scheduler.settle, hfailure] at hnone

@[simp] theorem settle_point (s : Scheduler Result) (index : Nat) (outcome : Settlement Result) :
    (s.settle index outcome).point = s.point := by
  cases outcome <;> rfl

theorem Inv.settle (hs : s.Inv) (hrunning : index ∈ s.running) (outcome : Settlement Result) :
    (s.settle index outcome).Inv := by
  obtain ⟨hcore, hhere⟩ := hs
  have hbusy : ¬ s.inFlight = [] := fun hnil => by
    rw [hcore.running_eq_nil hnil] at hrunning
    cases hrunning
  have hframe : (s.settle index outcome).started = s.started ∧ (s.settle index outcome).nextToStart = s.nextToStart
      ∧ (s.settle index outcome).inFlight = s.inFlight
      ∧ (s.settle index outcome).maxParallelToolCalls = s.maxParallelToolCalls
      ∧ (s.settle index outcome).base = s.base ∧ (s.settle index outcome).aborted = s.aborted := by
    cases outcome <;> exact ⟨rfl, rfl, rfl, rfl, rfl, rfl⟩
  obtain ⟨hstarted, hnext, hinFlight, hmax, hbase, haborted⟩ := hframe
  cases hpoint : s.point <;> simp only [inv_iff, At, settle_point, hpoint, hstarted, hnext,
    hinFlight, hmax, hbase, haborted] at hhere ⊢
  case select => exact absurd hhere.1.inFlight hbusy
  case fill => exact ⟨hcore.settle hhere.1.toGroup hrunning outcome,
    hhere.1.settle hcore hrunning outcome, hhere.2.1, hhere.2.2.1.settle index outcome, hhere.2.2.2⟩
  case race => exact ⟨hcore.settle hhere.1.toGroup hrunning outcome,
    hhere.1.settle hcore hrunning outcome, hhere.2.1, hhere.2.2.1.settle index outcome, hhere.2.2.2⟩
  case commit => exact ⟨hcore.settle hhere.1.toGroup hrunning outcome, hhere.1.settle hcore hrunning outcome, hhere.2⟩
  case prepare => exact ⟨hcore.settle hhere.1.toGroup hrunning outcome, hhere.1.settle hcore hrunning outcome, hhere.2⟩
  case drain =>
    refine ⟨hcore.settle hhere.1 hrunning outcome, hhere.1.settle index outcome, ?_⟩
    obtain ⟨error, hfailure⟩ := isSome_iff_exists.mp hhere.2
    cases outcome <;> simp [Scheduler.settle, hfailure]
  case skip => exact absurd hhere.1.inFlight hbusy
  case returned => exact absurd hhere.1.inFlight hbusy
  case threw =>
    rw [hhere] at hrunning
    cases hrunning

theorem Inv.abort (hs : s.Inv) : Inv { s with signalAborted := true } := by
  obtain ⟨hcore, hhere⟩ := hs
  refine ⟨{ hcore with
    outcomes := ⟨hcore.outcomes.settled, fun index callId callSeq hmem =>
      ⟨rfl, (hcore.outcomes.skipped index callId callSeq hmem).2⟩⟩ }, ?_⟩
  have hgroup : s.Group → ∀ point, Group { s with signalAborted := true, point } := fun h _ =>
    { h with signalAborted := fun _ => rfl }
  have hprogress : ∀ n, s.Progress n → ∀ point, Progress { s with signalAborted := true, point } n :=
      fun n h _ =>
    { h with signalAborted := fun _ => rfl }
  cases hpoint : s.point <;> simp only [At, hpoint] at hhere ⊢
  case select => exact ⟨{ hhere.1 with }, hhere.2⟩
  case fill => exact ⟨hprogress _ hhere.1 _, hhere.2⟩
  case race => exact ⟨hprogress _ hhere.1 _, hhere.2⟩
  case commit => exact ⟨hprogress _ hhere.1 _, hhere.2⟩
  case prepare => exact ⟨hprogress _ hhere.1 _, hhere.2⟩
  case drain => exact ⟨hgroup hhere.1 _, hhere.2⟩
  case skip => exact ⟨{ hhere.1 with }, trivial⟩
  case returned => exact ⟨{ hhere.1 with }, hhere.2⟩
  case threw => exact hhere

theorem Inv.other (hs : s.Inv) : Inv { s with log := s.log ++ [.other] } := by
  obtain ⟨hcore, hhere⟩ := hs
  have hold : ∀ index callId callSeq (outcome : ToolOutcome Result),
      .result index callId callSeq outcome ∈ s.log ++ [ToolEvent.other] →
      .result index callId callSeq outcome ∈ s.log := by
    intro index callId callSeq outcome hmem
    rcases mem_append.mp hmem with hold | hnew
    · exact hold
    · cases mem_singleton.mp hnew
  refine ⟨{ hcore with
    calls := ?_
    results := ?_
    cites := hcore.cites.snoc fun _ _ _ _ heq => by cases heq
    blocks := fun index block hmem => hcore.blocks index block (by simpa using hmem)
    outcomes := ⟨fun index callId callSeq result hmem =>
        hcore.outcomes.settled index callId callSeq result (hold _ _ _ _ hmem),
      fun index callId callSeq hmem => hcore.outcomes.skipped index callId callSeq (hold _ _ _ _ hmem)⟩ }, ?_⟩
  · rw [callsOf_append, hcore.calls]
    exact append_nil _
  · rw [resultsOf_append, hcore.results]
    exact append_nil _
  have hgroup : s.Group → ∀ point, Group { s with log := s.log ++ [.other], point } := fun h _ =>
    { h with
      callSeqs := fun i hi hi' => by
        obtain ⟨block, hplanned, hcall⟩ := h.callSeqs i hi hi'
        exact ⟨block, hplanned, getElem?_of_getElem? hcall⟩
      unskipped := fun index callId callSeq hmem => h.unskipped index callId callSeq (hold _ _ _ _ hmem) }
  have hprogress : ∀ n, s.Progress n → ∀ point, Progress { s with log := s.log ++ [.other], point } n :=
      fun n h point =>
    { h with
      callSeqs := (hgroup h.toGroup point).callSeqs
      unskipped := (hgroup h.toGroup point).unskipped }
  cases hpoint : s.point <;> simp only [At, hpoint] at hhere ⊢
  case select =>
    exact ⟨{ hhere.1 with }, fun index callId callSeq hmem => hhere.2 index callId callSeq (hold _ _ _ _ hmem)⟩
  case fill => exact ⟨hprogress _ hhere.1 _, hhere.2⟩
  case race => exact ⟨hprogress _ hhere.1 _, hhere.2⟩
  case commit => exact ⟨hprogress _ hhere.1 _, hhere.2⟩
  case prepare => exact ⟨hprogress _ hhere.1 _, hhere.2⟩
  case drain => exact ⟨hgroup hhere.1 _, hhere.2⟩
  case skip => exact ⟨{ hhere.1 with }, hhere.2⟩
  case returned => exact ⟨{ hhere.1 with }, hhere.2⟩
  case threw => exact hhere

/-! ## Runs -/

def Takes (s : Scheduler Result) (act : ToolAct Result) (s' : Scheduler Result) : Prop :=
  match act with
  | .select mode => s.point = .select ∧ s' = s.select mode
  | .fill mode appended => s.point = .fill ∧ s' = s.fillPool mode appended
  | .prepared outcome => s.point = .prepare ∧ s' = s.prepared outcome
  | .commit published => s.point = .commit ∧ s' = s.commitReady published
  | .race index => s.point = .race ∧ (s.inFlight = [] ∧ s' = s.endGroup
      ∨ index ∈ s.inFlight ∧ index ∉ s.running ∧ s' = s.race index)
  | .drained => s.point = .drain ∧ s.running = [] ∧ ∃ error, s' = { s with point := .threw error }
  | .skip call result => s.point = .skip ∧ s' = s.skip call result
  | .settle index outcome => index ∈ s.running ∧ s' = s.settle index outcome
  | .abort => s' = { s with signalAborted := true }
  | .other => s' = { s with log := s.log ++ [.other] }

variable {act : ToolAct Result}

theorem step_takes (h : s.step act = some s') : s.Takes act s' := by
  have hif {c : Prop} [Decidable c] {t : Scheduler Result} (h : (if c then some t else none) = some s') :
      c ∧ s' = t := by
    obtain ⟨hc, h⟩ := ite_none_right_eq_some.mp h
    exact ⟨hc, (some.inj h).symm⟩
  cases act with
  | select mode | fill mode appended | prepared outcome | commit published | skip call result
  | settle index outcome => exact hif h
  | race index =>
    obtain ⟨hpoint, h⟩ := ite_none_right_eq_some.mp h
    refine ⟨hpoint, ?_⟩
    split at h
    · next hnil => exact .inl ⟨hnil, (some.inj h).symm⟩
    · obtain ⟨⟨hin, hsettled⟩, rfl⟩ := hif h
      exact .inr ⟨hin, hsettled, rfl⟩
  | drained =>
    simp only [Scheduler.step] at h
    split at h
    · obtain ⟨⟨hpoint, hnil⟩, rfl⟩ := hif h
      exact ⟨hpoint, hnil, _, rfl⟩
    · cases h
  | abort | other => exact (some.inj h).symm

/-- **Step.**  Whatever the scheduler does next and whatever happens around it, the invariant stays. -/
theorem Inv.step (hs : s.Inv) (h : s.step act = some s') : s'.Inv := by
  have htakes := step_takes h
  cases act with
  | select mode =>
    obtain ⟨hpoint, rfl⟩ := htakes
    exact hs.select hpoint mode
  | fill mode appended =>
    obtain ⟨hpoint, rfl⟩ := htakes
    exact hs.fillPool hpoint mode appended
  | prepared outcome =>
    obtain ⟨hpoint, rfl⟩ := htakes
    exact hs.prepared hpoint outcome
  | commit published =>
    obtain ⟨hpoint, rfl⟩ := htakes
    exact hs.commitReady hpoint published
  | race index =>
    obtain ⟨hpoint, ⟨hnil, rfl⟩ | ⟨hin, hsettled, rfl⟩⟩ := htakes
    · exact hs.endGroup hpoint hnil
    · exact hs.race hpoint hin hsettled
  | drained =>
    obtain ⟨-, hnil, error, rfl⟩ := htakes
    exact ⟨hs.core.congr, hnil⟩
  | skip call result =>
    obtain ⟨hpoint, rfl⟩ := htakes
    exact hs.skip hpoint call result
  | settle index outcome =>
    obtain ⟨hrunning, rfl⟩ := htakes
    exact hs.settle hrunning outcome
  | abort =>
    obtain rfl := htakes
    exact hs.abort
  | other =>
    obtain rfl := htakes
    exact hs.other

theorem inv_init (planned : List ToolCallBlock) (maxParallelToolCalls before : Nat) :
    Inv (init planned maxParallelToolCalls before : Scheduler Result) := by
  have hlog : ∀ event ∈ (init planned maxParallelToolCalls before : Scheduler Result).log,
      event = .other := fun event hmem => eq_of_mem_replicate hmem
  refine ⟨⟨?_, ?_, ?_, ?_, ⟨?_, ?_⟩, le_refl _, zero_le _, ?_, ?_, ⟨.nil, .nil⟩, ?_, zero_le _,
    ?_⟩, ⟨⟨rfl, rfl, rfl⟩, ?_⟩⟩
  · exact filterMap_eq_nil_iff.mpr fun event hmem => by rw [hlog event hmem]
  · exact filterMap_eq_nil_iff.mpr fun event hmem => by rw [hlog event hmem]
  · intro pos index callId callSeq outcome hpos
    cases hlog _ (mem_of_getElem? hpos)
  · intro index block hmem
    cases hlog _ hmem
  · intro index callId callSeq result hmem
    cases hlog _ hmem
  · intro index callId callSeq hmem
    cases hlog _ hmem
  · intro i hsome
    cases hsome
  · intro i hi
    cases hi
  · intro i hi
    cases hi
  · intro i j _ hi
    cases hi
  · intro index callId callSeq hmem
    cases hlog _ hmem

/-- **The invariant holds wherever the scheduler gets.** -/
theorem inv_exec {planned : List ToolCallBlock} {maxParallelToolCalls before : Nat} {acts : List (ToolAct Result)}
    (h : Machine.exec step (init planned maxParallelToolCalls before) acts = some s) : s.Inv :=
  Machine.exec_invariant (I := Inv) (fun _ _ _ _ hs hstep => hs.step hstep)
    (inv_init planned maxParallelToolCalls before) h

end Scheduler

end CocoHarness.Agent
