/-
# CocoHarness.Agent.ToolCallsRun — the tool calls of a step, over every schedule.

The scheduler also gets to an end: each of its own steps lowers `fuel`, and short of its end it is held up by nothing
but a dispatch.
-/
import CocoHarness.Agent.ToolCallsInvariant

namespace CocoHarness.Agent

open Lib SessionLog List

variable {Result : Type}

namespace Scheduler

variable {s s' : Scheduler Result}

/-! ## What never changes -/

def config (s : Scheduler Result) : List ToolCallBlock × Nat := (s.planned, s.maxParallelToolCalls)

theorem throwSchedulerFailure_config {c : List ToolCallBlock × Nat} (hs : s.config = c)
    (h : s'.config = c) : (s.throwSchedulerFailure s').config = c := by
  rw [throwSchedulerFailure]
  split
  · exact hs
  · exact h

theorem startCall_config (appended : Except JsError Unit) : (s.startCall appended).config = s.config := by
  unfold startCall
  split <;> rfl

variable {act : ToolAct Result}

theorem step_config (h : s.step act = some s') : s'.config = s.config := by
  have htakes := step_takes h
  cases act with
  | select mode =>
    obtain ⟨-, rfl⟩ := htakes
    unfold Scheduler.select
    split
    · rfl
    · split <;> rfl
  | fill mode appended =>
    obtain ⟨-, rfl⟩ := htakes
    unfold fillPool
    split
    · rfl
    · split
      · split
        · rfl
        · rfl
        · exact startCall_config appended
      · exact startCall_config appended
  | prepared outcome =>
    obtain ⟨-, rfl⟩ := htakes
    cases outcome with
    | error error => rfl
    | ok prepared => cases prepared <;> exact throwSchedulerFailure_config rfl rfl
  | commit published =>
    obtain ⟨-, rfl⟩ := htakes
    unfold commitReady
    split
    · cases published with
      | threw error => rfl
      | result result concludesTurn accepted => cases accepted <;> rfl
    · exact throwSchedulerFailure_config rfl rfl
  | race index =>
    obtain ⟨-, ⟨-, rfl⟩ | ⟨-, -, rfl⟩⟩ := htakes
    · unfold endGroup
      split
      · rfl
      · split <;> rfl
    · exact throwSchedulerFailure_config rfl rfl
  | drained =>
    obtain ⟨-, -, error, rfl⟩ := htakes
    rfl
  | skip call result =>
    obtain ⟨-, rfl⟩ := htakes
    unfold skip
    split
    · rfl
    · cases call with
      | error error => rfl
      | ok _ => cases result <;> rfl
  | settle index outcome =>
    obtain ⟨-, rfl⟩ := htakes
    cases outcome <;> rfl
  | abort | other =>
    obtain rfl := htakes
    rfl

variable {acts : List (ToolAct Result)}

theorem exec_config (h : Machine.exec step s acts = some s') : s'.config = s.config :=
  Machine.exec_invariant (I := fun t => t.config = s.config)
    (fun _ _ _ _ ht hstep => (step_config hstep).trans ht) rfl h

/-! ## The scheduler ends -/

def Ended (s : Scheduler Result) : Prop := s.point = .returned ∨ ∃ error, s.point = .threw error

/-- What the scheduler has left to do, weighed so that each of its steps takes some off. -/
def fuel (s : Scheduler Result) : Nat :=
  let left := 20 * (s.planned.length - s.started) + 2 * (s.started - s.committed) + 4 * s.inFlight.length
  let late := if s.base < s.nextToStart then 6 else 0
  match s.point with
  | .select => left + 4
  | .fill => left + 3 + late
  | .prepare => left + 15
  | .commit => left + 10
  | .race => left + 2 + late
  | .drain => 1
  | .skip => s.planned.length - s.started + 1
  | .returned | .threw _ => 0

theorem fail_fuel (error : JsError) : (s.fail error).fuel = 1 := rfl

theorem throwSchedulerFailure_fuel {n : Nat} (hn : 1 < n) (h : s'.fuel < n) :
    (s.throwSchedulerFailure s').fuel < n := by
  rw [throwSchedulerFailure]
  split
  · exact hn
  · exact h

theorem select_fuel (h : s.point = .select) (mode : Except JsError ToolExecutionMode) :
    (s.select mode).fuel < s.fuel := by
  unfold Scheduler.select
  split
  · simp [fuel, h]
  · split <;> simp [fuel, h]

theorem startCall_fuel (h : s.point = .fill) (hlt : s.started < s.planned.length)
    (appended : Except JsError Unit) : (s.startCall appended).fuel < s.fuel := by
  have hone : 1 < s.fuel := by
    simp only [fuel, h]
    omega
  unfold startCall
  split
  · simp only [fuel, h]
    split <;> omega
  · exact hone
  · exact hone

theorem fillPool_fuel (hs : s.Inv) (h : s.point = .fill) (mode : Except JsError ToolExecutionMode)
    (appended : Except JsError Unit) : (s.fillPool mode appended).fuel < s.fuel := by
  have hhere := hs.here
  rw [At, h] at hhere
  obtain ⟨hprogress, hnext, -, -⟩ := hhere
  have hend := hprogress.groupEnd_le
  have hwait : fuel { s with point := .race } < s.fuel := by simp [fuel, h]
  unfold fillPool
  split
  · exact hwait
  · next hgo =>
    have hlt : s.started < s.planned.length := by omega
    split
    · split
      · rw [fail_fuel]
        simp only [fuel, h]
        omega
      · exact hwait
      · exact startCall_fuel h hlt appended
    · exact startCall_fuel h hlt appended

theorem prepared_fuel (h : s.point = .prepare) (outcome : Except JsError (Prepared Result)) :
    (s.prepared outcome).fuel < s.fuel := by
  have hone : 1 < s.fuel := by
    simp only [fuel, h]
    omega
  cases outcome with
  | error error => exact hone
  | ok prepared =>
    refine throwSchedulerFailure_fuel hone ?_
    cases prepared with
    | dispatch =>
      simp only [fuel, h, length_append, length_singleton]
      omega
    | postResult result | finalResult result =>
      simp only [fuel, h]
      omega

theorem commitReady_fuel (hs : s.Inv) (h : s.point = .commit) (published : Published Result) :
    (s.commitReady published).fuel < s.fuel := by
  have hone : 1 < s.fuel := by
    simp only [fuel, h]
    omega
  have hhere := hs.here
  rw [At, h] at hhere
  obtain ⟨hprogress, -, hbase⟩ := hhere
  unfold commitReady
  split
  · next slot block hslot hblock =>
    have hlt : s.committed < s.started := by
      split at hslot
      · exact hprogress.slotted _ (by rw [hslot]; rfl)
      · cases hslot
    cases published with
    | threw error => exact hone
    | result result concludesTurn accepted =>
      cases accepted with
      | error error => exact hone
      | ok _ =>
        simp only [fuel, h]
        omega
  · refine throwSchedulerFailure_fuel hone ?_
    simp only [fuel, h, if_pos hbase]
    omega

theorem endGroup_fuel (hs : s.Inv) (h : s.point = .race) (hmax : 0 < s.maxParallelToolCalls) :
    s.endGroup.fuel < s.fuel := by
  have hhere := hs.here
  rw [At, h] at hhere
  obtain ⟨hprogress, hnext, -, hfresh⟩ := hhere
  unfold endGroup
  split
  · simp only [fuel, h]
    omega
  · next haborted =>
    have hlate : s.base < s.nextToStart := by
      refine Nat.lt_of_le_of_ne (hnext ▸ Nat.le_trans hprogress.base_le hs.core.committed_le)
        fun heq => ?_
      rcases (hfresh heq).2 with habort | hzero
      · exact haborted habort
      · omega
    split
    · simp only [fuel, h]
      omega
    · simp only [fuel, h, if_pos hlate]
      omega

theorem race_fuel (hs : s.Inv) (h : s.point = .race) {index : Nat} (hin : index ∈ s.inFlight) :
    (s.race index).fuel < s.fuel := by
  have hhere := hs.here
  rw [At, h] at hhere
  obtain ⟨hprogress, hnext, -, hfresh⟩ := hhere
  have hlate : s.base < s.nextToStart := by
    refine Nat.lt_of_le_of_ne (hnext ▸ Nat.le_trans hprogress.base_le hs.core.committed_le) fun heq => ?_
    rw [(hfresh heq).1] at hin
    cases hin
  have hone : 1 < s.fuel := by
    simp only [fuel, h]
    omega
  have hlen := length_erase_of_mem hin
  have hpos := length_pos_of_mem hin
  refine throwSchedulerFailure_fuel hone ?_
  simp only [fuel, h, if_pos hlate]
  omega

theorem skip_fuel (h : s.point = .skip) (call result : Except JsError Unit) : (s.skip call result).fuel < s.fuel := by
  unfold skip
  split
  · simp [fuel, h]
  · next block hblock =>
    have hlt := (List.getElem?_eq_some_iff.mp hblock).1
    cases call with
    | error error => simp [fuel, h]
    | ok _ =>
      cases result with
      | error error => simp [fuel, h]
      | ok _ =>
        simp only [fuel, h]
        omega

/-- **Fuel.**  The steps of the scheduler lower it, and nothing around it changes it. -/
theorem step_fuel (hs : s.Inv) (hmax : 0 < s.maxParallelToolCalls)
    (h : s.step act = some s') : s'.fuel + (if act.own then 1 else 0) ≤ s.fuel := by
  have htakes := step_takes h
  cases act with
  | select mode =>
    obtain ⟨hpoint, rfl⟩ := htakes
    exact select_fuel hpoint mode
  | fill mode appended =>
    obtain ⟨hpoint, rfl⟩ := htakes
    exact fillPool_fuel hs hpoint mode appended
  | prepared outcome =>
    obtain ⟨hpoint, rfl⟩ := htakes
    exact prepared_fuel hpoint outcome
  | commit published =>
    obtain ⟨hpoint, rfl⟩ := htakes
    exact commitReady_fuel hs hpoint published
  | race index =>
    obtain ⟨hpoint, ⟨-, rfl⟩ | ⟨hin, -, rfl⟩⟩ := htakes
    · exact endGroup_fuel hs hpoint hmax
    · exact race_fuel hs hpoint hin
  | drained =>
    obtain ⟨hpoint, -, error, rfl⟩ := htakes
    simp [fuel, hpoint, ToolAct.own]
  | skip call result =>
    obtain ⟨hpoint, rfl⟩ := htakes
    exact skip_fuel hpoint call result
  | settle index outcome =>
    obtain ⟨-, rfl⟩ := htakes
    cases outcome <;> exact Nat.le_refl _
  | abort | other =>
    obtain rfl := htakes
    exact Nat.le_refl _

theorem exec_fuel (hs : s.Inv) (hmax : 0 < s.maxParallelToolCalls)
    (h : Machine.exec step s acts = some s') : s'.fuel + acts.countP ToolAct.own ≤ s.fuel := by
  induction acts generalizing s with
  | nil =>
    cases h
    exact Nat.le_refl _
  | cons act acts ih =>
    obtain ⟨mid, hmid, hrest⟩ := Option.bind_eq_some_iff.mp h
    have hmax' : mid.maxParallelToolCalls = s.maxParallelToolCalls := congrArg Prod.snd (step_config hmid)
    have hlater := ih (hs.step hmid) (hmax' ▸ hmax) hrest
    have hnow := step_fuel hs hmax hmid
    rw [countP_cons]
    omega

/-- **Only a dispatch holds the scheduler up.** -/
theorem Inv.enabled (hs : s.Inv) (hended : ¬ s.Ended) (hnil : s.running = []) :
    ∃ act : ToolAct Result, act.own = true ∧ (s.step act).isSome = true := by
  have hhere := hs.here
  cases hpoint : s.point with
  | select => exact ⟨.select (.ok .exclusive), rfl, by simp [Scheduler.step, hpoint]⟩
  | fill => exact ⟨.fill (.ok .exclusive) (.ok ()), rfl, by simp [Scheduler.step, hpoint]⟩
  | prepare => exact ⟨.prepared (.ok .dispatch), rfl, by simp [Scheduler.step, hpoint]⟩
  | commit => exact ⟨.commit (.threw (.error "")), rfl, by simp [Scheduler.step, hpoint]⟩
  | race =>
    cases hinFlight : s.inFlight with
    | nil => exact ⟨.race 0, rfl, by simp [Scheduler.step, hpoint, hinFlight]⟩
    | cons index rest => exact ⟨.race index, rfl, by simp [Scheduler.step, hpoint, hinFlight, hnil]⟩
  | drain =>
    rw [At, hpoint] at hhere
    obtain ⟨error, hfailure⟩ := Option.isSome_iff_exists.mp hhere.2
    exact ⟨.drained, rfl, by simp [Scheduler.step, hpoint, hfailure, hnil]⟩
  | skip => exact ⟨.skip (.ok ()) (.ok ()), rfl, by simp [Scheduler.step, hpoint]⟩
  | returned => exact absurd (.inl hpoint) hended
  | threw error => exact absurd (.inr ⟨error, hpoint⟩) hended

/-! ## The tool calls of a step -/

def InProgress (s : Scheduler Result) (index : Nat) : Prop := index ∈ callsOf s.log ∧ index ∉ resultsOf s.log

theorem Core.inProgress (h : s.Core) (index : Nat) : s.InProgress index ↔ s.committed ≤ index ∧ index < s.started := by
  rw [InProgress, h.calls, h.results, mem_range, mem_range, Nat.not_lt, and_comm]

/-- The calls logged are the planned ones in the model's order, and so are the results, each citing its call. -/
structure InOrder (planned : List ToolCallBlock) (log : List (ToolEvent Result)) (started committed : Nat) : Prop where
  calls : callsOf log = List.range started
  results : resultsOf log = List.range committed
  committed_le : committed ≤ started
  started_le : started ≤ planned.length
  blocks : ∀ index block, .call index block ∈ log → planned[index]? = some block
  cites : Cites log

/-- **Tool calls.**  However the calls are classified, in whatever order the dispatches settle and whenever the abort
comes: calls and results are logged in the model's order, each result citing its call; what is in flight stays within
the limit; and an exclusive call is in progress alone. If the scheduler returns, every call has exactly one result. If
it throws, everything started is awaited, a result logged for a dispatch is of a call that settled, and a synthetic
one of a call that never started, skipped after an abort and before any failure. Its steps are bounded, and only a
running dispatch holds it up. -/
theorem executeToolCalls_run {planned : List ToolCallBlock} {maxParallelToolCalls before : Nat}
    (h : Machine.exec step (init planned maxParallelToolCalls before) acts = some s) :
    (∃ started committed, InOrder planned s.log started committed)
      ∧ s.inFlight.length + (if s.point = .prepare then 1 else 0) ≤ maxParallelToolCalls
      ∧ (∀ i j, s.InProgress i → s.startedAs i = .exclusive → s.InProgress j → j = i)
      ∧ (s.point = .returned → InOrder planned s.log planned.length planned.length)
      ∧ (∀ error, s.point = .threw error → s.running = []
          ∧ (∀ index callId callSeq result, .result index callId callSeq (.settled result) ∈ s.log →
              (s.slots index).isSome = true)
          ∧ ∀ index callId callSeq, .result index callId callSeq .abortedBeforeDispatch ∈ s.log →
              s.signalAborted = true ∧ s.schedulerFailure = none ∧ s.slots index = none)
      ∧ (0 < maxParallelToolCalls → acts.countP ToolAct.own ≤ 20 * planned.length + 4)
      ∧ (s.Ended ∨ s.running ≠ [] ∨ ∃ act : ToolAct Result, act.own = true ∧ (s.step act).isSome = true) := by
  have hinv := inv_exec h
  have hconfig := exec_config h
  have hplanned : s.planned = planned := congrArg Prod.fst hconfig
  have hmax : s.maxParallelToolCalls = maxParallelToolCalls := congrArg Prod.snd hconfig
  have hcore := hinv.core
  have hhere := hinv.here
  have horder : InOrder planned s.log s.started s.committed := by
    subst hplanned
    exact ⟨hcore.calls, hcore.results, hcore.committed_le, hcore.started_le, hcore.blocks, hcore.cites⟩
  refine ⟨⟨_, _, horder⟩, ?_, fun i j hi hexclusive hj => ?_, fun hreturned => ?_,
    fun error hthrew => ⟨?_, hcore.outcomes.settled, hcore.outcomes.skipped⟩, fun hpos => ?_, ?_⟩
  · rw [← hmax]
    split
    · next hprepare =>
      rw [At, hprepare] at hhere
      exact hhere.2.2.1
    · exact hcore.limit
  · obtain ⟨hi, hi'⟩ := (hcore.inProgress i).mp hi
    obtain ⟨hj, hj'⟩ := (hcore.inProgress j).mp hj
    exact hcore.alone i j hi hi' hj hj' hexclusive
  · rw [At, hreturned] at hhere
    obtain ⟨hrest, hall⟩ := hhere
    rwa [hrest.committed_eq, hall, hplanned] at horder
  · rw [At, hthrew] at hhere
    exact hhere
  · have hfuel := exec_fuel (inv_init planned maxParallelToolCalls before) hpos h
    simp only [fuel, init, List.length_nil] at hfuel
    omega
  · by_cases hended : s.Ended
    · exact .inl hended
    · by_cases hnil : s.running = []
      · exact .inr (.inr (hinv.enabled hended hnil))
      · exact .inr (.inl hnil)

/-- Two parallel calls settle in the other order, and a third has turned exclusive meanwhile. -/
theorem executeToolCalls_run_of_barrier :
    let planned : List ToolCallBlock := [⟨"a", "read", ""⟩, ⟨"b", "read", ""⟩, ⟨"c", "write", ""⟩]
    let nothing : List (ToolAct String) := [.commit (.threw (.error ""))]
    let start : List (ToolAct String) := [.fill (.ok .parallel) (.ok ()), .prepared (.ok .dispatch)] ++ nothing
    let settled (index : Nat) (result : String) : List (ToolAct String) :=
      [.settle index (.ok ⟨result, true⟩), .race index]
    let publish (result : String) : List (ToolAct String) := [.commit (.result result false (.ok ()))]
    let wait : List (ToolAct String) := [.fill (.ok .exclusive) (.ok ())]
    let acts := .select (.ok .parallel) :: start ++ start ++ wait ++ settled 1 "b" ++ nothing ++ wait
      ++ settled 0 "a" ++ publish "a" ++ publish "b" ++ nothing ++ wait
      ++ [.race 0, .select (.ok .exclusive)] ++ wait
      ++ [.prepared (.ok (.postResult "c"))] ++ publish "c" ++ nothing ++ wait
      ++ [.race 0, .select (.ok .exclusive)]
    ∃ s, Machine.exec step (init planned 2 1) acts = some s ∧ s.point = .returned ∧ InOrder planned s.log 3 3 := by
  intro planned nothing start settled publish wait acts
  have hrun : (Machine.exec step (init planned 2 1) acts).map Scheduler.point = some .returned := by decide +kernel
  obtain ⟨s, hs, hreturned⟩ := Option.map_eq_some_iff.mp hrun
  exact ⟨s, hs, hreturned, (executeToolCalls_run hs).2.2.2.1 hreturned⟩

end Scheduler

end CocoHarness.Agent
