/-
# CocoHarness.Goal.Mutations — the strict fold admits every change the service plans.

The service checks refs and transitions in code of its own.  Whatever passes its checks is the next revision of the
current goal, keeps the counters and the creation time, is not earlier than the last update, and leads to a phase the
fold allows (`plan_accepted`).
-/
import CocoHarness.Goal.Service

namespace CocoHarness.Goal

open Lib Lib.SafeInteger SessionLog Nat
open SessionLog.SessionEvent (intField)
open Schedule (trim Trimmed trim_trim)

/-- The change can be written and read back, and the fold admits it next. -/
def Accepted (state : GoalFoldState) (change : GoalChangeMeta) : Prop :=
  change.WF ∧ ∃ next, applyGoalChange state change = .ok next

theorem Accepted.event {state : GoalFoldState} {change : GoalChangeMeta} (h : Accepted state change) {event : SessionEvent}
    (htype : event.type = "goal/change") (hdata : event.data = change.toJson) :
    ∃ next, applyGoalEvent state event = .ok next := by
  obtain ⟨hwf, next, hnext⟩ := h
  refine ⟨next, ?_⟩
  rw [applyGoalEvent, if_pos htype, hdata, decodeGoalChange_toJson hwf, ok_bind]
  exact hnext

/-! ## Requests -/

variable {value : Json}

theorem resolveMaxGoalRounds_ok {n : Nat} (h : resolveMaxGoalRounds value = .ok n) : 1 ≤ n ∧ IsSafe n := by
  unfold resolveMaxGoalRounds at h
  split at h
  · next k hk =>
    obtain ⟨hsafe, hpos⟩ := Option.filter_eq_some_iff.mp hk
    cases h
    have hpos : 1 ≤ k := of_decide_eq_true hpos
    have hk : ((k.toNat : Nat) : Int) = k := Int.toNat_of_nonneg (by omega)
    refine ⟨by omega, ?_⟩
    rw [hk]
    exact (SessionEvent.safeInt?_eq_some_iff.mp hsafe).2
  · cases h

variable {s : String}

theorem trimmed_trim (h : trim s ≠ "") : Trimmed (trim s) := ⟨h, trim_trim s⟩

theorem resolveObjective_ok {value : Option Json} (h : resolveObjective value = .ok s) : Trimmed s := by
  unfold resolveObjective at h
  split at h
  · next text htext =>
    cases h
    exact trimmed_trim (of_decide_eq_true (Option.filter_eq_some_iff.mp htext).2)
  · cases h

theorem resolveCreateGoal_ok {config : ResolvedConfig} {request : CreateGoalRequest} {spec : ResolvedCreateGoal}
    (h : resolveCreateGoal config request = .ok spec) :
    Trimmed spec.objective ∧ 1 ≤ spec.maxGoalRounds ∧ IsSafe spec.maxGoalRounds := by
  obtain ⟨objective, hobjective, h⟩ := bind_eq_ok_iff.mp h
  split at h
  all_goals
    obtain ⟨maxGoalRounds, hrounds, h⟩ := bind_eq_ok_iff.mp h
    cases h
    exact ⟨resolveObjective_ok hobjective, resolveMaxGoalRounds_ok hrounds⟩

theorem resolveBlockReason_ok {reason : GoalBlockReason} (h : resolveBlockReason value = .ok reason) : reason.WF := by
  unfold resolveBlockReason at h
  dsimp only at h
  split at h
  · next code message hcode hmessage =>
    cases h
    exact ⟨(Option.filter_eq_some_iff.mp hcode).2,
      trimmed_trim (of_decide_eq_true (Option.filter_eq_some_iff.mp hmessage).2)⟩
  · cases h

namespace GoalService

variable {cache : GoalCache} {current : GoalSnapshot} {mutation : Mutation} {now : WallClock} {n : Nat}

/-! ## Operations -/

variable {ref : GoalRef}

theorem expectCurrent_ok (h : expectCurrent cache ref = .ok current) : cache.state.goal = some current := by
  unfold expectCurrent at h
  split at h
  · cases h
  · next hgoal =>
    split at h
    · cases h
    · rw [hgoal, Except.ok.inj h]

theorem next_safe (h : FoldInv cache.state n) (hn : n ≤ maxArrayLength) (hcurrent : cache.state.goal = some current) :
    1 ≤ current.revision + 1 ∧ IsSafe (current.revision + 1 : Nat) := by
  have hrevision := (h.current current hcurrent).2
  refine ⟨by omega, ?_⟩
  show ((current.revision + 1 : Nat) : Int).natAbs ≤ 9007199254740991
  have : maxArrayLength = 4294967295 := rfl
  omega

theorem now_safe (now : WallClock) : IsSafe now.ms := by
  have := now.bound
  show ((now.ms : Nat) : Int).natAbs ≤ 9007199254740991
  omega

variable {operation : GoalOperation} {activation : GoalActivation}

/-- **The next change of the current goal** is admitted when its phase is. -/
theorem currentChange_accepted {goal : GoalSnapshot}
    (h : FoldInv cache.state n) (hcurrent : cache.state.goal = some current) (hwf : goal.WF) (hid : goal.id = current.id)
    (hrevision : goal.revision = current.revision + 1) (hphase : validatePhase cache.state operation goal current = .ok ())
    (hnext : currentChange cache operation goal activation now = .ok mutation) :
    Accepted cache.state mutation.change ∧ mutation.activation = activation := by
  obtain ⟨createdAt, updatedAt, hcreatedAt, hupdatedAt, hle, hsafe⟩ := h.times current hcurrent
  simp only [currentChange, hcreatedAt, nextMutationTime, hupdatedAt, pure_eq_ok, ok_bind, Except.ok.injEq] at hnext
  subst hnext
  have hmax : updatedAt ≤ max now.ms updatedAt := le_max_right ..
  have hmaxSafe : IsSafe ((max now.ms updatedAt : Nat) : Int) := by
    rcases le_total now.ms updatedAt with hlate | hearly
    · rw [max_eq_right hlate]
      exact hsafe
    · rw [max_eq_left hearly]
      exact now_safe now
  have hvalid : validateSnapshotTransition cache.state operation goal cache.state.roundsStarted createdAt
      (max now.ms updatedAt) current = .ok () := by
    simp only [validateSnapshotTransition, requireNextRevision_ok_iff.mpr ⟨hid, hrevision⟩, ok_bind, hupdatedAt, hcreatedAt]
    rw [if_neg]
    · exact hphase
    · simp only [ne_eq, not_true_eq_false, false_or, or_false]
      omega
  have hcreate : operation ≠ .create := by
    rintro rfl
    cases hphase
  refine ⟨⟨⟨hwf, h.rounds, le_trans hle hmax, hmaxSafe⟩, ?_⟩, rfl⟩
  cases operation with
  | create => exact absurd rfl hcreate
  | edit | pause | resume | complete | block => exact ⟨_, by simp only [applyGoalChange, hcurrent, hvalid, ok_bind]; rfl⟩

variable {phase : GoalPhase}

theorem withPhase_wf (hwf : current.WF)
    (hnext : 1 ≤ current.revision + 1 ∧ IsSafe (current.revision + 1 : Nat)) (hphase : phase ≠ .blocked) :
    (withPhase current phase).WF :=
  ⟨hwf.id, hnext, hwf.objective, hwf.maxGoalRounds, ⟨nofun, fun hblocked => absurd hblocked hphase⟩, nofun⟩

theorem requireSameDefinition_ok {next : GoalSnapshot} {operation : String} (hobjective : next.objective = current.objective)
    (hrounds : next.maxGoalRounds = current.maxGoalRounds) : requireSameDefinition current next operation = .ok () := by
  simp [requireSameDefinition, hobjective, hrounds]

theorem create_accepted {spec : ResolvedCreateGoal} {uuid : String} (hspec : Trimmed spec.objective ∧
    1 ≤ spec.maxGoalRounds ∧ IsSafe spec.maxGoalRounds) (hfresh : s!"goal-{uuid}" ∉ cache.state.seenGoalIds)
    (hnext : create cache spec uuid now = .ok mutation) :
    Accepted cache.state mutation.change ∧ mutation.activation = .armed := by
  unfold create at hnext
  split at hnext
  · cases hnext
  · next hnone =>
    cases hnext
    have hid : s!"goal-{uuid}" ≠ "" := by
      show "goal-" ++ uuid ≠ ""
      intro hempty
      have hlength := congrArg String.length hempty
      have hgoal : "goal-".length = 5 := rfl
      rw [String.length_append, hgoal, String.length_empty] at hlength
      omega
    have hdone : ¬ cache.state.goal.any (·.phase ≠ .complete) = true := by
      cases hgoal : cache.state.goal with
      | none => exact nofun
      | some current =>
        rw [hgoal] at hnone
        simpa [Option.filter] using hnone
    have hone : IsSafe ((1 : Nat) : Int) := by decide
    refine ⟨⟨⟨⟨hid, ⟨le_refl 1, hone⟩, hspec.1, hspec.2, ⟨nofun, nofun⟩, nofun⟩, zero_le _, le_refl _,
      now_safe now⟩, ?_⟩, rfl⟩
    refine ⟨_, if_neg ?_⟩
    rintro (hne | hne | hne | hopen | hseen)
    · exact hne rfl
    · exact hne rfl
    · exact hne rfl
    · exact hdone hopen
    · exact hfresh hseen

theorem edit_accepted {request : EditGoalRequest} (h : FoldInv cache.state n) (hn : n ≤ maxArrayLength)
    (hnext : edit cache ref request now = .ok mutation) :
    Accepted cache.state mutation.change ∧ mutation.activation = cache.activation := by
  obtain ⟨current, hexpect, hnext⟩ := bind_eq_ok_iff.mp hnext
  have hcurrent := expectCurrent_ok hexpect
  have hwf := (h.current current hcurrent).1
  split at hnext
  · cases hnext
  · obtain ⟨objective, hobjective, hnext⟩ := bind_eq_ok_iff.mp hnext
    obtain ⟨maxGoalRounds, hrounds, hnext⟩ := bind_eq_ok_iff.mp hnext
    have htrimmed : Trimmed objective := by
      cases hrequest : request.objective with
      | none =>
        rw [hrequest] at hobjective
        exact Except.ok.inj hobjective ▸ hwf.objective
      | some value =>
        rw [hrequest] at hobjective
        exact resolveObjective_ok hobjective
    have hcap : 1 ≤ maxGoalRounds ∧ IsSafe maxGoalRounds := by
      cases hrequest : request.maxGoalRounds with
      | none =>
        rw [hrequest] at hrounds
        exact Except.ok.inj hrounds ▸ hwf.maxGoalRounds
      | some value =>
        rw [hrequest] at hrounds
        exact resolveMaxGoalRounds_ok hrounds
    refine currentChange_accepted h hcurrent ?_ ?_ ?_ ?_ hnext
    · exact ⟨hwf.id, next_safe h hn hcurrent, htrimmed, hcap, hwf.blocked, hwf.reason⟩
    · rfl
    · rfl
    · simp [validatePhase]

theorem transition_accepted {allowed : List GoalPhase} (h : FoldInv cache.state n) (hn : n ≤ maxArrayLength)
    (hblocked : phase ≠ .blocked)
    (hphase : ∀ current, current.phase ∈ allowed →
      validatePhase cache.state operation (withPhase current phase) current = .ok ())
    (hnext : transition cache ref operation allowed phase activation now = .ok mutation) :
    Accepted cache.state mutation.change ∧ mutation.activation = activation := by
  obtain ⟨current, hexpect, hnext⟩ := bind_eq_ok_iff.mp hnext
  have hcurrent := expectCurrent_ok hexpect
  split at hnext
  · cases hnext
  · next hallowed =>
    rw [not_not] at hallowed
    refine currentChange_accepted h hcurrent ?_ ?_ ?_ (hphase current hallowed) hnext
    · exact withPhase_wf (h.current current hcurrent).1 (next_safe h hn hcurrent) hblocked
    · rfl
    · rfl

theorem pause_accepted (h : FoldInv cache.state n) (hn : n ≤ maxArrayLength)
    (hnext : pause cache ref now = .ok mutation) :
    Accepted cache.state mutation.change ∧ mutation.activation = .disarmed := by
  have hnext : transition cache ref .pause [.active] .paused .disarmed now = .ok mutation := hnext
  refine transition_accepted h hn ?_ (fun current hallowed => ?_) hnext
  · exact nofun
  have hactive : current.phase = .active := by simpa using hallowed
  have hsame : requireSameDefinition current (withPhase current .paused) GoalOperation.pause.text = .ok () :=
    requireSameDefinition_ok rfl rfl
  simp only [validatePhase, hsame, ok_bind, hactive]
  rfl

theorem complete_accepted (h : FoldInv cache.state n) (hn : n ≤ maxArrayLength)
    (hnext : complete cache ref now = .ok mutation) :
    Accepted cache.state mutation.change ∧ mutation.activation = .disarmed := by
  have hnext : transition cache ref .complete [.active, .paused, .blocked] .complete .disarmed now = .ok mutation := hnext
  refine transition_accepted h hn ?_ (fun current hallowed => ?_) hnext
  · exact nofun
  have hopen : current.phase ≠ .complete := by
    intro hcomplete
    simp [hcomplete] at hallowed
  have hsame : requireSameDefinition current (withPhase current .complete) GoalOperation.complete.text = .ok () :=
    requireSameDefinition_ok rfl rfl
  simp only [validatePhase, hsame, ok_bind]
  rw [if_neg]
  · rfl
  · simp [hopen, withPhase]

theorem resume_accepted (h : FoldInv cache.state n) (hn : n ≤ maxArrayLength)
    (hnext : resume cache ref now = .ok mutation) :
    Accepted cache.state mutation.change ∧ mutation.activation = .armed := by
  obtain ⟨current, hexpect, hnext⟩ := bind_eq_ok_iff.mp hnext
  have hcurrent := expectCurrent_ok hexpect
  dsimp only at hnext
  split at hnext
  · cases hnext
  · next hresumable =>
    split at hnext
    · cases hnext
    · split at hnext
      · cases hnext
      · next hrounds =>
        refine currentChange_accepted h hcurrent ?_ ?_ ?_ ?_ hnext
        · exact withPhase_wf (h.current current hcurrent).1 (next_safe h hn hcurrent) nofun
        · rfl
        · rfl
        · have hopen : current.phase ≠ .complete := by
            intro hcomplete
            simp [hcomplete] at hresumable
          have hsame : requireSameDefinition current (withPhase current .active) GoalOperation.resume.text = .ok () :=
            requireSameDefinition_ok rfl rfl
          simp only [validatePhase, hsame, ok_bind]
          rw [if_neg]
          · rfl
          · simp only [not_or, not_not]
            exact ⟨hopen, rfl, hrounds⟩

theorem block_accepted {reason : Json} (h : FoldInv cache.state n) (hn : n ≤ maxArrayLength)
    (hnext : block cache ref reason now = .ok mutation) :
    Accepted cache.state mutation.change ∧ mutation.activation = .disarmed := by
  obtain ⟨current, hexpect, hnext⟩ := bind_eq_ok_iff.mp hnext
  have hcurrent := expectCurrent_ok hexpect
  have hwf := (h.current current hcurrent).1
  split at hnext
  · cases hnext
  · next hactive =>
    obtain ⟨blockedReason, hreason, hnext⟩ := bind_eq_ok_iff.mp hnext
    refine currentChange_accepted h hcurrent ?_ ?_ ?_ ?_ hnext
    · exact ⟨hwf.id, next_safe h hn hcurrent, hwf.objective, hwf.maxGoalRounds, ⟨fun _ => rfl, fun _ => rfl⟩,
        fun other hother => Option.some.inj hother ▸ resolveBlockReason_ok hreason⟩
    · rfl
    · rfl
    · have hsame : requireSameDefinition current { withPhase current .blocked with blockedReason := some blockedReason }
          GoalOperation.block.text = .ok () := requireSameDefinition_ok rfl rfl
      simp only [validatePhase, hsame, ok_bind]
      rw [if_neg]
      · rfl
      · simp only [not_or, not_not]
        exact ⟨not_not.mp hactive, rfl⟩

theorem clear_accepted (h : FoldInv cache.state n) (hn : n ≤ maxArrayLength)
    (hnext : clear cache ref now = .ok mutation) :
    Accepted cache.state mutation.change ∧ mutation.activation = .disarmed := by
  obtain ⟨current, hexpect, hnext⟩ := bind_eq_ok_iff.mp hnext
  have hcurrent := expectCurrent_ok hexpect
  obtain ⟨createdAt, updatedAt, -, hupdatedAt, -, hsafe⟩ := h.times current hcurrent
  simp only [nextMutationTime, hupdatedAt, pure_eq_ok, ok_bind, Except.ok.injEq] at hnext
  subst hnext
  have hnextRevision := next_safe h hn hcurrent
  have hmaxSafe : IsSafe ((max now.ms updatedAt : Nat) : Int) := by
    rcases le_total now.ms updatedAt with hlate | hearly
    · rw [max_eq_right hlate]
      exact hsafe
    · rw [max_eq_left hearly]
      exact now_safe now
  refine ⟨⟨⟨(h.current current hcurrent).1.id, hnextRevision.1, hnextRevision.2, hmaxSafe⟩, ?_⟩, rfl⟩
  have hrevision : requireNextRevision current { id := current.id, revision := current.revision + 1 } "clear" = .ok () :=
    requireNextRevision_ok_iff.mpr ⟨rfl, rfl⟩
  simp only [applyGoalChange, hcurrent, hrevision, ok_bind, hupdatedAt, if_neg (not_lt.mpr (le_max_right ..))]
  exact ⟨_, rfl⟩

/-- **Whatever an operation plans is admitted**, and leaves the goal armed only when the operation does. -/
theorem plan_accepted {config : ResolvedConfig} {operation : Operation} {change : GoalCache → Except Thrown Mutation}
    {armed : Bool} (h : FoldInv cache.state n) (hn : n ≤ maxArrayLength)
    (hfresh : ∀ request uuid, operation = .create request uuid → s!"goal-{uuid}" ∉ cache.state.seenGoalIds)
    (harmed : cache.activation = .armed → armed = true) (hplan : plan config operation now = .ok change)
    (hnext : change cache = .ok mutation) :
    Accepted cache.state mutation.change ∧ (mutation.activation = .armed → operation.leaves armed = true) := by
  cases operation with
  | create request uuid =>
    obtain ⟨spec, hspec, rfl⟩ := except_map_ok hplan
    exact ⟨(create_accepted (resolveCreateGoal_ok hspec) (hfresh request uuid rfl) hnext).1, fun _ => rfl⟩
  | edit ref request =>
    cases hplan
    obtain ⟨haccepted, hactivation⟩ := edit_accepted h hn hnext
    exact ⟨haccepted, fun hleft => harmed (hactivation ▸ hleft)⟩
  | pause ref =>
    cases hplan
    obtain ⟨haccepted, hactivation⟩ := pause_accepted h hn hnext
    exact ⟨haccepted, fun hleft => by rw [hactivation] at hleft; cases hleft⟩
  | resume ref =>
    cases hplan
    exact ⟨(resume_accepted h hn hnext).1, fun _ => rfl⟩
  | complete ref =>
    cases hplan
    obtain ⟨haccepted, hactivation⟩ := complete_accepted h hn hnext
    exact ⟨haccepted, fun hleft => by rw [hactivation] at hleft; cases hleft⟩
  | block ref reason =>
    cases hplan
    obtain ⟨haccepted, hactivation⟩ := block_accepted h hn hnext
    exact ⟨haccepted, fun hleft => by rw [hactivation] at hleft; cases hleft⟩
  | clear ref =>
    cases hplan
    obtain ⟨haccepted, hactivation⟩ := clear_accepted h hn hnext
    exact ⟨haccepted, fun hleft => by rw [hactivation] at hleft; cases hleft⟩

end GoalService

end CocoHarness.Goal
