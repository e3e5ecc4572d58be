/-
# CocoHarness.Goal.Fold — the strict replay fold.

The fold admits a change only as the next one of the goal it has: the next revision of the same id, the counters and
the creation time as they are, an update no earlier than the last, and a phase the operation may lead to; and a round
only as the next one of the active goal's revision.  Whatever it has admitted is well formed (`FoldInv`), so that
what a next change must carry can be read off the state.
-/
import CocoHarness.Goal.Domain

namespace CocoHarness.Goal

open Lib Lib.SafeInteger SessionLog

/-! ## State -/

structure GoalFoldState where
  goal : Option GoalSnapshot := none
  roundsStarted : Nat := 0
  createdAt : Option Nat := none
  updatedAt : Option Nat := none
  lastRef : Option GoalRef := none
  seenGoalIds : List String := []
  deriving DecidableEq, Repr

def emptyGoalFoldState : GoalFoldState := {}

structure FoldedGoal where
  goal : Option GoalSnapshot
  roundsStarted : Nat
  createdAt : Option Nat
  updatedAt : Option Nat
  lastRef : Option GoalRef
  deriving DecidableEq, Repr

variable (state : GoalFoldState)

def GoalFoldState.folded : FoldedGoal :=
  { goal := state.goal, roundsStarted := state.roundsStarted, createdAt := state.createdAt, updatedAt := state.updatedAt
    lastRef := state.lastRef }

/-! ## Changes -/

def requireSameDefinition (current next : GoalSnapshot) (operation : String) : Except JsError Unit :=
  if next.objective ≠ current.objective ∨ next.maxGoalRounds ≠ current.maxGoalRounds then
    throw (.error s!"goal {operation} cannot change objective or maxGoalRounds")
  else return ()

def requireNextRevision (current : GoalSnapshot) (next : GoalRef) (operation : String) : Except JsError Unit :=
  if next.id ≠ current.id ∨ next.revision ≠ current.revision + 1 then
    throw (.error s!"goal {operation} must advance the current goal by one revision")
  else return ()

def validatePhase (operation : GoalOperation) (next current : GoalSnapshot) : Except JsError Unit :=
  match operation with
  | .edit =>
    if next.phase ≠ current.phase ∨ next.blockedReason ≠ current.blockedReason then
      throw (.error "goal edit cannot change phase or blocked reason")
    else return ()
  | .pause => do
    requireSameDefinition current next operation.text
    if current.phase ≠ .active ∨ next.phase ≠ .paused then throw (.error "goal pause has an invalid phase transition")
    else return ()
  | .resume => do
    requireSameDefinition current next operation.text
    if current.phase = .complete ∨ next.phase ≠ .active ∨ state.roundsStarted ≥ next.maxGoalRounds then
      throw (.error "goal resume has an invalid phase transition or exhausted round budget")
    else return ()
  | .complete => do
    requireSameDefinition current next operation.text
    if current.phase = .complete ∨ next.phase ≠ .complete then
      throw (.error "goal complete has an invalid phase transition")
    else return ()
  | .block => do
    requireSameDefinition current next operation.text
    if current.phase ≠ .active ∨ next.phase ≠ .blocked then throw (.error "goal block has an invalid phase transition")
    else return ()
  | .create => throw (.error "goal create cannot be validated as a current-goal transition")

def validateSnapshotTransition (operation : GoalOperation) (next : GoalSnapshot)
    (roundsStarted createdAt updatedAt : Nat) (current : GoalSnapshot) : Except JsError Unit := do
  requireNextRevision current next.toGoalRef operation.text
  match state.updatedAt with
  | none => throw (.error "current goal fold lacks updatedAt")
  | some lastUpdatedAt =>
    if some createdAt ≠ state.createdAt ∨ updatedAt < lastUpdatedAt ∨ roundsStarted ≠ state.roundsStarted then
      throw (.error s!"goal {operation.text} does not preserve the current counters and timestamps")
    else validatePhase state operation next current

def GoalFoldState.write (goal : GoalSnapshot) (roundsStarted createdAt updatedAt : Nat) : GoalFoldState :=
  { state with
    goal := some goal, roundsStarted, createdAt := some createdAt, updatedAt := some updatedAt
    lastRef := some goal.toGoalRef }

def applyGoalChange (change : GoalChangeMeta) : Except JsError GoalFoldState :=
  match change with
  | .clear cleared clearedAt =>
    match state.goal with
    | none => throw (.error "goal clear requires a current goal")
    | some current => do
      requireNextRevision current cleared "clear"
      match state.updatedAt with
      | none => throw (.error "current goal fold lacks updatedAt")
      | some updatedAt =>
        if clearedAt < updatedAt then throw (.error "goal clear timestamp cannot precede the current goal update")
        else
          return { goal := none, roundsStarted := 0, createdAt := none, updatedAt := none, lastRef := some cleared
                   seenGoalIds := state.seenGoalIds }
  | .snapshot .create goal roundsStarted createdAt updatedAt =>
    if goal.revision ≠ 1 ∨ goal.phase ≠ .active ∨ roundsStarted ≠ 0
        ∨ state.goal.any (·.phase ≠ .complete) ∨ goal.id ∈ state.seenGoalIds then
      throw (.error "goal create requires a fresh active revision-one goal with zero rounds")
    else
      return { state with seenGoalIds := goal.id :: state.seenGoalIds }.write goal roundsStarted createdAt updatedAt
  | .snapshot operation goal roundsStarted createdAt updatedAt =>
    match state.goal with
    | none => throw (.error s!"goal {operation.text} requires a current goal")
    | some current => do
      validateSnapshotTransition state operation goal roundsStarted createdAt updatedAt current
      return state.write goal roundsStarted createdAt updatedAt

/-! ## Events -/

structure GoalMessageSource where
  goalId : String
  revision : Nat
  round : Nat
  deriving DecidableEq, Repr

def goalSource (source : Option Json) : Except JsError (Option GoalMessageSource) := do
  if (← jsGet source "kind") ≠ some (.str "goal") then return none
  else
    let goalId := ((← jsGet source "goalId").bind Json.str?).filter (· ≠ "")
    let revision := ((← jsGet source "revision").bind safeInt?).filter (1 ≤ ·)
    let round := ((← jsGet source "round").bind safeInt?).filter (1 ≤ ·)
    match goalId, revision, round with
    | some goalId, some revision, some round => return some { goalId, revision := revision.toNat, round := round.toNat }
    | _, _, _ => throw (.error "goal message source is invalid")

def admitsRound (source : GoalMessageSource) : Bool :=
  state.goal.any fun current =>
    current.phase = .active ∧ source.goalId = current.id ∧ source.revision = current.revision
      ∧ source.round = state.roundsStarted + 1 ∧ source.round ≤ current.maxGoalRounds

def applyGoalEvent (event : SessionEvent) : Except JsError GoalFoldState :=
  if event.type = "goal/change" then do
    match ← decodeGoalChange event.data with
    | none => throw (.error s!"goal change at session event {event.seq} has an invalid kind")
    | some change => applyGoalChange state change
  else if event.type = "user/message" then do
    match ← goalSource (← jsGet (some event.data) "source") with
    | none => return state
    | some source =>
      if admitsRound state source then return { state with roundsStarted := source.round }
      else
        throw (.error s!"goal round at session event {event.seq} is not the next admitted round of the active goal")
  else return state

variable (events : List SessionEvent)

def foldState : Except JsError GoalFoldState := events.foldlM applyGoalEvent emptyGoalFoldState

def foldGoal : Except JsError FoldedGoal := GoalFoldState.folded <$> foldState events

theorem foldState_append (events more : List SessionEvent) :
    foldState (events ++ more) = foldState events >>= fun state => more.foldlM applyGoalEvent state := by
  rw [foldState, List.foldlM_append, foldState]

theorem foldState_snoc (event : SessionEvent) :
    foldState (events ++ [event]) = foldState events >>= fun state => applyGoalEvent state event := by
  rw [foldState_append]
  cases foldState events with
  | error e => rfl
  | ok state =>
    show [event].foldlM applyGoalEvent state = applyGoalEvent state event
    rw [List.foldlM_cons]
    cases applyGoalEvent state event with
    | error e | ok next => rfl

/-! ## What has been admitted -/

structure FoldInv (state : GoalFoldState) (n : Nat) : Prop where
  current : ∀ goal, state.goal = some goal → goal.WF ∧ goal.revision ≤ n
  times : ∀ goal, state.goal = some goal → ∃ createdAt updatedAt, state.createdAt = some createdAt ∧
    state.updatedAt = some updatedAt ∧ createdAt ≤ updatedAt ∧ IsSafe updatedAt
  rounds : IsSafe state.roundsStarted

theorem foldInv_empty : FoldInv emptyGoalFoldState 0 := ⟨nofun, nofun, Nat.zero_le _⟩

variable {state : GoalFoldState} {n : Nat}

theorem FoldInv.write {goal : GoalSnapshot}
    {roundsStarted createdAt updatedAt : Nat} (hgoal : goal.WF) (hrevision : goal.revision ≤ n)
    (hrounds : IsSafe roundsStarted) (hle : createdAt ≤ updatedAt) (hsafe : IsSafe updatedAt) :
    FoldInv (state.write goal roundsStarted createdAt updatedAt) n := by
  refine ⟨fun other hother => ?_, fun other _ => ⟨createdAt, updatedAt, rfl, rfl, hle, hsafe⟩, hrounds⟩
  cases hother
  exact ⟨hgoal, hrevision⟩

theorem requireNextRevision_ok_iff {current : GoalSnapshot} {next : GoalRef} {operation : String} :
    requireNextRevision current next operation = .ok () ↔ next.id = current.id ∧ next.revision = current.revision + 1 := by
  unfold requireNextRevision
  split
  · next hne =>
    refine ⟨nofun, fun ⟨hid, hrevision⟩ => ?_⟩
    rcases hne with hne | hne
    · exact absurd hid hne
    · exact absurd hrevision hne
  · next heq =>
    simp only [not_or, not_not] at heq
    exact ⟨fun _ => heq, fun _ => rfl⟩

variable {state' : GoalFoldState}

theorem applyGoalChange_inv {change : GoalChangeMeta} (h : FoldInv state n)
    (hwf : change.WF) (hnext : applyGoalChange state change = .ok state') : FoldInv state' (n + 1) := by
  unfold applyGoalChange at hnext
  split at hnext
  · split at hnext
    · cases hnext
    · obtain ⟨-, -, hnext⟩ := bind_eq_ok_iff.mp hnext
      split at hnext
      · cases hnext
      · split at hnext
        · cases hnext
        · cases hnext
          exact ⟨nofun, nofun, Nat.zero_le _⟩
  · obtain ⟨hgoal, hrounds, hle, hsafe⟩ := hwf
    split at hnext
    · cases hnext
    · next hfresh =>
      simp only [not_or, not_not] at hfresh
      cases hnext
      exact .write hgoal (by omega) hrounds hle hsafe
  · obtain ⟨hgoal, hrounds, hle, hsafe⟩ := hwf
    split at hnext
    · cases hnext
    · next current hcurrent =>
      obtain ⟨⟨⟩, hvalid, hnext⟩ := bind_eq_ok_iff.mp hnext
      cases hnext
      obtain ⟨⟨⟩, hrevision, -⟩ := bind_eq_ok_iff.mp hvalid
      have hlast := (h.current current hcurrent).2
      have hnextRevision := (requireNextRevision_ok_iff.mp hrevision).2
      exact .write hgoal (by omega) hrounds hle hsafe

/-- **One event** of a log. -/
theorem applyGoalEvent_inv {event : SessionEvent} (h : FoldInv state n)
    (hnext : applyGoalEvent state event = .ok state') : FoldInv state' (n + 1) := by
  have hlater : FoldInv state (n + 1) :=
    { h with current := fun goal hgoal => ⟨(h.current goal hgoal).1, Nat.le_succ_of_le (h.current goal hgoal).2⟩ }
  unfold applyGoalEvent at hnext
  split at hnext
  · obtain ⟨decoded, hdecoded, hnext⟩ := bind_eq_ok_iff.mp hnext
    split at hnext
    · cases hnext
    · exact applyGoalChange_inv h (decodeGoalChange_wf hdecoded) hnext
  · split at hnext
    · obtain ⟨source, hsource, hnext⟩ := bind_eq_ok_iff.mp hnext
      obtain ⟨decoded, hdecoded, hnext⟩ := bind_eq_ok_iff.mp hnext
      split at hnext
      · cases hnext
        exact hlater
      · next round =>
        split at hnext
        · next hadmits =>
          cases hnext
          obtain ⟨current, hcurrent, hround⟩ := (Option.any_eq_true _ _).mp hadmits
          obtain ⟨-, -, -, -, hcap⟩ := of_decide_eq_true hround
          -- a round is capped by a safe integer
          exact { hlater with rounds := isSafe_ofNat_of_le (h.current current hcurrent).1.maxGoalRounds.2 hcap }
        · cases hnext
    · cases hnext
      exact hlater

theorem foldState_inv {events : List SessionEvent} (h : foldState events = .ok state) :
    FoldInv state events.length := by
  induction events using List.reverseRecOn generalizing state with
  | nil =>
    cases h
    exact foldInv_empty
  | append_singleton events event ih =>
    rw [foldState_snoc] at h
    obtain ⟨before, hbefore, hnext⟩ := bind_eq_ok_iff.mp h
    rw [List.length_append]
    exact applyGoalEvent_inv (ih hbefore) hnext

end CocoHarness.Goal
