/-
# CocoHarness.Goal.History — what a log that the strict fold reads says of each goal.

A goal is one stretch of the log.  Its changes carry the revisions from one on and its rounds the numbers from one on,
each in the order of the log, so that nothing is numbered twice and nothing is left out (`goal_history`).  The light
projection, which reads changes only and checks nothing, is behind the fold by those rounds (`goal_projection`).
-/
import CocoHarness.Goal.Fold

namespace CocoHarness.Goal

open Lib SessionLog List Option GoalChangeMeta

/-- The id and the revision that a change writes. -/
def GoalChangeMeta.entry : GoalChangeMeta → String × Nat
  | clear cleared _ => (cleared.id, cleared.revision)
  | snapshot _ goal .. => (goal.id, goal.revision)

def change? (event : SessionEvent) : Option (String × Nat) :=
  if event.type = "goal/change" then (decodeGoalChange event.data).toOption.join.map (·.entry) else none

/-- The goal and the number of the round that a message starts. -/
def round? (event : SessionEvent) : Option (String × Nat) :=
  if event.type = "user/message" then
    (jsGet (some event.data) "source" >>= goalSource).toOption.join.map fun source => (source.goalId, source.round)
  else none

def numbersOf (id : String) (entries : List (String × Nat)) : List Nat := (entries.filter (·.1 = id)).map (·.2)

/-- The entries of each id are numbered from one on. -/
def Counted (entries : List (String × Nat)) : Prop := ∀ id, ∃ k, numbersOf id entries = range' 1 k

/-- **What an event that the fold reads can do**, with the change and the round it is. -/
inductive Read (state state' : GoalFoldState) : Option (String × Nat) → Option (String × Nat) → Prop
  | create {goal} (hrevision : goal.revision = 1) (hfresh : goal.id ∉ state.seenGoalIds)
      (hgoal : state'.goal = some goal) (hrounds : state'.roundsStarted = 0)
      (hseen : state'.seenGoalIds = goal.id :: state.seenGoalIds) : Read state state' (some (goal.id, 1)) none
  -- or the goal is cleared
  | change {current} (hcurrent : state.goal = some current) (hgoal : ∀ goal, state'.goal = some goal →
      goal.id = current.id ∧ goal.revision = current.revision + 1 ∧ state'.roundsStarted = state.roundsStarted)
      (hseen : state'.seenGoalIds = state.seenGoalIds) :
      Read state state' (some (current.id, current.revision + 1)) none
  | round {current} (hcurrent : state.goal = some current)
      (hstate : state' = { state with roundsStarted := state.roundsStarted + 1 }) :
      Read state state' none (some (current.id, state.roundsStarted + 1))
  | other (hstate : state' = state) : Read state state' none none

variable {state state' : GoalFoldState} {event : SessionEvent}

theorem validateSnapshotTransition_ok {operation : GoalOperation} {goal current : GoalSnapshot}
    {roundsStarted createdAt updatedAt : Nat}
    (h : validateSnapshotTransition state operation goal roundsStarted createdAt updatedAt current = .ok ()) :
    goal.id = current.id ∧ goal.revision = current.revision + 1 ∧ roundsStarted = state.roundsStarted := by
  obtain ⟨⟨⟩, hrevision, h⟩ := bind_eq_ok_iff.mp h
  obtain ⟨hid, hrevision⟩ := requireNextRevision_ok_iff.mp hrevision
  split at h
  · cases h
  · split at h
    · cases h
    · next hkept =>
      simp only [not_or, not_not] at hkept
      exact ⟨hid, hrevision, hkept.2.2⟩

theorem applyGoalChange_read {change : GoalChangeMeta} (h : applyGoalChange state change = .ok state') :
    Read state state' (some change.entry) none := by
  unfold applyGoalChange at h
  split at h
  · split at h
    · cases h
    · next current hcurrent =>
      obtain ⟨⟨⟩, hrevision, h⟩ := bind_eq_ok_iff.mp h
      obtain ⟨hid, hrevision⟩ := requireNextRevision_ok_iff.mp hrevision
      split at h
      · cases h
      · split at h
        · cases h
        · cases h
          rw [entry, hid, hrevision]
          exact .change hcurrent (fun _ hgoal => by cases hgoal) rfl
  · split at h
    · cases h
    · next hfresh =>
      simp only [not_or, not_not] at hfresh
      obtain ⟨hrevision, -, rfl, -, hnew⟩ := hfresh
      cases h
      rw [entry, hrevision]
      exact .create hrevision hnew rfl rfl rfl
  · split at h
    · cases h
    · next current hcurrent =>
      obtain ⟨⟨⟩, hvalid, h⟩ := bind_eq_ok_iff.mp h
      obtain ⟨hid, hrevision, rfl⟩ := validateSnapshotTransition_ok hvalid
      cases h
      rw [entry, hid, hrevision]
      exact .change hcurrent (fun _ hgoal => by cases hgoal; exact ⟨hid, hrevision, rfl⟩) rfl

theorem applyGoalEvent_read (h : applyGoalEvent state event = .ok state') :
    Read state state' (change? event) (round? event) := by
  unfold applyGoalEvent at h
  split at h
  · next hchange =>
    obtain ⟨decoded, hdecoded, h⟩ := bind_eq_ok_iff.mp h
    rw [change?, round?, if_pos hchange, hdecoded, if_neg (by rw [hchange]; decide)]
    cases decoded with
    | none => cases h
    | some change => exact applyGoalChange_read h
  · next hchange =>
    rw [change?, if_neg hchange]
    split at h
    · next hmessage =>
      obtain ⟨source, hsource, h⟩ := bind_eq_ok_iff.mp h
      obtain ⟨decoded, hdecoded, h⟩ := bind_eq_ok_iff.mp h
      rw [round?, if_pos hmessage, hsource, ok_bind, hdecoded]
      cases decoded with
      | none =>
        cases h
        exact .other rfl
      | some round =>
        dsimp only at h
        split at h
        · next hadmits =>
          cases h
          obtain ⟨current, hcurrent, hround⟩ := (any_eq_true _ _).mp hadmits
          obtain ⟨-, hid, -, hnext, -⟩ := of_decide_eq_true hround
          show Read state _ none (some (round.goalId, round.round))
          rw [hid, hnext]
          exact .round hcurrent rfl
        · cases h
    · next hmessage =>
      rw [round?, if_neg hmessage]
      cases h
      exact .other rfl

/-! ## Counting -/

variable {changes rounds entries : List (String × Nat)} {id : String} {n k : Nat}

theorem numbersOf_snoc (id' : String) : numbersOf id' (entries ++ [(id, n)]) =
    if id = id' then numbersOf id' entries ++ [n] else numbersOf id' entries := by
  rw [numbersOf, filter_append, map_append]
  split
  · next h => rw [filter_cons_of_pos (by simpa using h)]; rfl
  · next h => rw [filter_cons_of_neg (by simpa using h)]; exact append_nil _

theorem Counted.snoc (h : Counted entries) (hn : numbersOf id entries = range' 1 n) :
    Counted (entries ++ [(id, n + 1)]) ∧ numbersOf id (entries ++ [(id, n + 1)]) = range' 1 (n + 1) := by
  have hnew : numbersOf id (entries ++ [(id, n + 1)]) = range' 1 (n + 1) := by
    rw [numbersOf_snoc, if_pos rfl, hn, range'_1_concat, Nat.add_comm 1]
  refine ⟨fun id' => ?_, hnew⟩
  by_cases hid : id = id'
  · exact ⟨n + 1, hid ▸ hnew⟩
  · rw [numbersOf_snoc, if_neg hid]
    exact h id'

/-- The changes and rounds of each goal so far, and those of the current goal as the state has them. -/
structure History (changes rounds : List (String × Nat)) (state : GoalFoldState) : Prop where
  counted : Counted changes ∧ Counted rounds
  current : ∀ goal, state.goal = some goal → goal.id ∈ state.seenGoalIds ∧
    numbersOf goal.id changes = range' 1 goal.revision ∧ numbersOf goal.id rounds = range' 1 state.roundsStarted
  unseen : ∀ id, id ∉ state.seenGoalIds → numbersOf id changes = [] ∧ numbersOf id rounds = []

/-- **The step lemma.** -/
theorem History.step (h : History changes rounds state) {change round : Option (String × Nat)}
    (hread : Read state state' change round) :
    History (changes ++ change.toList) (rounds ++ round.toList) state' := by
  cases hread with
  | @create goal hrevision hfresh hgoal hrounds hseen =>
    obtain ⟨hnone, hquiet⟩ := h.unseen goal.id hfresh
    obtain ⟨hcounted, hnew⟩ := h.counted.1.snoc (show numbersOf goal.id changes = range' 1 0 from hnone)
    rw [toList_none, append_nil]
    refine ⟨⟨hcounted, h.counted.2⟩, fun other hother => ?_, fun id hid => ?_⟩
    · obtain rfl := Option.some.inj (hgoal.symm.trans hother)
      rw [hseen, hrevision, hrounds]
      exact ⟨mem_cons_self .., hnew, hquiet⟩
    · rw [hseen, mem_cons, not_or] at hid
      rw [toList_some, numbersOf_snoc, if_neg (Ne.symm hid.1)]
      exact h.unseen id hid.2
  | @change current hcurrent hgoal hseen =>
    obtain ⟨hmem, hlast, hstarted⟩ := h.current current hcurrent
    obtain ⟨hcounted, hnew⟩ := h.counted.1.snoc hlast
    rw [toList_none, append_nil]
    refine ⟨⟨hcounted, h.counted.2⟩, fun goal hother => ?_, fun id hunseen => ?_⟩
    · obtain ⟨hid, hrevision, hrounds⟩ := hgoal goal hother
      rw [hseen, hid, hrevision, hrounds]
      exact ⟨hmem, hnew, hstarted⟩
    · rw [hseen] at hunseen
      rw [toList_some, numbersOf_snoc, if_neg (by rintro rfl; exact hunseen hmem)]
      exact h.unseen id hunseen
  | @round current hcurrent hstate =>
    subst hstate
    obtain ⟨hmem, hlast, hstarted⟩ := h.current current hcurrent
    obtain ⟨hcounted, hnew⟩ := h.counted.2.snoc hstarted
    rw [toList_none, append_nil]
    refine ⟨⟨h.counted.1, hcounted⟩, fun other hother => ?_, fun id hunseen => ?_⟩
    · obtain rfl := Option.some.inj (hcurrent.symm.trans hother)
      exact ⟨hmem, hlast, hnew⟩
    · rw [toList_some, numbersOf_snoc, if_neg (by rintro rfl; exact hunseen hmem)]
      exact h.unseen id hunseen
  | other hstate =>
    subst hstate
    rwa [toList_none, append_nil, append_nil]

/-- **The history of every goal.**  In each log that the strict fold reads, the changes of a goal carry the revisions
1, 2, … and its rounds the numbers 1, 2, …, in order; the current goal is at its last revision and its last round. -/
theorem goal_history {events : List SessionEvent} (h : foldState events = .ok state) :
    History (events.filterMap change?) (events.filterMap round?) state := by
  induction events using List.reverseRecOn generalizing state with
  | nil =>
    cases h
    exact ⟨⟨fun _ => ⟨0, rfl⟩, fun _ => ⟨0, rfl⟩⟩, (fun _ hgoal => by cases hgoal), fun _ _ => ⟨rfl, rfl⟩⟩
  | append_singleton events event ih =>
    rw [foldState_snoc] at h
    obtain ⟨before, hbefore, hnext⟩ := bind_eq_ok_iff.mp h
    have hstep := (ih hbefore).step (applyGoalEvent_read hnext)
    have hone : ∀ f : SessionEvent → Option (String × Nat), [event].filterMap f = (f event).toList := by
      intro f
      cases hf : f event <;> simp [hf]
    rwa [filterMap_append, filterMap_append, hone, hone]

def createdGoal : SessionEvent where
  type := "goal/change"
  seq := 0
  time := 0
  data := (GoalChangeMeta.snapshot .create ⟨⟨"goal-1", 1⟩, "ship", .active, 3, none⟩ 0 0 0).toJson

theorem goal_history_created : ∃ state, foldState [createdGoal] = .ok state ∧
    History ([createdGoal].filterMap change?) ([createdGoal].filterMap round?) state := by
  have hok : (foldState [createdGoal]).isOk = true := by decide +kernel
  cases hfold : foldState [createdGoal] with
  | error e =>
    rw [hfold] at hok
    cases hok
  | ok state => exact ⟨state, rfl, goal_history hfold⟩

/-! ## The light projection -/

/-- The goal as its latest change carried it. -/
structure GoalProjection where
  goal : GoalSnapshot
  roundsStarted : Nat
  createdAt : Nat
  updatedAt : Nat

def applyGoalProjection (state : Option GoalProjection) (event : SessionEvent) : Option GoalProjection :=
  if event.type = "goal/change" then
    match decodeGoalChange event.data with
    | .ok (some (.clear _ _)) => none
    | .ok (some (.snapshot _ goal roundsStarted createdAt updatedAt)) =>
      some { goal, roundsStarted, createdAt, updatedAt }
    | _ => state
  else state

/-- The rounds started since the last change. -/
def roundsSince (events : List SessionEvent) : List (String × Nat) :=
  (events.reverse.takeWhile (·.type ≠ "goal/change")).filterMap round?

/-- The projection has all of the strict fold but the last rounds. -/
structure Lags (projected : Option GoalProjection) (state : GoalFoldState) (rounds : Nat) : Prop where
  goal : projected.map (·.goal) = state.goal
  createdAt : projected.map (·.createdAt) = state.createdAt
  updatedAt : projected.map (·.updatedAt) = state.updatedAt
  started : ∀ value, projected = some value → state.roundsStarted = value.roundsStarted + rounds

variable {projected : Option GoalProjection}

theorem Lags.change {change : GoalChangeMeta} (htype : event.type = "goal/change")
    (hdecoded : decodeGoalChange event.data = .ok (some change)) (h : applyGoalChange state change = .ok state') :
    Lags (applyGoalProjection projected event) state' 0 := by
  rw [applyGoalProjection, if_pos htype, hdecoded]
  unfold applyGoalChange at h
  split at h
  · split at h
    · cases h
    · obtain ⟨-, -, h⟩ := bind_eq_ok_iff.mp h
      split at h
      · cases h
      · split at h
        · cases h
        · cases h
          exact ⟨rfl, rfl, rfl, fun _ hvalue => by cases hvalue⟩
  · split at h
    · cases h
    · cases h
      exact ⟨rfl, rfl, rfl, fun _ hvalue => by cases hvalue; rfl⟩
  · split at h
    · cases h
    · obtain ⟨-, -, h⟩ := bind_eq_ok_iff.mp h
      cases h
      exact ⟨rfl, rfl, rfl, fun _ hvalue => by cases hvalue; rfl⟩

/-- **The projection agrees with the strict fold** on each log that the fold reads: it has the same goal and times, and
its rounds are behind by those that the goal has started since its last change. -/
theorem goal_projection {events : List SessionEvent} (h : foldState events = .ok state) :
    Lags (events.foldl applyGoalProjection none) state (roundsSince events).length := by
  induction events using List.reverseRecOn generalizing state with
  | nil =>
    cases h
    exact ⟨rfl, rfl, rfl, fun _ hvalue => by cases hvalue⟩
  | append_singleton events event ih =>
    rw [foldState_snoc] at h
    obtain ⟨before, hbefore, hnext⟩ := bind_eq_ok_iff.mp h
    rw [foldl_append, foldl_cons, foldl_nil, roundsSince, reverse_append, reverse_singleton, singleton_append]
    by_cases htype : event.type = "goal/change"
    · rw [takeWhile_cons_of_neg (by simpa using htype)]
      unfold applyGoalEvent at hnext
      rw [if_pos htype] at hnext
      obtain ⟨decoded, hdecoded, hnext⟩ := bind_eq_ok_iff.mp hnext
      cases decoded with
      | none => cases hnext
      | some change => exact .change htype hdecoded hnext
    · -- the projection stands still, and the fold may have started one round
      have hread := applyGoalEvent_read hnext
      obtain ⟨hgoal, hcreated, hupdated, hstarted⟩ := ih hbefore
      rw [takeWhile_cons_of_pos (by simpa using htype), filterMap_cons, applyGoalProjection, if_neg htype]
      rw [change?, if_neg htype] at hread
      generalize round? event = started at hread ⊢
      cases hread with
      | round hcurrent hstate =>
        subst hstate
        refine ⟨hgoal, hcreated, hupdated, fun value hvalue => ?_⟩
        show before.roundsStarted + 1 = value.roundsStarted + ((roundsSince events).length + 1)
        rw [hstarted value hvalue, Nat.add_assoc]
      | other hstate =>
        subst hstate
        exact ⟨hgoal, hcreated, hupdated, hstarted⟩

def startedRound : SessionEvent where
  type := "user/message"
  seq := 1
  time := 1
  data := .obj [("source", .obj [("kind", .str "goal"), ("goalId", .str "goal-1"), ("revision", .num (.int 1)),
    ("round", .num (.int 1))])]

theorem goal_projection_behind : ∃ state, foldState [createdGoal, startedRound] = .ok state ∧
    Lags ([createdGoal, startedRound].foldl applyGoalProjection none) state 1 := by
  have hok : (foldState [createdGoal, startedRound]).isOk = true := by decide +kernel
  cases hfold : foldState [createdGoal, startedRound] with
  | error e =>
    rw [hfold] at hok
    cases hok
  | ok state =>
    have hbehind : (roundsSince [createdGoal, startedRound]).length = 1 := by decide +kernel
    exact ⟨state, rfl, hbehind ▸ goal_projection hfold⟩

end CocoHarness.Goal
