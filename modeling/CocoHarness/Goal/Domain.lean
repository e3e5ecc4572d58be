/-
# CocoHarness.Goal.Domain — goal changes and their strict decoder.

A goal is a versioned record of the session log: every change carries the whole snapshot after it, or the tombstone of
the goal it clears.  The decoder takes a change apart field by field and throws at the first one that is not canonical;
a change whose snapshot is well formed comes back as it was written (`decodeGoalChange_toJson`), and nothing else comes
back at all (`decodeGoalChange_wf`).
-/
import CocoHarness.Persistence.Header
import CocoHarness.Schedule.Fold

namespace CocoHarness.Goal

open Lib Lib.SafeInteger SessionLog Option Json SessionEvent
open SessionLog.SessionEvent (intField)
open Persistence (stringOf)
open Schedule (trim trimmed? Trimmed trimmed?_eq_some_iff)

/-! ## Data -/

inductive GoalPhase where
  | active
  | paused
  | blocked
  | complete
  deriving DecidableEq, Repr

structure GoalRef where
  id : String
  revision : Nat
  deriving DecidableEq, Repr

structure GoalBlockReason where
  code : String
  message : String
  deriving DecidableEq, Repr

structure GoalSnapshot extends GoalRef where
  objective : String
  phase : GoalPhase
  maxGoalRounds : Nat
  blockedReason : Option GoalBlockReason := none
  deriving DecidableEq, Repr

inductive GoalOperation where
  | create
  | edit
  | pause
  | resume
  | complete
  | block
  deriving DecidableEq, Repr

inductive GoalChangeMeta where
  | snapshot (operation : GoalOperation) (goal : GoalSnapshot) (roundsStarted createdAt updatedAt : Nat)
  | clear (cleared : GoalRef) (clearedAt : Nat)
  deriving DecidableEq, Repr

def goalChangeVersion : Int := 1

def GoalPhase.text : GoalPhase → String
  | .active => "active"
  | .paused => "paused"
  | .blocked => "blocked"
  | .complete => "complete"

def GoalPhase.ofText? (text : String) : Option GoalPhase :=
  [GoalPhase.active, .paused, .blocked, .complete].find? (·.text = text)

def GoalOperation.text : GoalOperation → String
  | .create => "create"
  | .edit => "edit"
  | .pause => "pause"
  | .resume => "resume"
  | .complete => "complete"
  | .block => "block"

def GoalOperation.ofText? (text : String) : Option GoalOperation :=
  [GoalOperation.create, .edit, .pause, .resume, .complete, .block].find? (·.text = text)

/-! ## As JSON -/

def GoalRef.toJson (ref : GoalRef) : Json := .obj [("id", .str ref.id), ("revision", intField ref.revision)]

def GoalBlockReason.toJson (reason : GoalBlockReason) : Json :=
  .obj [("code", .str reason.code), ("message", .str reason.message)]

def GoalSnapshot.toJson (goal : GoalSnapshot) : Json :=
  .obj ([("id", .str goal.id), ("revision", intField goal.revision), ("objective", .str goal.objective),
      ("phase", .str goal.phase.text), ("maxGoalRounds", intField goal.maxGoalRounds)]
    ++ match goal.blockedReason with
      | some reason => [("blockedReason", reason.toJson)]
      | none => [])

def GoalChangeMeta.toJson : GoalChangeMeta → Json
  | .snapshot operation goal roundsStarted createdAt updatedAt =>
    .obj [("kind", .str "goal/change"), ("version", intField goalChangeVersion), ("operation", .str operation.text),
      ("goal", goal.toJson), ("roundsStarted", intField roundsStarted), ("createdAt", intField createdAt),
      ("updatedAt", intField updatedAt)]
  | .clear cleared clearedAt =>
    .obj [("kind", .str "goal/change"), ("version", intField goalChangeVersion), ("operation", .str "clear"),
      ("cleared", cleared.toJson), ("clearedAt", intField clearedAt)]

/-! ## Decoding -/

def positiveInteger (value : Option Json) (field : String) : Except JsError Nat :=
  match value.bind safeInt? with
  | some n => if n < 1 then throw (.error s!"goal change {field} must be a positive safe integer") else return n.toNat
  | none => throw (.error s!"goal change {field} must be a positive safe integer")

def nonNegativeInteger (value : Option Json) (field : String) : Except JsError Nat :=
  match value.bind safeInt? with
  | some n => if n < 0 then throw (.error s!"goal change {field} must be a non-negative safe integer") else return n.toNat
  | none => throw (.error s!"goal change {field} must be a non-negative safe integer")

def joinedKeys (fields : List (String × Json)) : String := ",".intercalate ((Json.keys fields).insertionSort (· ≤ ·))

def isLower (c : Char) : Bool := 'a' ≤ c ∧ c ≤ 'z'

def isLowerOrDigit (c : Char) : Bool := isLower c || ('0' ≤ c ∧ c ≤ '9')

/-- `[a-z0-9]*(?:-[a-z0-9]+)*$`; after a hyphen one more character is needed. -/
def kebabRest : Bool → List Char → Bool
  | hyphen, [] => !hyphen
  | hyphen, c :: cs => if isLowerOrDigit c then kebabRest false cs else !hyphen && c = '-' && kebabRest true cs

def isKebab (s : String) : Bool :=
  match s.toList with
  | [] => false
  | c :: cs => isLower c && kebabRest false cs

def decodeBlockReason (value : Option Json) : Except JsError GoalBlockReason :=
  match value.bind Json.obj? with
  | none => throw (.error "goal change goal.blockedReason must have exactly code and message fields")
  | some fields =>
    if joinedKeys fields ≠ "code,message" then
      throw (.error "goal change goal.blockedReason must have exactly code and message fields")
    else
      match ((fields.lookup "code").bind Json.str?).filter isKebab with
      | none => throw (.error "goal change goal.blockedReason.code must be lower-kebab-case")
      | some code =>
        match trimmed? (fields.lookup "message") with
        | none => throw (.error "goal change goal.blockedReason.message must be non-empty and normalized")
        | some message => return { code, message }

def expectedKeys : GoalPhase → String
  | .blocked => "blockedReason,id,maxGoalRounds,objective,phase,revision"
  | _ => "id,maxGoalRounds,objective,phase,revision"

def decodePhaseReason (phase : GoalPhase) (value : Option Json) : Except JsError (Option GoalBlockReason) :=
  if phase = .blocked then some <$> decodeBlockReason value else return none

def decodeSnapshot (value : Option Json) : Except JsError GoalSnapshot := do
  let some fields := value.bind Json.obj?
    | throw (.error "goal change goal must be a record")
  let some id := ((fields.lookup "id").bind Json.str?).filter (· ≠ "")
    | throw (.error "goal change goal.id must be a non-empty string")
  let some objective := trimmed? (fields.lookup "objective")
    | throw (.error "goal change goal.objective must be non-empty and normalized")
  let some phase := ((fields.lookup "phase").bind Json.str?).bind GoalPhase.ofText?
    | throw (.error "goal change goal.phase is invalid")
  if joinedKeys fields ≠ expectedKeys phase then
    throw (.error s!"goal change goal for phase {phase.text} must have exactly {expectedKeys phase} fields")
  else
    let revision ← positiveInteger (fields.lookup "revision") "goal.revision"
    let maxGoalRounds ← positiveInteger (fields.lookup "maxGoalRounds") "goal.maxGoalRounds"
    let blockedReason ← decodePhaseReason phase (fields.lookup "blockedReason")
    return { id, revision, objective, phase, maxGoalRounds, blockedReason }

def decodeRef (value : Option Json) : Except JsError GoalRef := do
  let some fields := value.bind Json.obj?
    | throw (.error "goal clear tombstone must have exactly id and revision fields")
  if joinedKeys fields ≠ "id,revision" then
    throw (.error "goal clear tombstone must have exactly id and revision fields")
  else
    let some id := ((fields.lookup "id").bind Json.str?).filter (· ≠ "")
      | throw (.error "goal clear tombstone id must be a non-empty string")
    return { id, revision := ← positiveInteger (fields.lookup "revision") "cleared.revision" }

def clearKeys : String := "cleared,clearedAt,kind,operation,version"

def snapshotKeys : String := "createdAt,goal,kind,operation,roundsStarted,updatedAt,version"

def decodeGoalChange (value : Json) : Except JsError (Option GoalChangeMeta) :=
  match value.obj? with
  | none => return none
  | some fields =>
    if fields.lookup "kind" ≠ some (.str "goal/change") then return none
    else if fields.lookup "version" ≠ some (intField goalChangeVersion) then do
      let version ← stringOf (fields.lookup "version")
      throw (.error s!"unsupported goal change version {version}")
    else if fields.lookup "operation" = some (.str "clear") then
      if joinedKeys fields ≠ clearKeys then
        throw (.error s!"goal clear change must have exactly {clearKeys} fields")
      else do
        let cleared ← decodeRef (fields.lookup "cleared")
        let clearedAt ← nonNegativeInteger (fields.lookup "clearedAt") "clearedAt"
        return some (.clear cleared clearedAt)
    else
      match ((fields.lookup "operation").bind Json.str?).bind GoalOperation.ofText? with
      | none => throw (.error "goal change operation is invalid")
      | some operation =>
        if joinedKeys fields ≠ snapshotKeys then
          throw (.error s!"goal snapshot change must have exactly {snapshotKeys} fields")
        else do
          let createdAt ← nonNegativeInteger (fields.lookup "createdAt") "createdAt"
          let updatedAt ← nonNegativeInteger (fields.lookup "updatedAt") "updatedAt"
          if updatedAt < createdAt then throw (.error "goal change updatedAt cannot precede createdAt")
          else
            let goal ← decodeSnapshot (fields.lookup "goal")
            let roundsStarted ← nonNegativeInteger (fields.lookup "roundsStarted") "roundsStarted"
            return some (.snapshot operation goal roundsStarted createdAt updatedAt)

/-! ## What is well formed -/

structure GoalBlockReason.WF (reason : GoalBlockReason) : Prop where
  code : isKebab reason.code = true
  message : Trimmed reason.message

structure GoalSnapshot.WF (goal : GoalSnapshot) : Prop where
  id : goal.id ≠ ""
  revision : 1 ≤ goal.revision ∧ IsSafe goal.revision
  objective : Trimmed goal.objective
  maxGoalRounds : 1 ≤ goal.maxGoalRounds ∧ IsSafe goal.maxGoalRounds
  blocked : goal.blockedReason.isSome = true ↔ goal.phase = .blocked
  reason : ∀ reason, goal.blockedReason = some reason → reason.WF

def GoalChangeMeta.WF : GoalChangeMeta → Prop
  | .snapshot _ goal roundsStarted createdAt updatedAt =>
    goal.WF ∧ IsSafe roundsStarted ∧ createdAt ≤ updatedAt ∧ IsSafe updatedAt
  | .clear cleared clearedAt => cleared.id ≠ "" ∧ 1 ≤ cleared.revision ∧ IsSafe cleared.revision ∧ IsSafe clearedAt

variable {value : Option Json} {field : String} {n : Nat}

theorem positiveInteger_ok_iff :
    positiveInteger value field = .ok n ↔ value = some (intField n) ∧ 1 ≤ n ∧ IsSafe n := by
  unfold positiveInteger
  cases hvalue : value.bind safeInt? with
  | none =>
    refine ⟨nofun, fun ⟨hn, _, hsafe⟩ => ?_⟩
    rw [hn, bind_some, safeInt?_eq_some_iff.mpr ⟨rfl, hsafe⟩] at hvalue
    cases hvalue
  | some k =>
    obtain ⟨v, rfl, hv⟩ := bind_eq_some_iff.mp hvalue
    obtain ⟨rfl, hsafe⟩ := safeInt?_eq_some_iff.mp hv
    dsimp only
    split
    · next hlt =>
      refine ⟨nofun, fun ⟨hn, hpos, _⟩ => ?_⟩
      have hk : k = (n : Int) := by simpa [intField] using hn
      omega
    · next hge =>
      constructor
      · intro hn
        cases hn
        have hk : ((k.toNat : Nat) : Int) = k := Int.toNat_of_nonneg (by omega)
        rw [hk]
        exact ⟨rfl, by omega, hsafe⟩
      · rintro ⟨hn, -, -⟩
        have : k = (n : Int) := by simpa [intField] using hn
        subst this
        rfl

theorem nonNegativeInteger_ok_iff : nonNegativeInteger value field = .ok n ↔ value = some (intField n) ∧ IsSafe n := by
  unfold nonNegativeInteger
  cases hvalue : value.bind safeInt? with
  | none =>
    refine ⟨nofun, fun ⟨hn, hsafe⟩ => ?_⟩
    rw [hn, bind_some, safeInt?_eq_some_iff.mpr ⟨rfl, hsafe⟩] at hvalue
    cases hvalue
  | some k =>
    obtain ⟨v, rfl, hv⟩ := bind_eq_some_iff.mp hvalue
    obtain ⟨rfl, hsafe⟩ := safeInt?_eq_some_iff.mp hv
    dsimp only
    split
    · next hlt =>
      refine ⟨nofun, fun ⟨hn, _⟩ => ?_⟩
      have hk : k = (n : Int) := by simpa [intField] using hn
      omega
    · next hge =>
      constructor
      · intro hn
        cases hn
        have hk : ((k.toNat : Nat) : Int) = k := Int.toNat_of_nonneg (by omega)
        rw [hk]
        exact ⟨rfl, hsafe⟩
      · rintro ⟨hn, -⟩
        have : k = (n : Int) := by simpa [intField] using hn
        subst this
        rfl

theorem GoalPhase.ofText?_text (phase : GoalPhase) : GoalPhase.ofText? phase.text = some phase := by
  cases phase <;> rfl

theorem GoalOperation.ofText?_text (operation : GoalOperation) :
    GoalOperation.ofText? operation.text = some operation := by
  cases operation <;> rfl

/-! ## Round trip -/

variable {s : String}

theorem trimmed_str (h : Trimmed s) : trimmed? (some (.str s)) = some s := trimmed?_eq_some_iff.mpr ⟨rfl, h⟩

variable {reason : GoalBlockReason}

theorem decodeBlockReason_toJson (h : reason.WF) : decodeBlockReason (some reason.toJson) = .ok reason := by
  have hkeys : joinedKeys [("code", str reason.code), ("message", .str reason.message)] = "code,message" := by
    show ",".intercalate ((["code", "message"] : List String).insertionSort (· ≤ ·)) = _
    decide +kernel
  have hcode : (some reason.code).filter isKebab = some reason.code := by simp [Option.filter, h.code]
  simp only [decodeBlockReason, GoalBlockReason.toJson, bind_some, obj?, hkeys]
  show (match (some reason.code).filter isKebab with
    | none => _
    | some code => match trimmed? (some (.str reason.message)) with | none => _ | some message => _) = _
  rw [hcode, trimmed_str h.message]
  rfl

theorem joinedKeys_snapshot (goal : GoalSnapshot) (h : goal.blockedReason.isSome = true ↔ goal.phase = .blocked) :
    ∃ fields, goal.toJson = .obj fields ∧ joinedKeys fields = expectedKeys goal.phase ∧
      fields.lookup "id" = some (.str goal.id) ∧ fields.lookup "revision" = some (intField goal.revision) ∧
      fields.lookup "objective" = some (.str goal.objective) ∧ fields.lookup "phase" = some (.str goal.phase.text) ∧
      fields.lookup "maxGoalRounds" = some (intField goal.maxGoalRounds) ∧
      fields.lookup "blockedReason" = goal.blockedReason.map GoalBlockReason.toJson := by
  obtain ⟨⟨id, revision⟩, objective, phase, maxGoalRounds, blockedReason⟩ := goal
  cases blockedReason with
  | none =>
    have hkeys : ",".intercalate ((["id", "revision", "objective", "phase", "maxGoalRounds"] : List String).insertionSort (· ≤ ·)) = "id,maxGoalRounds,objective,phase,revision" := by decide +kernel
    refine ⟨_, rfl, hkeys.trans ?_, rfl, rfl, rfl, rfl, rfl, rfl⟩
    cases phase with
    | blocked => exact absurd (h.mpr rfl) nofun
    | active | paused | complete => rfl
  | some reason =>
    have hkeys : ",".intercalate ((["id", "revision", "objective", "phase", "maxGoalRounds", "blockedReason"] :
        List String).insertionSort (· ≤ ·)) = "blockedReason,id,maxGoalRounds,objective,phase,revision" := by
      decide +kernel
    obtain rfl : phase = .blocked := h.mp rfl
    exact ⟨_, rfl, hkeys, rfl, rfl, rfl, rfl, rfl, rfl⟩

theorem filter_ne_empty (h : s ≠ "") : (some s).filter (· ≠ "") = some s := by simp [Option.filter, h]

variable {goal : GoalSnapshot}

theorem decodeSnapshot_toJson (h : goal.WF) : decodeSnapshot (some goal.toJson) = .ok goal := by
  obtain ⟨fields, hjson, hkeys, hid, hrevision, hobjective, hphase, hrounds, hreason⟩ := joinedKeys_snapshot goal h.blocked
  simp only [decodeSnapshot, hjson, bind_some, obj?, hid, str?, filter_ne_empty h.id, hobjective,
    trimmed_str h.objective, hphase, GoalPhase.ofText?_text, hkeys, hrevision, hrounds,
    positiveInteger_ok_iff.mpr ⟨rfl, h.revision⟩, positiveInteger_ok_iff.mpr ⟨rfl, h.maxGoalRounds⟩, ne_eq,
    not_true_eq_false, if_false, ok_bind, pure_eq_ok, decodePhaseReason]
  cases hsome : goal.blockedReason with
  | none =>
    have hphase : goal.phase ≠ .blocked := fun hphase => by
      have := h.blocked.mpr hphase
      rw [hsome] at this
      cases this
    rw [if_neg hphase, ← hsome]
    rfl
  | some reason =>
    have hphase : goal.phase = .blocked := h.blocked.mp (by rw [hsome]; rfl)
    rw [if_pos hphase, hreason, hsome, map_some, decodeBlockReason_toJson (h.reason reason hsome)]
    show Except.ok { goal with blockedReason := some reason } = _
    rw [← hsome]

variable {ref : GoalRef}

theorem decodeRef_toJson (hid : ref.id ≠ "") (hrevision : 1 ≤ ref.revision ∧ IsSafe ref.revision) :
    decodeRef (some ref.toJson) = .ok ref := by
  have hkeys : joinedKeys [("id", str ref.id), ("revision", intField ref.revision)] = "id,revision" := by
    show ",".intercalate ((["id", "revision"] : List String).insertionSort (· ≤ ·)) = _
    decide +kernel
  have hlookup : ([("id", str ref.id), ("revision", intField ref.revision)] : List (String × Json)).lookup "revision"
      = some (intField ref.revision) := rfl
  have hname : ([("id", str ref.id), ("revision", intField ref.revision)] : List (String × Json)).lookup "id"
      = some (.str ref.id) := rfl
  simp only [decodeRef, GoalRef.toJson, bind_some, obj?, hkeys, hname, hlookup, str?, filter_ne_empty hid,
    positiveInteger_ok_iff.mpr ⟨rfl, hrevision⟩]
  rfl

variable {fields : List (String × Json)}

theorem decodeGoalChange_clear {cleared : GoalRef} {clearedAt : Nat}
    (hkind : fields.lookup "kind" = some (.str "goal/change"))
    (hversion : fields.lookup "version" = some (intField goalChangeVersion))
    (hoperation : fields.lookup "operation" = some (.str "clear")) (hkeys : joinedKeys fields = clearKeys)
    (hcleared : decodeRef (fields.lookup "cleared") = .ok cleared)
    (hclearedAt : nonNegativeInteger (fields.lookup "clearedAt") "clearedAt" = .ok clearedAt) :
    decodeGoalChange (.obj fields) = .ok (some (.clear cleared clearedAt)) := by
  simp only [decodeGoalChange, obj?, hkind, hversion, hoperation, hkeys, hcleared, hclearedAt, ne_eq,
    not_true_eq_false, if_false, if_true, ok_bind, pure_eq_ok]

theorem decodeGoalChange_snapshot {operation : GoalOperation}
    {roundsStarted createdAt updatedAt : Nat} (hkind : fields.lookup "kind" = some (.str "goal/change"))
    (hversion : fields.lookup "version" = some (intField goalChangeVersion))
    (hoperation : fields.lookup "operation" = some (.str operation.text))
    (hkeys : joinedKeys fields = snapshotKeys)
    (hcreatedAt : nonNegativeInteger (fields.lookup "createdAt") "createdAt" = .ok createdAt)
    (hupdatedAt : nonNegativeInteger (fields.lookup "updatedAt") "updatedAt" = .ok updatedAt)
    (hle : createdAt ≤ updatedAt) (hgoal : decodeSnapshot (fields.lookup "goal") = .ok goal)
    (hrounds : nonNegativeInteger (fields.lookup "roundsStarted") "roundsStarted" = .ok roundsStarted) :
    decodeGoalChange (.obj fields) = .ok (some (.snapshot operation goal roundsStarted createdAt updatedAt)) := by
  have hclear : some (str operation.text) ≠ some (.str "clear") := by cases operation <;> decide
  simp only [decodeGoalChange, obj?, hkind, hversion, hoperation, hclear, hkeys, hcreatedAt, hupdatedAt, hgoal,
    hrounds, bind_some, str?, GoalOperation.ofText?_text, ne_eq, not_true_eq_false, if_false, ok_bind,
    pure_eq_ok, if_neg (Nat.not_lt.mpr hle)]

variable {change : GoalChangeMeta}

/-- **What is well formed comes back as it was written.** -/
theorem decodeGoalChange_toJson (h : change.WF) : decodeGoalChange change.toJson = .ok (some change) := by
  cases change with
  | clear cleared clearedAt =>
    obtain ⟨hid, hpos, hsafe, hclearedAt⟩ := h
    have hkeys : ",".intercalate ((["kind", "version", "operation", "cleared", "clearedAt"] : List String).insertionSort
        (· ≤ ·)) = clearKeys := by decide +kernel
    apply decodeGoalChange_clear
    · rfl
    · rfl
    · rfl
    · exact hkeys
    · exact decodeRef_toJson hid ⟨hpos, hsafe⟩
    · exact nonNegativeInteger_ok_iff.mpr ⟨rfl, hclearedAt⟩
  | snapshot operation goal roundsStarted createdAt updatedAt =>
    obtain ⟨hgoal, hrounds, hle, hupdatedAt⟩ := h
    have hkeys : ",".intercalate ((["kind", "version", "operation", "goal", "roundsStarted", "createdAt", "updatedAt"] :
        List String).insertionSort (· ≤ ·)) = snapshotKeys := by decide +kernel
    apply decodeGoalChange_snapshot
    · rfl
    · rfl
    · rfl
    · exact hkeys
    · exact nonNegativeInteger_ok_iff.mpr ⟨rfl, isSafe_ofNat_of_le hupdatedAt hle⟩
    · exact nonNegativeInteger_ok_iff.mpr ⟨rfl, hupdatedAt⟩
    · exact hle
    · exact decodeSnapshot_toJson hgoal
    · exact nonNegativeInteger_ok_iff.mpr ⟨rfl, hrounds⟩

/-! ## What decodes -/

theorem decodeBlockReason_wf (h : decodeBlockReason value = .ok reason) : reason.WF := by
  unfold decodeBlockReason at h
  split at h
  · cases h
  · split at h
    · cases h
    · split at h
      · cases h
      · next code hcode =>
        split at h
        · cases h
        · next message hmessage =>
          cases h
          exact ⟨(filter_eq_some_iff.mp hcode).2, (trimmed?_eq_some_iff.mp hmessage).2⟩

theorem decodeSnapshot_wf (h : decodeSnapshot value = .ok goal) : goal.WF := by
  unfold decodeSnapshot at h
  split at h
  · next fields _ =>
    split at h
    · next id hid =>
      split at h
      · next objective hobjective =>
        split at h
        · next phase hphase =>
          split at h
          · cases h
          · obtain ⟨revision, hrevision, h⟩ := bind_eq_ok_iff.mp h
            obtain ⟨maxGoalRounds, hrounds, h⟩ := bind_eq_ok_iff.mp h
            have hid := of_decide_eq_true (filter_eq_some_iff.mp hid).2
            have hrevision := (positiveInteger_ok_iff.mp hrevision).2
            have hrounds := (positiveInteger_ok_iff.mp hrounds).2
            have hobjective := (trimmed?_eq_some_iff.mp hobjective).2
            obtain ⟨blockedReason, hreason, h⟩ := bind_eq_ok_iff.mp h
            cases h
            unfold decodePhaseReason at hreason
            split at hreason
            · next hblocked =>
              obtain ⟨reason, hdecoded, rfl⟩ := except_map_ok hreason
              exact ⟨hid, hrevision, hobjective, hrounds, ⟨fun _ => hblocked, fun _ => rfl⟩, fun other hother =>
                Option.some.inj hother ▸ decodeBlockReason_wf hdecoded⟩
            · next hblocked =>
              cases hreason
              exact ⟨hid, hrevision, hobjective, hrounds, ⟨nofun, fun hphase => absurd hphase hblocked⟩, nofun⟩
        · cases h
      · cases h
    · cases h
  · cases h

theorem decodeRef_wf (h : decodeRef value = .ok ref) : ref.id ≠ "" ∧ 1 ≤ ref.revision ∧ IsSafe ref.revision := by
  unfold decodeRef at h
  split at h
  · split at h
    · cases h
    · split at h
      · next id hid =>
        obtain ⟨revision, hrevision, h⟩ := bind_eq_ok_iff.mp h
        cases h
        exact ⟨of_decide_eq_true (filter_eq_some_iff.mp hid).2, (positiveInteger_ok_iff.mp hrevision).2⟩
      · cases h
  · cases h

/-- **Nothing else comes back.** -/
theorem decodeGoalChange_wf {value : Json} (h : decodeGoalChange value = .ok (some change)) : change.WF := by
  unfold decodeGoalChange at h
  split at h
  · cases h
  · split at h
    · cases h
    · split at h
      · obtain ⟨_, _, h⟩ := bind_eq_ok_iff.mp h
        cases h
      · split at h
        · split at h
          · cases h
          · obtain ⟨cleared, hcleared, h⟩ := bind_eq_ok_iff.mp h
            obtain ⟨clearedAt, hclearedAt, h⟩ := bind_eq_ok_iff.mp h
            cases Except.ok.inj h
            obtain ⟨hid, hpos, hsafe⟩ := decodeRef_wf hcleared
            exact ⟨hid, hpos, hsafe, (nonNegativeInteger_ok_iff.mp hclearedAt).2⟩
        · split at h
          · cases h
          · split at h
            · cases h
            · obtain ⟨createdAt, hcreatedAt, h⟩ := bind_eq_ok_iff.mp h
              obtain ⟨updatedAt, hupdatedAt, h⟩ := bind_eq_ok_iff.mp h
              split at h
              · cases h
              · next hle =>
                obtain ⟨goal, hgoal, h⟩ := bind_eq_ok_iff.mp h
                obtain ⟨roundsStarted, hrounds, h⟩ := bind_eq_ok_iff.mp h
                cases Except.ok.inj h
                exact ⟨decodeSnapshot_wf hgoal, (nonNegativeInteger_ok_iff.mp hrounds).2, Nat.not_lt.mp hle,
                  (nonNegativeInteger_ok_iff.mp hupdatedAt).2⟩

end CocoHarness.Goal
