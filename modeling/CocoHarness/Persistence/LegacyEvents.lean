/-
# CocoHarness.Persistence.LegacyEvents — stored events of older formats, upgraded one by one.

A stored event passes four upgrades in a row, and each leaves alone what it does not recognise.  What comes out and
is a valid message is in the current format (`Current`), an event in the current format passes unchanged, and an
event that needs no prefix is upgraded the same way behind any.
-/
import CocoHarness.SessionLog.Admission

namespace CocoHarness.Persistence

open Lib SessionLog List Or
open Lib.JsonText (setField)

/-! ## Records -/

def asRecord (value : Option Json) : Option (List (String × Json)) := value.bind Json.obj?

variable (record : List (String × Json))

def hasOwn (key : String) : Bool := (record.lookup key).isSome

/-- Whether a record contains every required key and no key outside the optional extension set. -/
def hasOnlyKeys (required : List String) (optional : List String := []) : Bool :=
  (Json.keys record).all (required ++ optional).contains && required.all (hasOwn record)

def safeIntAt (key : String) : Option Int := (record.lookup key).bind safeInt?

def textAt (key : String) : Option String := (record.lookup key).bind Json.str?

/-- A record without some of its keys: what a rest pattern leaves. -/
def without (keys : List String) : List (String × Json) :=
  record.filter fun field => !keys.contains field.1

/-! ## Message identities -/

/-- The stable import identity for a message persisted before identities existed. -/
def legacyMessageId (id : String) (seq : Int) : String := s!"legacy-message:{id}:{seq}"

/-- The identities of the messages read so far, the last one first. -/
abbrev MessageIds := List (Int × String)

def MessageIds.get (ids : MessageIds) : Number → Option String
  | .int seq => ids.lookup seq
  | .frac _ _ _ => none

variable (event : SessionEvent)

def replacementStart : Option Number :=
  match asRecord event.surfaceOp with
  | some op => if op.lookup "op" = some (.str "replace") then (op.lookup "start").bind Json.num? else none
  | none => none

/-- Whether one suffix event needs facts available only from the preceding stored prefix. -/
def needsLegacyPrefix : Bool :=
  if event.type = "steering/message" then true
  else
    match asRecord (some event.data) with
    | none => false
    | some data =>
      if event.type = "user/message" then !hasOwn data "id" && hasOwn data "content"
      else if event.type = "assistant/message" then !hasOwn data "message" && hasOwn data "content"
      else if event.type = "tool/result" then !hasOwn data "message" && hasOwn data "callId"
      else false

/-! ## The upgrades -/

def malformedLegacy (id type : String) (seq : Int) : JsError :=
  .error s!"session \"{id}\" contains malformed pre-react-loop {type} at seq {seq}"

/-- Upgrade the removed steering surface event into its current user-message equivalent. -/
def migrateLegacySteeringEvent (id : String) : Except JsError SessionEvent :=
  if event.type ≠ "steering/message" then .ok event
  else
    match asRecord (some event.data) with
    | none => .error (malformedLegacy id "steering/message" event.seq)
    | some data =>
      let hasTurn := (safeIntAt data "turn").isSome
      match asRecord (data.lookup "message"), hasTurn && hasOnlyKeys data ["turn", "message"] with
      | some wrapped, true => .ok { event with type := "user/message", data := .obj wrapped }
      | _, _ =>
        if !hasTurn || !hasOnlyKeys data ["turn", "content", "source"] then
          .error (malformedLegacy id "steering/message" event.seq)
        else
          let message := setField (without data ["turn"]) "id" (.str (legacyMessageId id event.seq))
          .ok { event with type := "user/message", data := .obj (setField message "role" (.str "user")) }

/-- Remove the obsolete trigger after verifying the complete old turn-start envelope. -/
def migrateLegacyTurnStartEvent (id : String) : Except JsError SessionEvent :=
  if event.type ≠ "turn/start" then .ok event
  else
    match asRecord (some event.data) with
    | none => .ok event
    | some data =>
      if !hasOwn data "trigger" then .ok event
      else
        let trigger := asRecord (data.lookup "trigger")
        match (safeIntAt data "turn").filter (1 ≤ ·),
          hasOnlyKeys data ["turn", "trigger"] && (trigger.bind fun t => nonEmptyStr? (t.lookup "kind")).isSome with
        | some turn, true => .ok { event with data := .obj [("turn", SessionEvent.intField turn)] }
        | _, _ => .error (malformedLegacy id "turn/start" event.seq)

/-- A structured failure of the latest format before the current one. -/
def isLegacyFailure (failure : List (String × Json)) : Bool :=
  hasOnlyKeys failure ["message", "code"] ["status", "providerRetryAfterMs", "requestId"]
    && (textAt failure "message").isSome && (textAt failure "code").isSome
    && (failure.lookup "status").all (·.num?.isSome)
    && (failure.lookup "providerRetryAfterMs").all (·.num?.isSome)
    && (failure.lookup "requestId").all (·.str?.isSome)

variable (reason : List (String × Json))

/-- The keys of an error reason that carries its message itself. -/
def messageKeys : List String :=
  if (reason.lookup "code").isNone then ["kind", "step", "message"] else ["kind", "step", "message", "code"]

/-- The current reason for an error reason without an `error`; `none` when it is malformed. -/
def legacyErrorReason : Option Json :=
  if ((safeIntAt reason "step").filter (0 ≤ ·)).isNone then none
  else
    match (asRecord (reason.lookup "failure")).filter fun failure =>
        hasOnlyKeys reason ["kind", "step", "failure"] && isLegacyFailure failure with
    | some failure => some (.obj [("kind", .str "error"), ("error", .obj failure)])
    | none =>
      match textAt reason "message" with
      | some message =>
        if hasOnlyKeys reason (messageKeys reason) && (reason.lookup "code").all (·.str?.isSome) then
          let code := (textAt reason "code").getD "UNKNOWN"
          some (.obj [("kind", .str "error"), ("error", .obj [("message", .str message), ("code", .str code)])])
        else none
      | none => none

inductive ReasonUpgrade where
  | current
  | malformed
  | replaced (reason : Json)

def upgradeReason (kind : String) : ReasonUpgrade :=
  if kind ∈ ["completed", "blocked", "max-tokens", "interrupted"] then
    if !hasOnlyKeys reason ["kind"] then .malformed else .current
  else if kind = "aborted" then
    if hasOwn reason "reason" then .current
    else if !hasOnlyKeys reason ["kind"] then .malformed
    else .replaced (.obj [("kind", .str "aborted"), ("reason", .obj [("kind", .str "legacy")])])
  else if kind = "disposed" then
    if !hasOnlyKeys reason ["kind"] then .malformed
    else .replaced (.obj [("kind", .str "aborted"), ("reason", .obj [("kind", .str "disposed")])])
  else if kind = "error" then
    if hasOwn reason "error" then .current
    else
      match legacyErrorReason reason with
      | some currentReason => .replaced currentReason
      | none => .malformed
  else .current

/-- Upgrade an obsolete turn ending while preserving the latest-master envelope. -/
def migrateLegacyTurnEndEvent (id : String) : Except JsError SessionEvent :=
  if event.type ≠ "turn/end" then .ok event
  else
    match asRecord (some event.data) with
    | none => .ok event
    | some data =>
      let malformed := malformedLegacy id "turn/end" event.seq
      if ((safeIntAt data "turn").filter (1 ≤ ·)).isNone || !hasOnlyKeys data ["turn", "reason"] then
        .error malformed
      else
        match asRecord (data.lookup "reason") with
        | none => .error malformed
        | some reason =>
          match textAt reason "kind" with
          | none => .error malformed
          | some kind =>
            match upgradeReason reason kind with
            | .current => .ok event
            | .malformed => .error malformed
            | .replaced currentReason => .ok { event with data := .obj (setField data "reason" currentReason) }

variable (data : List (String × Json))

def identifiedUserMessage (messageId : String) : List (String × Json) :=
  setField (setField data "id" (.str messageId)) "role" (.str "user")

/-- The data of an assistant message with its parts wrapped as a message. -/
def wrappedAssistantMessage (content provenance : Json) (messageId : String) : List (String × Json) :=
  setField (without data ["content", "provenance"]) "message" (.obj
    [("id", .str messageId), ("role", .str "assistant"), ("content", content),
      ("source", .obj (setField ((asRecord (some provenance)).getD []) "kind" (.str "model")))])

/-- The data with its parts wrapped as a message; an `undefined` identity reads as absent. -/
def wrappedToolResult (callId content isError : Json) (messageId : Option String) : List (String × Json) :=
  let block : Json := .obj [("type", .str "tool-result"), ("toolCallId", callId), ("content", content),
    ("isError", isError)]
  setField (without data ["callId", "content", "isError"]) "message" (.obj
    ((messageId.map fun messageId => ("id", Json.str messageId)).toList ++
      [("role", .str "user"), ("content", .arr [block]),
        ("source", .obj [("kind", .str "tool"), ("callId", callId)])]))

/-- The identity of a tool result's message: a replacement keeps the one of its target. -/
def toolMessageId (id : String) (messageIds : MessageIds) : Option String :=
  match replacementStart event with
  | none => some (legacyMessageId id event.seq)
  | some inheritedId => messageIds.get inheritedId

/-- Upgrade one pre-identity message event into the current wrapper shape. -/
def migrateLegacyMessageEvent (id : String) (messageIds : MessageIds) : SessionEvent :=
  match asRecord (some event.data) with
  | none => event
  | some data =>
    if event.type = "user/message" then
      if hasOwn data "id" || hasOwn data "role" || hasOwn data "message" || !hasOwn data "content"
          || !hasOwn data "source" then event
      else { event with data := .obj (identifiedUserMessage data (legacyMessageId id event.seq)) }
    else if event.type = "assistant/message" then
      if hasOwn data "message" then event
      else
        match data.lookup "content", data.lookup "provenance" with
        | some content, some provenance =>
          let messageId := legacyMessageId id event.seq
          { event with data := .obj (wrappedAssistantMessage data content provenance messageId) }
        | _, _ => event
    else if event.type = "tool/result" then
      if hasOwn data "message" then event
      else
        match data.lookup "callId", data.lookup "content", data.lookup "isError" with
        | some callId, some content, some isError =>
          let messageId := toolMessageId event id messageIds
          { event with data := .obj (wrappedToolResult data callId content isError messageId) }
        | _, _, _ => event
    else event

/-! ## One event -/

/-- Read the identified message carried by one validated current event. -/
def eventMessageId : Option String :=
  let data := asRecord (some event.data)
  let message := if event.type = "user/message" then data else asRecord (data.bind (·.lookup "message"))
  message.bind (textAt · "id")

def adoptSessionEvent : Except JsError SessionEvent := do
  assertMessageEventShape event.type event.data s!"session event at seq {event.seq}"
  return event

def snapshotSessionEvent : Except JsError SessionEvent := adoptSessionEvent event

/-- The four upgrades, in the order both entry points apply them. -/
def migrateStoredEvent (id : String) (messageIds : MessageIds) : Except JsError SessionEvent := do
  let migratedStart ← migrateLegacyTurnStartEvent event id
  let migratedTurn ← migrateLegacyTurnEndEvent migratedStart id
  let migratedSteering ← migrateLegacySteeringEvent migratedTurn id
  return migrateLegacyMessageEvent migratedSteering id messageIds

/-! ## The current format -/

variable {id : String}

structure CurrentReason (reason : List (String × Json)) (kind : String) : Prop where
  plain : kind ∈ ["completed", "blocked", "max-tokens", "interrupted"] → hasOnlyKeys reason ["kind"] = true
  aborted : kind = "aborted" → hasOwn reason "reason" = true
  error : kind = "error" → hasOwn reason "error" = true
  notDisposed : kind ≠ "disposed"

structure CurrentTurnEnd (data : List (String × Json)) (reason : List (String × Json)) (kind : String) : Prop where
  turn : ((safeIntAt data "turn").filter (1 ≤ ·)).isSome = true
  keys : hasOnlyKeys data ["turn", "reason"] = true
  hasReason : asRecord (data.lookup "reason") = some reason
  hasKind : textAt reason "kind" = some kind
  current : CurrentReason reason kind

/-- **The current format**: an identified message, no steering event, no trigger, a current reason. -/
structure Current (event : SessionEvent) : Prop where
  message : adoptSessionEvent event = .ok event
  notSteering : event.type ≠ "steering/message"
  turnStart : event.type = "turn/start" → ∀ data, event.data = .obj data → hasOwn data "trigger" = false
  turnEnd : event.type = "turn/end" → ∀ data, event.data = .obj data → ∃ reason kind, CurrentTurnEnd data reason kind

variable {reason : List (String × Json)} {kind : String}

theorem upgradeReason_eq_current_iff : upgradeReason reason kind = .current ↔ CurrentReason reason kind := by
  unfold upgradeReason
  constructor
  · intro h
    split at h
    · next hplain =>
      split at h
      · cases h
      · next hkeys =>
        refine ⟨fun _ => by simpa using hkeys, ?_, ?_, ?_⟩
        all_goals
          rintro rfl
          simp at hplain
    · next hplain =>
      split at h
      · next haborted =>
        subst haborted
        split at h
        · next hreason => exact ⟨fun h => absurd h hplain, fun _ => hreason, nofun, by decide⟩
        · split at h <;> cases h
      · next haborted =>
        split at h
        · split at h <;> cases h
        · next hdisposed =>
          split at h
          · next herror =>
            subst herror
            split at h
            · next hown => exact ⟨fun h => absurd h hplain, nofun, fun _ => hown, hdisposed⟩
            · split at h <;> cases h
          · next herror =>
            exact ⟨fun h => absurd h hplain, fun h => absurd h haborted, fun h => absurd h herror, hdisposed⟩
  · intro h
    split
    · next hplain => rw [h.plain hplain]; rfl
    · split
      · next haborted => rw [if_pos (h.aborted haborted)]
      · rw [if_neg h.notDisposed]
        split
        · next herror => rw [if_pos (h.error herror)]
        · rfl

/-! ## What each upgrade does -/

variable {event event' : SessionEvent} {data : List (String × Json)}

theorem asRecord_eq_some_iff {value : Json} : asRecord (some value) = some data ↔ value = .obj data := by
  cases value <;> simp [asRecord, Json.obj?]

theorem migrateLegacyTurnStartEvent_cases (h : migrateLegacyTurnStartEvent event id = .ok event') : (event' = event ∧
      (event.type = "turn/start" → ∀ data, event.data = .obj data → hasOwn data "trigger" = false)) ∨
    (event.type = "turn/start" ∧ ∃ turn, event' = { event with data := .obj [("turn", SessionEvent.intField turn)] }) := by
  unfold migrateLegacyTurnStartEvent at h
  split at h
  · next htype =>
    cases h
    exact inl ⟨rfl, fun heq => absurd heq htype⟩
  · next htype =>
    split at h
    · next hnone =>
      cases h
      refine inl ⟨rfl, fun _ data hdata => ?_⟩
      rw [asRecord_eq_some_iff.mpr hdata] at hnone
      cases hnone
    · next data hdata =>
      split at h
      · next htrigger =>
        cases h
        refine inl ⟨rfl, fun _ data' hdata' => ?_⟩
        cases hdata.symm.trans (asRecord_eq_some_iff.mpr hdata')
        simpa using htrigger
      · dsimp only at h
        split at h
        · next turn _ _ =>
          cases h
          exact inr ⟨not_not.mp htype, turn, rfl⟩
        · cases h

theorem hasOnlyKeys_setField {required optional : List String} {key : String}
    (value : Json) (h : hasOnlyKeys data required optional = true) (hkey : key ∈ required) :
    hasOnlyKeys (setField data key value) required optional = true := by
  unfold hasOnlyKeys at h ⊢
  rw [Bool.and_eq_true, all_eq_true, all_eq_true] at h ⊢
  obtain ⟨hallowed, hrequired⟩ := h
  constructor
  · intro name hname
    have hold : name = key ∨ name ∈ Json.keys data := by
      unfold setField at hname
      split at hname
      · obtain ⟨field, hfield, rfl⟩ := mem_map.mp hname
        obtain ⟨old, hold, rfl⟩ := mem_map.mp hfield
        split
        · exact inl rfl
        · exact inr (mem_map_of_mem hold)
      · rw [Json.keys, map_append, mem_append] at hname
        rcases hname with hname | hname
        · exact inr hname
        · exact inl (mem_singleton.mp hname)
    rcases hold with rfl | hold
    · exact contains_iff_mem.mpr (mem_append_left _ hkey)
    · exact hallowed name hold
  · intro name hname
    unfold hasOwn
    rw [JsonText.lookup_setField]
    split
    · rfl
    · exact hrequired name hname

theorem upgradeReason_replaced {currentReason : Json} (h : upgradeReason reason kind = .replaced currentReason) :
    ∃ fields kind', currentReason = .obj fields ∧ textAt fields "kind" = some kind' ∧ CurrentReason fields kind' := by
  have haborted : ∀ cause : Json, ∃ fields kind', Json.obj [("kind", .str "aborted"), ("reason", cause)] = .obj fields ∧
      textAt fields "kind" = some kind' ∧ CurrentReason fields kind' := by
    intro cause
    refine ⟨_, "aborted", rfl, rfl, ⟨fun h => ?_, fun _ => rfl, fun h => ?_, by decide⟩⟩
    · exact absurd h (by decide)
    · exact absurd h (by decide)
  have herror : ∀ error : Json, ∃ fields kind', Json.obj [("kind", .str "error"), ("error", error)] = .obj fields ∧
      textAt fields "kind" = some kind' ∧ CurrentReason fields kind' := by
    intro error
    refine ⟨_, "error", rfl, rfl, ⟨fun h => ?_, fun h => ?_, fun _ => rfl, by decide⟩⟩
    · exact absurd h (by decide)
    · exact absurd h (by decide)
  unfold upgradeReason at h
  split at h
  · split at h <;> cases h
  · split at h
    · split at h
      · cases h
      · split at h
        · cases h
        · obtain rfl := ReasonUpgrade.replaced.inj h
          exact haborted _
    · split at h
      · split at h
        · cases h
        · obtain rfl := ReasonUpgrade.replaced.inj h
          exact haborted _
      · split at h
        · split at h
          · cases h
          · split at h
            · next hreason =>
              obtain rfl := ReasonUpgrade.replaced.inj h
              unfold legacyErrorReason at hreason
              split at hreason
              · cases hreason
              · split at hreason
                · cases hreason
                  exact herror _
                · split at hreason
                  · split at hreason
                    · cases hreason
                      exact herror _
                    · cases hreason
                  · cases hreason
            · cases h
        · cases h

theorem migrateLegacyTurnEndEvent_cases (h : migrateLegacyTurnEndEvent event id = .ok event') :
    (event' = event ∧ (event.type = "turn/end" → ∀ data, event.data = .obj data →
      ∃ reason kind, CurrentTurnEnd data reason kind)) ∨
    (event.type = "turn/end" ∧ ∃ data reason kind, event' = { event with data := .obj data } ∧
      CurrentTurnEnd data reason kind) := by
  unfold migrateLegacyTurnEndEvent at h
  split at h
  · next htype =>
    cases h
    exact inl ⟨rfl, fun heq => absurd heq htype⟩
  · next htype =>
    split at h
    · next hnone =>
      cases h
      refine inl ⟨rfl, fun _ data hdata => ?_⟩
      rw [asRecord_eq_some_iff.mpr hdata] at hnone
      cases hnone
    · next data hdata =>
      dsimp only at h
      split at h
      · cases h
      · next hshape =>
        rw [Bool.or_eq_true, not_or, Bool.not_eq_true, Bool.not_eq_true', Bool.not_eq_false] at hshape
        have hturn : ((safeIntAt data "turn").filter (1 ≤ ·)).isSome = true := by
          rw [← Option.not_isNone, hshape.1]
          rfl
        split at h
        · cases h
        · next reason hreason =>
          split at h
          · cases h
          · next kind hkind =>
            split at h
            · next hcurrent =>
              cases h
              refine inl ⟨rfl, fun _ data' hdata' => ?_⟩
              cases hdata.symm.trans (asRecord_eq_some_iff.mpr hdata')
              exact ⟨reason, kind, hturn, hshape.2, hreason, hkind, upgradeReason_eq_current_iff.mp hcurrent⟩
            · cases h
            · next currentReason hreplaced =>
              cases h
              obtain ⟨fields, kind', rfl, hkind', hcurrent⟩ := upgradeReason_replaced hreplaced
              refine inr ⟨not_not.mp htype, _, fields, kind', rfl, ?_, ?_, ?_, hkind', hcurrent⟩
              · unfold safeIntAt
                rw [JsonText.lookup_setField, if_neg (by decide)]
                exact hturn
              · exact hasOnlyKeys_setField _ hshape.2 (by decide)
              · rw [JsonText.lookup_setField, if_pos rfl]
                rfl

theorem migrateLegacySteeringEvent_cases (h : migrateLegacySteeringEvent event id = .ok event') :
    (event' = event ∧ event.type ≠ "steering/message") ∨
    (event.type = "steering/message" ∧ ∃ data, event' = { event with type := "user/message", data := data }) := by
  unfold migrateLegacySteeringEvent at h
  split at h
  · next htype =>
    cases h
    exact inl ⟨rfl, htype⟩
  · next htype =>
    split at h
    · cases h
    · dsimp only at h
      split at h
      · cases h
        exact inr ⟨not_not.mp htype, _, rfl⟩
      · split at h
        · cases h
        · cases h
          exact inr ⟨not_not.mp htype, _, rfl⟩

def messageTypes : List String := ["user/message", "assistant/message", "tool/result"]

theorem migrateLegacyMessageEvent_cases (event : SessionEvent) (id : String) (messageIds : MessageIds) :
    migrateLegacyMessageEvent event id messageIds = event ∨ event.type ∈ messageTypes ∧
      ∃ data, migrateLegacyMessageEvent event id messageIds = { event with data := data } := by
  unfold migrateLegacyMessageEvent
  split
  · exact inl rfl
  · split
    · next htype =>
      split
      · exact inl rfl
      · exact inr ⟨by rw [htype]; decide, _, rfl⟩
    · split
      · next htype =>
        split
        · exact inl rfl
        · split
          · exact inr ⟨by rw [htype]; decide, _, rfl⟩
          · exact inl rfl
      · split
        · next htype =>
          split
          · exact inl rfl
          · split
            · exact inr ⟨by rw [htype]; decide, _, rfl⟩
            · exact inl rfl
        · exact inl rfl

/-! ## One event through all of them -/

variable {messageIds messageIds' : MessageIds}

def upgradedTypes : List String := "turn/start" :: "turn/end" :: messageTypes

theorem migrateStoredEvent_cases (h : migrateStoredEvent event id messageIds = .ok event') :
    event'.seq = event.seq ∧ event'.type ≠ "steering/message" ∧ (event' = event ∨ event'.type ∈ upgradedTypes) ∧
      (event'.type = "turn/start" → ∀ data, event'.data = .obj data → hasOwn data "trigger" = false) ∧
      (event'.type = "turn/end" → ∀ data, event'.data = .obj data →
        ∃ reason kind, CurrentTurnEnd data reason kind) := by
  obtain ⟨started, hstarted, h⟩ := bind_eq_ok_iff.mp h
  obtain ⟨ended, hended, h⟩ := bind_eq_ok_iff.mp h
  obtain ⟨steered, hsteered, h⟩ := bind_eq_ok_iff.mp h
  cases h
  -- the last upgrade leaves alone what is no message
  have hlast : ∀ type ∉ messageTypes, (migrateLegacyMessageEvent steered id messageIds).type = type →
      migrateLegacyMessageEvent steered id messageIds = steered := by
    intro type hnot htype
    rcases migrateLegacyMessageEvent_cases steered id messageIds with hsame | ⟨hmem, data, hdata⟩
    · exact hsame
    · rw [hdata] at htype
      exact absurd (htype ▸ hmem) hnot
  have htype : (migrateLegacyMessageEvent steered id messageIds).type = steered.type ∧
      (migrateLegacyMessageEvent steered id messageIds).seq = steered.seq := by
    rcases migrateLegacyMessageEvent_cases steered id messageIds with hsame | ⟨-, data, hdata⟩
    · rw [hsame]
      exact ⟨rfl, rfl⟩
    · rw [hdata]
      exact ⟨rfl, rfl⟩
  have hmessage : migrateLegacyMessageEvent steered id messageIds = steered ∨
      (migrateLegacyMessageEvent steered id messageIds).type ∈ upgradedTypes := by
    rcases migrateLegacyMessageEvent_cases steered id messageIds with hsame | ⟨hmem, -, -⟩
    · exact inl hsame
    · rw [htype.1]
      exact inr (mem_cons_of_mem _ (mem_cons_of_mem _ hmem))
  rw [htype.2, htype.1]
  rcases migrateLegacySteeringEvent_cases hsteered with ⟨rfl, hnot⟩ | ⟨hsteering, data, rfl⟩
  · -- no steering event: the turn upgrades decide
    refine ⟨?_, hnot, ?_, ?_, ?_⟩
    · rcases migrateLegacyTurnEndEvent_cases hended with ⟨rfl, -⟩ | ⟨-, _, _, _, rfl, -⟩
      all_goals rcases migrateLegacyTurnStartEvent_cases hstarted with ⟨rfl, -⟩ | ⟨-, _, rfl⟩ <;> rfl
    · rcases hmessage with hsame | hmem
      · rw [hsame]
        rcases migrateLegacyTurnEndEvent_cases hended with ⟨rfl, -⟩ | ⟨hend, _, _, _, rfl, -⟩
        · rcases migrateLegacyTurnStartEvent_cases hstarted with ⟨rfl, -⟩ | ⟨hstart, _, rfl⟩
          · exact inl rfl
          · exact inr (by rw [show _ = "turn/start" from hstart]; decide)
        · exact inr (by rw [show _ = "turn/end" from hend]; decide)
      · rw [htype.1] at hmem
        exact inr hmem
    · intro hstart data hdata
      rw [hlast "turn/start" (by decide) (htype.1.trans hstart)] at hdata
      rcases migrateLegacyTurnEndEvent_cases hended with ⟨rfl, -⟩ | ⟨hend, _, _, _, rfl, -⟩
      · rcases migrateLegacyTurnStartEvent_cases hstarted with ⟨rfl, hcurrent⟩ | ⟨-, turn, rfl⟩
        · exact hcurrent hstart data hdata
        · cases hdata
          rfl
      · rw [show _ = "turn/end" from hend] at hstart
        exact absurd hstart (by decide)
    · intro hend data hdata
      rw [hlast "turn/end" (by decide) (htype.1.trans hend)] at hdata
      rcases migrateLegacyTurnEndEvent_cases hended with ⟨rfl, hcurrent⟩ | ⟨-, _, reason, kind, rfl, hcurrent⟩
      · exact hcurrent hend data hdata
      · cases hdata
        exact ⟨reason, kind, hcurrent⟩
  · -- a steering event becomes a user message
    refine ⟨?_, show "user/message" ≠ "steering/message" by decide,
      inr (show "user/message" ∈ upgradedTypes by decide),
      fun h => absurd (show "user/message" = "turn/start" from h) (by decide),
      fun h => absurd (show "user/message" = "turn/end" from h) (by decide)⟩
    rcases migrateLegacyTurnEndEvent_cases hended with ⟨rfl, -⟩ | ⟨-, _, _, _, rfl, -⟩
    all_goals rcases migrateLegacyTurnStartEvent_cases hstarted with ⟨rfl, -⟩ | ⟨-, _, rfl⟩ <;> rfl

theorem current_of_migrated (h : migrateStoredEvent event id messageIds = .ok event')
    (hadopted : adoptSessionEvent event' = .ok event') : Current event' := by
  obtain ⟨-, hsteering, -, hstart, hend⟩ := migrateStoredEvent_cases h
  exact ⟨hadopted, hsteering, hstart, hend⟩

theorem adoptSessionEvent_eq (h : adoptSessionEvent event = .ok event') : event' = event := by
  obtain ⟨-, -, h⟩ := bind_eq_ok_iff.mp h
  exact (Except.ok.inj h).symm

theorem Current.identified (h : Current event) (htype : event.type ∈ messageTypes) :
    (nonEmptyStr? (field? (messageOf event.type event.data) "id")).isSome = true := by
  obtain ⟨_, hshape, -⟩ := bind_eq_ok_iff.mp h.message
  unfold assertMessageEventShape at hshape
  rw [if_neg] at hshape
  · dsimp only at hshape
    exact (require_bind_eq_ok_iff.mp hshape).1
  · rintro ⟨huser, hassistant, htool⟩
    simp only [messageTypes, mem_cons, not_mem_nil, or_false] at htype
    rcases htype with htype | htype | htype
    · exact huser htype
    · exact hassistant htype
    · exact htool htype

theorem Current.migrate (h : Current event) (id : String) (messageIds : MessageIds) :
    migrateStoredEvent event id messageIds = .ok event := by
  have hstart : migrateLegacyTurnStartEvent event id = .ok event := by
    unfold migrateLegacyTurnStartEvent
    split
    · rfl
    · next htype =>
      split
      · rfl
      · next data hdata =>
        rw [h.turnStart (not_not.mp htype) data (asRecord_eq_some_iff.mp hdata)]
        rfl
  have hend : migrateLegacyTurnEndEvent event id = .ok event := by
    unfold migrateLegacyTurnEndEvent
    split
    · rfl
    · next htype =>
      split
      · rfl
      · next data hdata =>
        obtain ⟨reason, kind, hcurrent⟩ := h.turnEnd (not_not.mp htype) data (asRecord_eq_some_iff.mp hdata)
        dsimp only
        rw [if_neg, hcurrent.hasReason]
        · dsimp only
          rw [hcurrent.hasKind]
          dsimp only
          rw [upgradeReason_eq_current_iff.mpr hcurrent.current]
        · rw [← Option.not_isSome, hcurrent.turn, hcurrent.keys]
          decide
  have hsteering : migrateLegacySteeringEvent event id = .ok event := by
    unfold migrateLegacySteeringEvent
    rw [if_pos h.notSteering]
  have hmessage : migrateLegacyMessageEvent event id messageIds = event := by
    -- the identity of the message is there already
    have hown : ∀ {data : List (String × Json)} {key : String}, event.data = .obj data → event.type ∈ messageTypes →
        messageOf event.type event.data = some event.data ∧ key = "id" ∨
          messageOf event.type event.data = field? (some event.data) "message" ∧ key = "message" →
        hasOwn data key = true := by
      intro data key hdata htype hwhere
      have hidentified := h.identified htype
      unfold hasOwn
      rcases hwhere with ⟨hmessage, rfl⟩ | ⟨hmessage, rfl⟩
      · rw [hmessage, hdata] at hidentified
        cases hlookup : data.lookup "id" with
        | some _ => rfl
        | none =>
          rw [show field? (some (Json.obj data)) "id" = data.lookup "id" from rfl, hlookup] at hidentified
          cases hidentified
      · rw [hmessage, hdata] at hidentified
        cases hlookup : data.lookup "message" with
        | some _ => rfl
        | none =>
          rw [show field? (some (Json.obj data)) "message" = data.lookup "message" from rfl, hlookup]
            at hidentified
          cases hidentified
    unfold migrateLegacyMessageEvent
    split
    · rfl
    · next data hdata =>
      have hobj := asRecord_eq_some_iff.mp hdata
      split
      · next htype =>
        have hid : hasOwn data "id" = true := by
          apply hown hobj (by rw [htype]; decide)
          exact inl ⟨by rw [messageOf, if_pos htype], rfl⟩
        rw [hid]
        rfl
      · next huser =>
        have hwrapped : event.type ∈ messageTypes → hasOwn data "message" = true := by
          intro htype
          apply hown hobj htype
          exact inr ⟨by rw [messageOf, if_neg huser], rfl⟩
        split
        · next htype => rw [if_pos (hwrapped (by rw [htype]; decide))]
        · split
          · next htype => rw [if_pos (hwrapped (by rw [htype]; decide))]
          · rfl
  unfold migrateStoredEvent
  rw [hstart, ok_bind, hend, ok_bind, hsteering, ok_bind, hmessage]
  rfl

theorem migrateStoredEvent_of_not_needs (h : needsLegacyPrefix event = false) (messageIds messageIds' : MessageIds) :
    migrateStoredEvent event id messageIds = migrateStoredEvent event id messageIds' := by
  have hmessage : ∀ steered : SessionEvent, (steered.type = "tool/result" → steered = event) →
      migrateLegacyMessageEvent steered id messageIds = migrateLegacyMessageEvent steered id messageIds' := by
    intro steered hsame
    unfold migrateLegacyMessageEvent
    split
    · rfl
    · next data hdata =>
      split
      · rfl
      · split
        · rfl
        · split
          · next htype =>
            obtain rfl := hsame htype
            split
            · rfl
            · next hmessage =>
              split
              · next callId _ _ hcallId _ _ =>
                -- a wrapped tool result is what the prefix is asked for
                have hown : hasOwn data "callId" = true := by
                  unfold hasOwn
                  rw [hcallId]
                  rfl
                unfold needsLegacyPrefix at h
                rw [hdata, htype, if_neg (by decide)] at h
                dsimp only at h
                rw [if_neg (by decide), if_neg (by decide), if_pos rfl, eq_false_of_ne_true hmessage, hown] at h
                cases h
              · rfl
          · rfl
  unfold migrateStoredEvent
  cases hstarted : migrateLegacyTurnStartEvent event id with
  | error error => rfl
  | ok started =>
    rw [ok_bind, ok_bind]
    cases hended : migrateLegacyTurnEndEvent started id with
    | error error => rfl
    | ok ended =>
      rw [ok_bind, ok_bind]
      cases hsteered : migrateLegacySteeringEvent ended id with
      | error error => rfl
      | ok steered =>
        rw [ok_bind, ok_bind, hmessage]
        intro htype
        rcases migrateLegacySteeringEvent_cases hsteered with ⟨rfl, -⟩ | ⟨-, _, rfl⟩
        · rcases migrateLegacyTurnEndEvent_cases hended with ⟨rfl, -⟩ | ⟨hend, _, _, _, rfl, -⟩
          · rcases migrateLegacyTurnStartEvent_cases hstarted with ⟨rfl, -⟩ | ⟨hstart, _, rfl⟩
            · rfl
            · rw [show _ = "turn/start" from hstart] at htype
              exact absurd htype (by decide)
          · rw [show _ = "turn/end" from hend] at htype
            exact absurd htype (by decide)
        · exact absurd (show "user/message" = "tool/result" from htype) (by decide)

end CocoHarness.Persistence
