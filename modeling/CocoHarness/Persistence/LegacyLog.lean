/-
# CocoHarness.Persistence.LegacyLog — a stored log, upgraded as it is read.

Two entry points upgrade a log: one maps a borrowed list, the other rewrites an owned one in place, and both collect
the identities of the messages on their way.
-/
import CocoHarness.Persistence.LegacyEvents

namespace CocoHarness.Persistence

open Lib SessionLog List

/-! ## The two entry points -/

/-- Reject events from an obsolete v0 vocabulary: the search for a fallback request header. -/
def findFallback : List SessionEvent → Except JsError (Option SessionEvent)
  | [] => .ok none
  | event :: events =>
    if event.type = "request/header" then do
      let reason ← jsGet (some event.data) "reason"
      if reason = some (.str "fallback") then return some event else findFallback events
    else findFallback events

/-- Reject events from an obsolete v0 vocabulary that this build cannot replay. -/
def assertSupportedEvents (events : List SessionEvent) (id : String) : Except JsError Unit :=
  match events.find? (·.type = "request/header-delta") with
  | some legacy =>
    .error (.error s!"session \"{id}\" contains unsupported legacy request/header-delta event at seq {legacy.seq}")
  | none =>
    match events.find? (·.type = "mode/set") with
    | some legacyMode =>
      .error (.error s!"session \"{id}\" contains unsupported legacy mode/set event at seq {legacyMode.seq}")
    | none => do
      match ← findFallback events with
      | some fallback =>
        throw (.error
          s!"session \"{id}\" contains unsupported legacy request/header reason \"fallback\" at seq {fallback.seq}")
      | none => return ()

def MessageIds.record (ids : MessageIds) (event : SessionEvent) : MessageIds :=
  match eventMessageId event with
  | some messageId => (event.seq, messageId) :: ids
  | none => ids

def snapshotLoop (id : String) : MessageIds → List SessionEvent → Except JsError (List SessionEvent)
  | _, [] => .ok []
  | messageIds, event :: events => do
    let migrated ← migrateStoredEvent event id messageIds
    let snapshot ← snapshotSessionEvent migrated
    let snapshots ← snapshotLoop id (messageIds.record snapshot) events
    return snapshot :: snapshots

/-- Materialize stored events as upgraded, validated snapshots with immutable messages. -/
def snapshotStoredEvents (events : List SessionEvent) (id : String) : Except JsError (List SessionEvent) := do
  assertSupportedEvents events id
  snapshotLoop id [] events

def adoptLoop (id : String) : Nat → Nat → MessageIds → List SessionEvent → Except JsError (List SessionEvent)
  | 0, _, _, events => .ok events
  | left + 1, index, messageIds, events =>
    match events[index]? with
    | none => .ok events
    | some event => do
      let migrated ← migrateStoredEvent event id messageIds
      let adopted ← adoptSessionEvent migrated
      adoptLoop id left (index + 1) (messageIds.record adopted) (events.set index adopted)

/-- Upgrade and validate an exclusively owned backend result without copying it. -/
def adoptStoredEvents (events : List SessionEvent) (id : String) : Except JsError (List SessionEvent) := do
  assertSupportedEvents events id
  adoptLoop id events.length 0 [] events

variable {id : String} {event event' : SessionEvent} {messageIds messageIds' : MessageIds}

/-! ## The two entry points agree -/

theorem adoptLoop_eq (rest : List SessionEvent) : ∀ (done : List SessionEvent) (messageIds : MessageIds),
    adoptLoop id rest.length done.length messageIds (done ++ rest)
      = (snapshotLoop id messageIds rest).map (done ++ ·) := by
  induction rest with
  | nil => exact fun _ _ => rfl
  | cons event rest ih =>
    intro done messageIds
    have hget : (done ++ event :: rest)[done.length]? = some event := by simp
    rw [length_cons, adoptLoop, hget, snapshotLoop]
    dsimp only
    cases migrateStoredEvent event id messageIds with
    | error error => rfl
    | ok migrated =>
      rw [ok_bind, ok_bind, show snapshotSessionEvent migrated = adoptSessionEvent migrated from rfl]
      cases adoptSessionEvent migrated with
      | error error => rfl
      | ok adopted =>
        rw [ok_bind, ok_bind]
        have hset : (done ++ event :: rest).set done.length adopted = (done ++ [adopted]) ++ rest := by simp
        have hnext := ih (done ++ [adopted]) (messageIds.record adopted)
        rw [length_append, length_singleton] at hnext
        rw [hset, hnext]
        cases snapshotLoop id (messageIds.record adopted) rest with
        | error error => rfl
        | ok snapshots =>
          show Except.ok (done ++ [adopted] ++ snapshots) = Except.ok (done ++ adopted :: snapshots)
          rw [append_assoc]
          rfl

/-- **Adopting is snapshotting.** -/
theorem adoptStoredEvents_eq (events : List SessionEvent) (id : String) :
    adoptStoredEvents events id = snapshotStoredEvents events id := by
  have hloop := @adoptLoop_eq id events [] []
  rw [nil_append, length_nil] at hloop
  unfold adoptStoredEvents snapshotStoredEvents
  rw [hloop]
  cases snapshotLoop id [] events <;> rfl

/-! ## Whole logs -/

variable {events events' : List SessionEvent}

theorem snapshotLoop_cons (h : snapshotLoop id messageIds (event :: events) = .ok events') :
    ∃ snapshot snapshots, migrateStoredEvent event id messageIds = .ok snapshot ∧
      adoptSessionEvent snapshot = .ok snapshot ∧
      snapshotLoop id (messageIds.record snapshot) events = .ok snapshots ∧ events' = snapshot :: snapshots := by
  obtain ⟨migrated, hmigrated, hread⟩ := bind_eq_ok_iff.mp h
  obtain ⟨snapshot, hsnapshot, hrest⟩ := bind_eq_ok_iff.mp hread
  obtain ⟨snapshots, hsnapshots, hlast⟩ := bind_eq_ok_iff.mp hrest
  obtain rfl := adoptSessionEvent_eq hsnapshot
  exact ⟨_, snapshots, hmigrated, hsnapshot, hsnapshots, (Except.ok.inj hlast).symm⟩

theorem snapshotLoop_of_current (id : String) (h : ∀ event ∈ events, Current event) :
    ∀ messageIds, snapshotLoop id messageIds events = .ok events := by
  induction events with
  | nil => exact fun _ => rfl
  | cons event events ih =>
    intro messageIds
    obtain ⟨hhead, htail⟩ := forall_mem_cons.mp h
    rw [snapshotLoop, hhead.migrate, ok_bind, show snapshotSessionEvent event = .ok event from hhead.message,
      ok_bind, ih htail]
    rfl

/-- What comes out is current, and what was neither current nor upgraded came in as it is. -/
theorem current_of_snapshotLoop : ∀ {events : List SessionEvent} {messageIds : MessageIds}
    {events' : List SessionEvent}, snapshotLoop id messageIds events = .ok events' →
    List.Forall₂ (fun event event' => Current event' ∧ event'.seq = event.seq ∧
      (event' = event ∨ event'.type ∈ upgradedTypes)) events events' := by
  intro events
  induction events with
  | nil =>
    intro messageIds events' h
    cases h
    exact .nil
  | cons event events ih =>
    intro messageIds events' h
    obtain ⟨snapshot, snapshots, hmigrated, hadopted, hsnapshots, rfl⟩ := snapshotLoop_cons h
    obtain ⟨hseq, -, hsame, -⟩ := migrateStoredEvent_cases hmigrated
    exact .cons ⟨current_of_migrated hmigrated hadopted, hseq, hsame⟩ (ih hsnapshots)

structure Supported (event : SessionEvent) : Prop where
  notDelta : event.type ≠ "request/header-delta"
  notMode : event.type ≠ "mode/set"
  notFallback : event.type = "request/header" →
    ∃ reason, jsGet (some event.data) "reason" = .ok reason ∧ reason ≠ some (.str "fallback")

theorem findFallback_eq_none_iff : findFallback events = .ok none ↔ ∀ event ∈ events, event.type = "request/header" →
      ∃ reason, jsGet (some event.data) "reason" = .ok reason ∧ reason ≠ some (.str "fallback") := by
  induction events with
  | nil => exact ⟨fun _ => forall_mem_nil _, fun _ => rfl⟩
  | cons event events ih =>
    rw [findFallback, forall_mem_cons, ← ih]
    split
    · next htype =>
      constructor
      · intro h
        obtain ⟨reason, hreason, h⟩ := bind_eq_ok_iff.mp h
        split at h
        · cases h
        · next hother => exact ⟨fun _ => ⟨reason, hreason, hother⟩, h⟩
      · rintro ⟨hhead, htail⟩
        obtain ⟨reason, hreason, hother⟩ := hhead htype
        rw [hreason, ok_bind, if_neg hother, htail]
    · next htype => exact ⟨fun h => ⟨fun heq => absurd heq htype, h⟩, fun h => h.2⟩

theorem assertSupportedEvents_iff : assertSupportedEvents events id = .ok () ↔ ∀ event ∈ events, Supported event := by
  have hfind : ∀ type : String, events.find? (·.type = type) = none ↔ ∀ event ∈ events, event.type ≠ type := by
    intro type
    rw [find?_eq_none]
    simp
  unfold assertSupportedEvents
  constructor
  · intro h
    split at h
    · cases h
    · next hdelta =>
      split at h
      · cases h
      · next hmode =>
        obtain ⟨found, hfound, h⟩ := bind_eq_ok_iff.mp h
        cases found with
        | some fallback => cases h
        | none =>
          intro event hevent
          exact ⟨(hfind _).mp hdelta event hevent, (hfind _).mp hmode event hevent,
            findFallback_eq_none_iff.mp hfound event hevent⟩
  · intro h
    rw [(hfind _).mpr fun event hevent => (h event hevent).notDelta]
    dsimp only
    rw [(hfind _).mpr fun event hevent => (h event hevent).notMode]
    dsimp only
    rw [findFallback_eq_none_iff.mpr fun event hevent => (h event hevent).notFallback]
    rfl

theorem supported_of_upgraded (h : event.type ∈ upgradedTypes) : Supported event := by
  have hne : ∀ type : String, type ∉ upgradedTypes → event.type ≠ type := fun type hnot heq => hnot (heq ▸ h)
  exact ⟨hne _ (by decide), hne _ (by decide), fun htype => absurd htype (hne _ (by decide))⟩

/-- **Upgrading twice is upgrading once.** -/
theorem snapshotStoredEvents_idem (h : snapshotStoredEvents events id = .ok events') :
    (∀ event ∈ events', Current event) ∧ ∀ id, snapshotStoredEvents events' id = .ok events' := by
  obtain ⟨_, hsupported, hloop⟩ := bind_eq_ok_iff.mp h
  have hall := current_of_snapshotLoop hloop
  have hevents := assertSupportedEvents_iff.mp hsupported
  have hcurrent : ∀ event ∈ events', Current event ∧ Supported event := by
    intro event' hevent'
    obtain ⟨i, hi, rfl⟩ := getElem_of_mem hevent'
    have hlt : i < events.length := hall.length_eq ▸ hi
    obtain ⟨hcurrent, -, hsame⟩ := List.Forall₂.get hall hlt hi
    refine ⟨hcurrent, ?_⟩
    rcases hsame with hsame | hupgraded
    · rw [show events'[i] = events[i] from hsame]
      exact hevents _ (getElem_mem hlt)
    · exact supported_of_upgraded hupgraded
  refine ⟨fun event hevent => (hcurrent event hevent).1, fun id => ?_⟩
  unfold snapshotStoredEvents
  rw [assertSupportedEvents_iff.mpr fun event hevent => (hcurrent event hevent).2, ok_bind]
  exact snapshotLoop_of_current id (fun event hevent => (hcurrent event hevent).1) []

theorem snapshotStoredEvents_of_current (hcurrent : ∀ event ∈ events, Current event)
    (h : snapshotStoredEvents events id = .ok events') : events' = events := by
  obtain ⟨_, -, hloop⟩ := bind_eq_ok_iff.mp h
  rw [snapshotLoop_of_current id hcurrent] at hloop
  exact (Except.ok.inj hloop).symm

/-! ## Parts of a log -/

theorem snapshotLoop_append {xs ys : List SessionEvent} : ∀ {messageIds : MessageIds} {zs : List SessionEvent},
    snapshotLoop id messageIds (xs ++ ys) = .ok zs → ∃ messageIds' xs' ys',
      snapshotLoop id messageIds xs = .ok xs' ∧ snapshotLoop id messageIds' ys = .ok ys' ∧ zs = xs' ++ ys' := by
  induction xs with
  | nil => exact fun {messageIds zs} h => ⟨messageIds, [], zs, rfl, h, rfl⟩
  | cons x xs ih =>
    intro messageIds zs h
    obtain ⟨snapshot, snapshots, hmigrated, hadopted, hsnapshots, rfl⟩ := snapshotLoop_cons h
    obtain ⟨messageIds', xs', ys', hxs, hys, rfl⟩ := ih hsnapshots
    refine ⟨messageIds', snapshot :: xs', ys', ?_, hys, rfl⟩
    rw [snapshotLoop, hmigrated, ok_bind, show snapshotSessionEvent snapshot = .ok snapshot from hadopted, ok_bind,
      hxs]
    rfl

theorem snapshotLoop_of_not_needs (h : ∀ event ∈ events, needsLegacyPrefix event = false) :
    ∀ messageIds messageIds', snapshotLoop id messageIds events = snapshotLoop id messageIds' events := by
  induction events with
  | nil => exact fun _ _ => rfl
  | cons event events ih =>
    intro messageIds messageIds'
    obtain ⟨hhead, htail⟩ := forall_mem_cons.mp h
    rw [snapshotLoop, snapshotLoop, migrateStoredEvent_of_not_needs hhead messageIds messageIds']
    cases migrateStoredEvent event id messageIds' with
    | error error => rfl
    | ok migrated =>
      rw [ok_bind, ok_bind]
      cases snapshotSessionEvent migrated with
      | error error => rfl
      | ok snapshot => rw [ok_bind, ok_bind, ih htail (messageIds.record snapshot) (messageIds'.record snapshot)]

end CocoHarness.Persistence
