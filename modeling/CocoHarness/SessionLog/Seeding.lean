/-
# CocoHarness.SessionLog.Seeding — restarting a session from its own log.

The live path and the replay path derive the same messages from the same log.  They do not accept the same logs: the
seed boundary also checks the shape of messages and request headers, which a live append leaves to the static types.
-/
import CocoHarness.SessionLog.Atomicity

namespace CocoHarness.SessionLog

open Lib Lib.SafeInteger SessionEvent
open Session (admitSeed)

/-! ## An event reads back from its own object -/

theorem safeInt?_intField_eq (n : Int) : safeInt? (intField n) = if IsSafe n then some n else none := by
  simp [safeInt?, intField, Json.int?, Option.filter_some]

theorem fields_known (e : SessionEvent) : ∀ f ∈ e.fields, envelopeKeys.contains f.1 = true := by
  obtain ⟨type, seq, time, data, sources, op, ignorable⟩ := e
  cases sources <;> cases op <;> cases ignorable <;> simp [SessionEvent.fields, envelopeKeys]

theorem readEnvelope_toJson (e : SessionEvent) :
    readEnvelope e.toJson = if IsSafe e.seq ∧ 0 ≤ e.seq ∧ IsSafe e.time then some e else none := by
  have hobj : e.toJson.obj? = some e.fields := rfl
  have hknown : (e.fields.all fun f => envelopeKeys.contains f.1) = true := List.all_eq_true.mpr (fields_known e)
  have hmark : (if e.ignorable then some (Json.bool true) else none).isSome = e.ignorable := by
    cases e.ignorable <;> rfl
  simp only [readEnvelope, hobj, Option.bind_eq_bind, Option.bind_some, hknown]
  by_cases hseq : IsSafe e.seq <;> by_cases hpos : 0 ≤ e.seq <;> by_cases htime : IsSafe e.time <;>
    simp [Json.str?, safeInt?_intField_eq, hseq, hpos, htime, hmark, Option.filter_some, guard]

/-- The event passes every check the constructor makes of it alone at position `index`. -/
structure Admissible (index : Nat) (e : SessionEvent) : Prop where
  seq : e.seq = index
  safe : IsSafe index
  storable : Storable e
  shape : assertCurrentLlmShape e.type e.data index = .ok ()

variable {e : SessionEvent}

theorem admitSeed_toJson {index : Nat} (he : Admissible index e) :
    admitSeed (.ofJson e.toJson) index = .ok e := by
  have htype : ¬ e.type = "request/header-delta" := by
    intro h
    have := he.storable.supported ""
    simp [assertSupportedRequestHeader, h] at this
  have hread : readEnvelope e.toJson = some e := by
    rw [readEnvelope_toJson, he.seq, if_pos ⟨he.safe, Int.natCast_nonneg _, he.storable.time⟩]
  have henvelope : assertSessionEventEnvelope e.toJson index = .ok e := by
    have hnull : ¬ e.toJson = .null := fun h => by cases h
    rw [assertSessionEventEnvelope, if_neg hnull, if_neg (by simpa using htype), hread]
    simp [he.shape]
  rw [admitSeed, snapshotJsonValue_ofJson (toJson_wf he.storable.wf)]
  simp [henvelope, he.storable.supported, he.seq]

theorem admitSeed_toJson_eq {event : SessionEvent} (he : e.WF) {index : Nat}
    (h : admitSeed (.ofJson e.toJson) index = .ok event) : event = e ∧ Admissible index e := by
  obtain ⟨hseq, hstorable, hshape⟩ := admitSeed_spec h
  rw [admitSeed, snapshotJsonValue_ofJson (toJson_wf he)] at h
  simp only [bind_eq_ok_iff] at h
  obtain ⟨event', henvelope, _, -, h⟩ := h
  split at h
  · simp at h
  simp only [pure_eq_ok, Except.ok.injEq] at h
  subst h
  unfold assertSessionEventEnvelope at henvelope
  split at henvelope
  · simp at henvelope
  split at henvelope
  · simp at henvelope
  rw [readEnvelope_toJson] at henvelope
  split at henvelope
  · simp at henvelope
  · next event'' hread =>
    simp only [bind_eq_ok_iff, pure_eq_ok, Except.ok.injEq] at henvelope
    obtain ⟨_, -, rfl⟩ := henvelope
    split at hread
    · next hsafe =>
      cases hread
      exact ⟨rfl, hseq, by rw [← hseq]; exact hsafe.1, hstorable, hshape⟩
    · simp at hread

def seedOfEvents (events : List SessionEvent) : List JsValue := events.map fun e => .ofJson e.toJson

variable {events : List SessionEvent}

/-- A log passes the seed's checks exactly when every event is admissible at its position. -/
theorem admitSeeds_toJson_iff (hwf : ∀ e ∈ events, e.WF) : ∀ {start : Nat} {events' : List SessionEvent},
      admitSeeds start (seedOfEvents events) = .ok events' ↔
        events' = events ∧ ∀ (i : Nat) e, events[i]? = some e → Admissible (start + i) e := by
  induction events with
  | nil =>
    intro start events'
    simp [admitSeeds, seedOfEvents, eq_comm]
  | cons e events ih =>
    intro start events'
    have hshift : ∀ i : Nat, start + 1 + i = start + (i + 1) := fun i => by omega
    have ih' : ∀ more, admitSeeds (start + 1) (seedOfEvents events) = .ok more ↔
        more = events ∧ ∀ (i : Nat) e, events[i]? = some e → Admissible (start + (i + 1)) e := by
      intro more
      simpa only [hshift] using
        @ih (fun e' he' => hwf e' (by simp [he'])) (start + 1) more
    have hsplit : admitSeeds start (seedOfEvents (e :: events)) = .ok events' ↔
        ∃ event, admitSeed (.ofJson e.toJson) start = .ok event ∧
          ∃ more, admitSeeds (start + 1) (seedOfEvents events) = .ok more ∧ events' = event :: more := by
      simp only [seedOfEvents, List.map_cons, admitSeeds, bind_eq_ok_iff, pure_eq_ok,
        Except.ok.injEq, @eq_comm _ events']
    rw [hsplit]
    constructor
    · rintro ⟨event, hevent, more, hmore, rfl⟩
      obtain ⟨rfl, hadmissible⟩ := admitSeed_toJson_eq (hwf e (by simp)) hevent
      obtain ⟨rfl, hall⟩ := (ih' more).mp hmore
      refine ⟨rfl, fun i e' he' => ?_⟩
      cases i with
      | zero =>
        cases he'
        exact hadmissible
      | succ i => exact hall i e' he'
    · rintro ⟨rfl, hall⟩
      exact ⟨e, admitSeed_toJson (hall 0 e rfl), events,
        (ih' events).mpr ⟨rfl, fun i e' he' => hall (i + 1) e' he'⟩, rfl⟩

/-! ## The marker derives nothing -/

variable {state : SurfaceFoldState} {rs : List SurfaceFoldReplacement}

theorem surfaceAfter_endSeed (h : surfaceAfter events = .ok (state, rs)) (now : EpochMs) :
    surfaceAfter (events ++ [endSeedEvent events.length now]) = .ok (state, rs) := by
  rw [surfaceAfter_snoc, h]
  simp [applySurfaceEvent, planSurfaceEvent_endSeed, applySurfacePlan]

theorem scratchMessages_seededLog (h : surfaceAfter events = .ok (state, rs)) (marked : Bool)
    (now : EpochMs) : scratchMessages (seededLog marked events now) = scratchMessages events := by
  unfold seededLog
  split
  · rw [scratchMessages_eq (surfaceAfter_endSeed h now), scratchMessages_eq h,
      projectNodes_congr fun s hs => eventAt_append (surfaceAfter_below h s hs) _]
  · rfl

/-! ## Restart -/

/-- The events pass the checks that the seed boundary makes and a live append does not. -/
def SeedShaped (events : List SessionEvent) : Prop :=
  ∀ (i : Nat) e, events[i]? = some e → IsSafe i ∧ assertCurrentLlmShape e.type e.data i = .ok ()

theorem surfaceAfter_seq (h : surfaceAfter events = .ok (state, rs)) {i : Nat}
    (he : events[i]? = some e) : e.seq = i := by
  obtain ⟨hlt, hval⟩ := List.getElem?_eq_some_iff.mp he
  have hget := congrArg (·[i]?) (surfaceAfter_seqs h)
  simpa [hlt, hval] using hget

/-- An accepted log seeds a session when its events have the shape the seed boundary checks. -/
theorem create_seedOfEvents_iff (h : surfaceAfter events = .ok (state, rs))
    (hstorable : ∀ e ∈ events, Storable e) (id : String) (now : EpochMs) :
    (∃ s, Session.create id (some (seedOfEvents events)) now = .ok s) ↔ SeedShaped events := by
  have hwf : ∀ e ∈ events, e.WF := fun e he => (hstorable e he).wf
  rw [create_ok_iff, Option.getD_some]
  constructor
  · rintro ⟨events', r, hevents, -⟩ i e he
    have hadmissible := ((admitSeeds_toJson_iff hwf).mp hevents).2 i e he
    rw [Nat.zero_add] at hadmissible
    exact ⟨hadmissible.safe, hadmissible.shape⟩
  · intro hall
    refine ⟨events, (state, rs), (admitSeeds_toJson_iff hwf).mpr ⟨rfl, fun i e he => ?_⟩, h⟩
    rw [Nat.zero_add]
    exact ⟨surfaceAfter_seq h he, (hall i e he).1, hstorable e (List.mem_of_getElem? he), (hall i e he).2⟩

theorem represents_of_seedOfEvents (hstorable : ∀ e ∈ events, Storable e) {id : String} {now : EpochMs}
    {s : Session} (h : Session.create id (some (seedOfEvents events)) now = .ok s) :
    s.Represents { id, log := seededLog true events now, entry := none } := by
  obtain ⟨events', hevents, hrep⟩ := create_represents h
  rw [Option.getD_some] at hevents
  obtain ⟨rfl, -⟩ := (admitSeeds_toJson_iff fun e he => (hstorable e he).wf).mp hevents
  exact hrep

def seedOf (s : Session) : List JsValue := seedOfEvents (eventsOf s.log)

/-- **Live and replay agree.**  `deriveMessages` returns what folding and projecting the whole log does. The log can
seed a new session exactly when its positions are safe integers and its events have the shape the seed boundary
checks; and the session so seeded, marked or not, derives the same messages. -/
theorem deriveMessages_and_reseed {s : Session} (hs : s.Reachable) (id : String) (now : EpochMs) :
    s.deriveMessages.2 = scratchMessages (eventsOf s.log) ∧
    ((∃ s', Session.create id (some (seedOf s)) now = .ok s') ↔ ∀ (i : Nat) e, (eventsOf s.log)[i]? = some e →
        IsSafe i ∧ assertCurrentLlmShape e.type e.data i = .ok ()) ∧
    ∀ s', Session.create id (some (seedOf s)) now = .ok s' → s'.deriveMessages.2 = s.deriveMessages.2 := by
  obtain ⟨a, hrep, hrest⟩ := hs.atRest
  obtain ⟨state, rs, hlog, -⟩ := hrep.cache
  obtain ⟨_, hderive, -⟩ := hrep.deriveMessages
  refine ⟨by rw [hderive, hrep.log], ?_, ?_⟩
  · rw [seedOf, hrep.log]
    exact create_seedOfEvents_iff hlog hrest.storable id now
  · intro s' hs'
    rw [seedOf, hrep.log] at hs'
    obtain ⟨_, hderive', -⟩ := (represents_of_seedOfEvents hrest.storable hs').deriveMessages
    rw [hderive, hderive', scratchMessages_seededLog hlog]

def userMessage (messageId : String) : AppendRequest where
  type := "user/message"
  data := .obj [("id", .str messageId), ("role", .str "user"),
    ("source", .obj [("kind", .str "user")]), ("content", .arr [])]
  opts := { surfaceOp := .str "append" }
  now := ⟨0, isSafe_zero⟩

def messageSession (messageId : String) : Session :=
  (sessionStep { id := "s" } (.append (userMessage messageId) {})).1

theorem messageSession_reachable (messageId : String) : (messageSession messageId).Reachable :=
  .step _ (@Session.Reachable.create "s" none ⟨0, by decide⟩ _ rfl)

/-- An identified message survives the restart. -/
theorem deriveMessages_and_reseed_identified :
    ∃ s', Session.create "r" (some (seedOf (messageSession "m1"))) ⟨0, by decide⟩ = .ok s' ∧
      s'.deriveMessages.2 = (messageSession "m1").deriveMessages.2 := by
  obtain ⟨-, haccepted, hsame⟩ := deriveMessages_and_reseed (messageSession_reachable "m1") "r" ⟨0, by decide⟩
  obtain ⟨s', hs'⟩ := haccepted.mpr fun i e he => by
    cases i with
    | zero =>
      cases he
      exact ⟨by decide, rfl⟩
    | succ i => exact absurd he nofun
  exact ⟨s', hs', hsame s' hs'⟩

/-- **A log that cannot be replayed**: a live append has taken a message with an empty id. -/
theorem malformed_log_rejected : ¬ ∀ s : Session, s.Reachable → ∀ id now, ∃ s',
      Session.create id (some (seedOf s)) now = .ok s' ∧ s'.deriveMessages.2 = s.deriveMessages.2 := by
  intro h
  obtain ⟨s', hs', -⟩ := h (messageSession "") (messageSession_reachable "") "r" ⟨0, by decide⟩
  have hrefused : Session.create "r" (some (seedOf (messageSession ""))) ⟨0, by decide⟩
      = .error (.error "seed user/message at index 0 lacks an identified message") := rfl
  rw [hrefused] at hs'
  cases hs'

end CocoHarness.SessionLog
