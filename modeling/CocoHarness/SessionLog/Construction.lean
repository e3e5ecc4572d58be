/-
# CocoHarness.SessionLog.Construction — what the constructor accepts.

A seed is accepted exactly when each of its events passes the checks made of it alone (`admitSeeds`)
and the surface fold accepts the whole (`create_ok_iff`); the session then stands for the seed, closed
by the end-of-seed marker (`create_represents`).  From there every session keeps only events that can
be stored and read back (`Storable`).
-/
import CocoHarness.SessionLog.LiveRefinement

namespace CocoHarness.SessionLog

open Lib Lib.SafeInteger Except ScratchSession
open Session (admitSeed seedLoop)

/-! ## The checks of a whole seed -/

/-- The checks made of each seed event by itself, from position `index` on. -/
def admitSeeds (index : Nat) : List JsValue → Except JsError (List SessionEvent)
  | [] => .ok []
  | source :: rest => do
    let event ← admitSeed source index
    let events ← admitSeeds (index + 1) rest
    return event :: events

variable {event : SessionEvent} {s : Session} {a : ScratchSession} {source : JsValue}

theorem seedLoop_cons (h : s.Represents a) (hsnap : s.eventsSnapshot = none) (rest : List JsValue)
    (hadmitted : admitSeed source a.log.length = .ok event) :
    (∃ r s₁, surfaceAfter (a.log ++ [event]) = .ok r ∧
        seedLoop s a.log.length (source :: rest) = seedLoop s₁ (a.log.length + 1) rest ∧
        s₁.Represents (a.commit event) ∧ s₁.eventsSnapshot = none) ∨
      ∃ e e', surfaceAfter (a.log ++ [event]) = .error e ∧ seedLoop s a.log.length (source :: rest) = .error e' := by
  obtain ⟨state, rs, hlog, -⟩ := h.cache
  obtain ⟨m, hvalid, hm⟩ := h.manager.validateNext (by rw [h.log]; exact hlog) ⟨s.nextRef, event⟩
  rw [h.log, h.log_length] at hvalid
  rw [seedLoop, hadmitted, ok_bind]
  dsimp only
  rw [hvalid, surfaceAfter_snoc, hlog]
  cases hplan : planSurfaceEvent state event a.log.length a.log 0 with
  | error e => exact .inr ⟨e, _, by simp [applySurfaceEvent, hplan], rfl⟩
  | ok plan =>
    have hnext := (h.withManager (s.nextRef + 1) hm).commit ⟨s.nextRef, event⟩ hlog hplan
    refine .inl ⟨_, _, by simp [applySurfaceEvent, hplan]; rfl, rfl, ?_, hsnap⟩
    simpa only [Session.commit, hsnap] using hnext

variable {sources : List JsValue}

theorem seedLoop_of_accepted : ∀ {s : Session} {a : ScratchSession} {events : List SessionEvent}
      {r : SurfaceFoldState × List SurfaceFoldReplacement}, s.Represents a →
      s.eventsSnapshot = none → admitSeeds a.log.length sources = .ok events →
      surfaceAfter (a.log ++ events) = .ok r →
      ∃ s', seedLoop s a.log.length sources = .ok s' ∧ s'.Represents { a with log := a.log ++ events } := by
  induction sources with
  | nil =>
    intro s a events r h _ hadmitted _
    simp only [admitSeeds, ok.injEq] at hadmitted
    subst hadmitted
    exact ⟨s, rfl, by simpa using h⟩
  | cons source rest ih =>
    intro s a events r h hsnap hadmitted hfold
    simp only [admitSeeds, bind_eq_ok_iff, pure_eq_ok, ok.injEq] at hadmitted
    obtain ⟨event, hevent, more, hmore, rfl⟩ := hadmitted
    rw [List.append_cons] at hfold
    rcases seedLoop_cons h hsnap rest hevent with
      ⟨r₁, s₁, -, hloop, h₁, hsnap₁⟩ | ⟨e, _, hreject, -⟩
    · rw [hloop]
      have hlen : a.log.length + 1 = (a.commit event).log.length := by simp [commit]
      rw [hlen] at hmore ⊢
      obtain ⟨s', hs', hrep⟩ := ih h₁ hsnap₁ hmore hfold
      exact ⟨s', hs', by simpa [commit] using hrep⟩
    · rw [surfaceAfter_error_append hreject] at hfold
      simp at hfold

theorem seedLoop_accepted : ∀ {s s' : Session} {a : ScratchSession}, s.Represents a → s.eventsSnapshot = none →
      seedLoop s a.log.length sources = .ok s' →
      ∃ events, admitSeeds a.log.length sources = .ok events ∧ s'.Represents { a with log := a.log ++ events } := by
  induction sources with
  | nil =>
    intro s s' a h _ hloop
    simp only [seedLoop, ok.injEq] at hloop
    subst hloop
    exact ⟨[], rfl, by simpa using h⟩
  | cons source rest ih =>
    intro s s' a h hsnap hloop
    cases hevent : admitSeed source a.log.length with
    | error e => simp [seedLoop, hevent] at hloop
    | ok event =>
      rcases seedLoop_cons h hsnap rest hevent with
        ⟨r₁, s₁, -, hstep, h₁, hsnap₁⟩ | ⟨_, e, -, hreject⟩
      · have hlen : a.log.length + 1 = (a.commit event).log.length := by simp [commit]
        rw [hstep, hlen] at hloop
        obtain ⟨more, hmore, hrep⟩ := ih h₁ hsnap₁ hloop
        refine ⟨event :: more, ?_, by simpa [commit] using hrep⟩
        rw [← hlen] at hmore
        simp [admitSeeds, hevent, hmore]
      · rw [hloop] at hreject
        simp at hreject

/-! ## Events that can be stored -/

/-- The event's values are lossless JSON, its time is a safe integer, and its vocabulary is
supported. -/
structure Storable (e : SessionEvent) : Prop where
  wf : e.WF
  time : IsSafe e.time
  supported : ∀ location, assertSupportedRequestHeader e.type e.data location = .ok ()

theorem assertSupportedRequestHeader_location {type : String} {data : Json} {location : String}
    (h : assertSupportedRequestHeader type data location = .ok ()) (location' : String) :
    assertSupportedRequestHeader type data location' = .ok () := by
  unfold assertSupportedRequestHeader at h ⊢
  split at h
  · simp at h
  · next htype =>
    rw [if_neg htype]
    split at h
    · simp at h
    · next hreason => rw [if_neg hreason]

theorem get?_wf {v w : Json} {key : String} (hv : v.WF) (h : v.get? key = some w) : w.WF := by
  cases v with
  | obj fields =>
    rw [Json.wf_obj] at hv
    obtain ⟨f, hf, rfl⟩ := Json.mem_of_lookup h
    exact hv.2 f hf
  | null | bool _ | num _ | str _ | arr _ => simp [Json.get?] at h

theorem candidate_spec {seq : Int} {request : AppendRequest} (h : candidate seq request = .ok event) :
    event.seq = seq ∧ Storable event := by
  unfold candidate at h
  split at h
  · next data hdata =>
    simp only [bind_eq_ok_iff] at h
    obtain ⟨_, hsupported, h⟩ := h
    split at h
    · next metadata hmetadata =>
      simp only [pure_eq_ok, ok.injEq] at h
      subst h
      have hwf := snapshotJsonValue_wf _ hmetadata
      exact ⟨rfl, ⟨snapshotJsonValue_wf _ hdata, fun _ hv => get?_wf hwf hv,
        fun _ hv => get?_wf hwf hv⟩, request.now.safe,
        assertSupportedRequestHeader_location hsupported⟩
    · simp at h
  · simp at h

theorem readEnvelope_spec {value : Json} (hwf : value.WF) (h : readEnvelope value = some event) :
    event.WF ∧ IsSafe event.time := by
  simp only [readEnvelope, Option.bind_eq_bind, Option.bind_eq_some_iff, Json.str?_eq_some_iff,
    SessionEvent.safeInt?_eq_some_iff, pure, Option.some.injEq] at h
  obtain ⟨fields, -, _, -, _, -, type, -, _, -, seq, -, _, htime, time, ⟨-, hsafe⟩, data, hdata, _, -, rfl⟩ := h
  exact ⟨⟨get?_wf hwf hdata, fun _ hv => get?_wf hwf hv, fun _ hv => get?_wf hwf hv⟩, hsafe⟩

variable {index : Nat}

theorem admitSeed_spec (h : admitSeed source index = .ok event) : event.seq = index ∧ Storable event ∧
      assertCurrentLlmShape event.type event.data index = .ok () := by
  unfold admitSeed at h
  split at h
  · next snapshot hsnapshot =>
    simp only [bind_eq_ok_iff] at h
    obtain ⟨event', henvelope, _, hsupported, h⟩ := h
    split at h
    · simp at h
    · next hseq =>
      simp only [pure_eq_ok, ok.injEq] at h
      subst h
      unfold assertSessionEventEnvelope at henvelope
      split at henvelope
      · simp at henvelope
      split at henvelope
      · simp at henvelope
      · split at henvelope
        · simp at henvelope
        · next event'' hread =>
          simp only [bind_eq_ok_iff, pure_eq_ok, ok.injEq] at henvelope
          obtain ⟨_, hshape, rfl⟩ := henvelope
          obtain ⟨hwf, htime⟩ := readEnvelope_spec (snapshotJsonValue_wf _ hsnapshot) hread
          exact ⟨not_not.mp hseq, ⟨hwf, htime, assertSupportedRequestHeader_location hsupported⟩, hshape⟩
  · simp at h

variable {events : List SessionEvent}

theorem admitSeeds_storable (h : admitSeeds index sources = .ok events) : ∀ e ∈ events, Storable e := by
  induction sources generalizing index events with
  | nil =>
    simp only [admitSeeds, ok.injEq] at h
    subst h
    simp
  | cons source rest ih =>
    simp only [admitSeeds, bind_eq_ok_iff, pure_eq_ok, ok.injEq] at h
    obtain ⟨event, hevent, more, hmore, rfl⟩ := h
    intro e he
    rcases List.mem_cons.mp he with rfl | he
    · exact (admitSeed_spec hevent).2.1
    · exact ih hmore e he

/-! ## The whole constructor -/

theorem represents_fresh (id : String) : Session.Represents { id } { id, log := [], entry := none } := by
  refine ⟨rfl, rfl, rfl, SurfaceManager.represents_new [], nofun, {}, [], rfl, ?_⟩
  exact cacheInv_empty le_rfl

/-- The marker the constructor appends behind a seed of `n` events. -/
def endSeedEvent (n : Nat) (now : EpochMs) : SessionEvent where
  type := "session/end-seed"
  seq := n
  time := now.ms
  data := .obj []

/-- The log a constructed session starts with: the seed, marked unless it ends in a marker. -/
def seededLog (marked : Bool) (events : List SessionEvent) (now : EpochMs) : List SessionEvent :=
  if marked ∧ events.getLast?.map (·.type) ≠ some "session/end-seed" then
    events ++ [endSeedEvent events.length now]
  else events

theorem planSurfaceEvent_endSeed (state : SurfaceFoldState) (n : Nat) (now : EpochMs)
    (log : List SessionEvent) : planSurfaceEvent state (endSeedEvent n now) n log 0 = .ok none := by
  simp [planSurfaceEvent, endSeedEvent, surfaceOpOf, isSurfaceEligibleType, surfaceEventTypes]

theorem append_endSeed (hentry : a.entry = none)
    {r : SurfaceFoldState × List SurfaceFoldReplacement} (hlog : surfaceAfter a.log = .ok r)
    (now : EpochMs) :
    a.append (Session.endSeed now) {}
      = (a.commit (endSeedEvent a.log.length now), .ok (endSeedEvent a.log.length now)) := by
  obtain ⟨state, rs⟩ := r
  have hcand : candidate a.log.length (Session.endSeed now) = .ok (endSeedEvent a.log.length now) := rfl
  have hadmitted : a.admitAppend (Session.endSeed now) = .ok (endSeedEvent a.log.length now) := by
    rw [admitAppend, hcand, ok_bind, hentry, foldSurface_of_surfaceAfter hlog]
    simp [isAppending, planSurfaceEvent_endSeed]
  rw [append, hadmitted, hentry]

variable {id : String}

theorem create_of_seedLoop (seed : Option (List JsValue)) (now : EpochMs)
    (h : s.Represents { id, log := events, entry := none })
    (hloop : seedLoop { id } 0 (seed.getD []) = .ok s) :
    ∃ s', Session.create id seed now = .ok s' ∧
      s'.Represents { id, log := seededLog seed.isSome events now, entry := none } := by
  have h' : Session.Represents { s with firstLiveSeq := s.log.length }
      { id, log := events, entry := none } :=
    ⟨h.id, h.entry, h.log, h.manager, h.snapshot, h.cache⟩
  obtain ⟨state, rs, hlog, -⟩ := h.cache
  have hlast : s.log.getLast?.map (·.event.type) = events.getLast?.map (·.type) := by
    have hevents : eventsOf s.log = events := h.log
    rw [← hevents, eventsOf, List.getLast?_map, Option.map_map]
    rfl
  rw [Session.create, hloop, ok_bind]
  dsimp only
  rw [show Session.log { s with firstLiveSeq := s.log.length } = s.log from rfl, hlast]
  unfold seededLog
  split
  · obtain ⟨hreply, hnext⟩ := h'.append (Session.endSeed now) {}
    rw [append_endSeed rfl hlog now] at hreply hnext
    generalize Session.append _ (Session.endSeed now) {} = p at hreply hnext ⊢
    obtain ⟨s', result⟩ := p
    cases result with
    | error e => simp [Except.map] at hreply
    | ok event => exact ⟨s', rfl, hnext⟩
  · exact ⟨_, rfl, h'⟩

/-- **What the constructor accepts**: events that pass their own checks, and as a whole the surface fold. -/
theorem create_ok_iff (id : String) (seed : Option (List JsValue)) (now : EpochMs) :
    (∃ s, Session.create id seed now = .ok s) ↔
      ∃ events r, admitSeeds 0 (seed.getD []) = .ok events ∧ surfaceAfter events = .ok r := by
  constructor
  · rintro ⟨s, hs⟩
    simp only [Session.create, bind_eq_ok_iff] at hs
    obtain ⟨s₁, hloop, -⟩ := hs
    obtain ⟨events, hevents, hrep⟩ := seedLoop_accepted (represents_fresh id) rfl hloop
    obtain ⟨state, rs, hlog, -⟩ := hrep.cache
    exact ⟨events, (state, rs), hevents, hlog⟩
  · rintro ⟨events, r, hevents, hfold⟩
    obtain ⟨s, hloop, hrep⟩ := seedLoop_of_accepted (represents_fresh id) rfl hevents
      (by simpa using hfold)
    obtain ⟨s', hs', -⟩ := create_of_seedLoop seed now hrep hloop
    exact ⟨s', hs'⟩

theorem create_represents {seed : Option (List JsValue)} {now : EpochMs}
    (h : Session.create id seed now = .ok s) : ∃ events, admitSeeds 0 (seed.getD []) = .ok events ∧
      s.Represents { id, log := seededLog seed.isSome events now, entry := none } := by
  obtain ⟨events, r, hevents, hfold⟩ := (create_ok_iff id seed now).mp ⟨s, h⟩
  obtain ⟨s₁, hloop, hrep⟩ := seedLoop_of_accepted (represents_fresh id) rfl hevents
    (by simpa using hfold)
  obtain ⟨s', hs', hrep'⟩ := create_of_seedLoop seed now hrep hloop
  rw [h, ok.injEq] at hs'
  subst hs'
  exact ⟨events, hevents, hrep'⟩

end CocoHarness.SessionLog
