/-
# CocoHarness.SessionLog.LogGrowth — the log only grows, by the events that were appended.

What any operation does to the log of a session, for the components that project the log: an append
that throws leaves the log alone, an append that returns adds the event it was asked for, and no other
operation writes it.
-/
import CocoHarness.SessionLog.Atomicity

namespace CocoHarness.SessionLog

open Lib List

variable {seq : Int} {event : SessionEvent}

/-- The event an append admits has the type it was given, and the snapshot of its data. -/
theorem candidate_data {request : AppendRequest} (h : candidate seq request = .ok event) :
    event.type = request.type ∧ snapshotJsonValue request.data = some event.data := by
  unfold candidate at h
  split at h
  · next data hdata =>
    simp only [bind_eq_ok_iff] at h
    obtain ⟨_, -, h⟩ := h
    split at h
    · simp only [pure_eq_ok, Except.ok.injEq] at h
      subst h
      exact ⟨rfl, hdata⟩
    · simp at h
  · simp at h

theorem candidate_surfaceOp {request : AppendRequest} (h : candidate seq request = .ok event) :
    ∃ metadata, snapshotJsonValue request.opts.metadata = some metadata
      ∧ event.surfaceOp = metadata.get? "surfaceOp" := by
  unfold candidate at h
  split at h
  · simp only [bind_eq_ok_iff] at h
    obtain ⟨_, -, h⟩ := h
    split at h
    · next metadata hmetadata =>
      simp only [pure_eq_ok, Except.ok.injEq] at h
      subst h
      exact ⟨metadata, hmetadata, rfl⟩
    · simp at h
  · simp at h

namespace ScratchSession

variable {a : ScratchSession} {event : SessionEvent}

theorem admit_candidate {request : AppendRequest} (h : a.admitAppend request = .ok event) : candidate a.log.length request = .ok event := by
  simp only [admitAppend, bind_eq_ok_iff] at h
  obtain ⟨cand, hcand, h⟩ := h
  split at h
  · simp at h
  · simp only [bind_eq_ok_iff, pure_eq_ok, Except.ok.injEq] at h
    obtain ⟨_, -, _, -, rfl⟩ := h
    exact hcand

theorem append_candidate {request : AppendRequest} {listeners : Listeners} {a' : ScratchSession} (h : a.append request listeners = (a', .ok event)) :
    candidate a.log.length request = .ok event := by
  rw [append] at h
  split at h
  · simp at h
  · next event' hadmitted =>
    suffices heq : event' = event from heq ▸ admit_candidate hadmitted
    split at h
    · simpa using (Prod.mk.inj h).2
    · dsimp only at h
      split at h
      · simp at h
      · simpa using (Prod.mk.inj h).2

end ScratchSession

namespace ScratchSession

theorem step_log_prefix {a : ScratchSession} (h : AtRest a) (op : SessionOp) : a.log <+: (scratchSessionStep a op).1.log := by
  cases op with
  | append request listeners =>
    show a.log <+: (a.append request listeners).1.log
    cases happend : a.append request listeners with
    | mk a' result =>
      cases result with
      | error e =>
        rcases append_error h.entry happend with rfl | ⟨-, rfl⟩
        · exact prefix_rfl
        · exact prefix_rfl
      | ok event =>
        obtain ⟨hlog, -, -⟩ := append_ok happend
        show a.log <+: a'.log
        rw [hlog]
        exact prefix_append _ _
  | readSurface | deriveMessages | readEvents | enter | announceBegin | announceEnd | detach => exact prefix_rfl

end ScratchSession

/-! ## How the surface grows -/

variable {state : SurfaceFoldState} {rs : List SurfaceFoldReplacement}

theorem surfaceAfter_nodup {events : List SessionEvent} (h : surfaceAfter events = .ok (state, rs)) :
    state.nodes.Nodup :=
  (surfaceAfter_run h).live_nodup ((surfaceAfter_seqs_lt h).imp fun hab => hab.ne)

theorem surfaceAfter_grows {old more : List SessionEvent} {state' : SurfaceFoldState}
    {rs' : List SurfaceFoldReplacement} (h : surfaceAfter old = .ok (state, rs))
    (h' : surfaceAfter (old ++ more) = .ok (state', rs')) :
    state.replaceGeneration ≤ state'.replaceGeneration
      ∧ (state.replaceGeneration = state'.replaceGeneration → state.nodes <+: state'.nodes) := by
  induction more using List.reverseRecOn generalizing state' rs' with
  | nil =>
    rw [append_nil, h] at h'
    cases h'
    exact ⟨Nat.le_refl _, fun _ => prefix_rfl⟩
  | append_singleton more e ih =>
    rw [← append_assoc] at h'
    obtain ⟨mid, rs₁, plan, hbefore, -, rfl, -⟩ := surfaceAfter_snoc_ok h'
    obtain ⟨hle, hgrown⟩ := ih hbefore
    cases plan with
    | none => exact ⟨hle, hgrown⟩
    | some plan =>
      cases plan with
      | append seq =>
        refine ⟨hle, fun hsame => ?_⟩
        exact (hgrown hsame).trans (prefix_append _ _)
      | replace r i j =>
        refine ⟨Nat.le_succ_of_le hle, fun hsame => ?_⟩
        simp only [applySurfacePlan] at hsame
        omega

namespace Session

variable {s : Session}

theorem Represents.surface_state {a : ScratchSession} (h : s.Represents a) : ∃ state rs s', surfaceAfter a.log = .ok (state, rs)
      ∧ s.surface = (s', .ok (state.nodes, state.replaceGeneration)) ∧ s'.Represents a := by
  obtain ⟨state, rs, hlog, -⟩ := h.cache
  obtain ⟨s', hsurface, h', -⟩ := h.surface
  refine ⟨state, rs, s', hlog, ?_, h'⟩
  rw [hsurface, ScratchSession.surface, foldSurface_of_surfaceAfter hlog, surfaceAfter_generation hlog]
  rfl

theorem Reachable.append (hs : s.Reachable) (request : AppendRequest) (listeners : Listeners) :
    (s.append request listeners).1.Reachable := hs.step (.append request listeners)

variable {request : AppendRequest} {listeners : Listeners} {s' : Session}

theorem Reachable.append_error (hs : s.Reachable) {e : JsError}
    (h : s.append request listeners = (s', .error e)) : eventsOf s'.log = eventsOf s.log := by
  obtain ⟨a, hrep, hrest⟩ := hs.atRest
  obtain ⟨hreply, hnext⟩ := hrep.append request listeners
  rw [h] at hreply hnext
  cases hscratch : a.append request listeners with
  | mk a' result =>
    rw [hscratch] at hreply hnext
    dsimp only [Except.map] at hreply hnext
    subst hreply
    rcases ScratchSession.append_error hrest.entry hscratch with rfl | ⟨-, rfl⟩
    · exact hnext.log.trans hrep.log.symm
    · exact hnext.log.trans hrep.log.symm

variable {event : EventRef}

theorem Reachable.append_ok (hs : s.Reachable) (h : s.append request listeners = (s', .ok event)) :
    eventsOf s'.log = eventsOf s.log ++ [event.event] ∧ event.event.type = request.type
      ∧ snapshotJsonValue request.data = some event.event.data := by
  obtain ⟨a, hrep, -⟩ := hs.atRest
  obtain ⟨hreply, hnext⟩ := hrep.append request listeners
  rw [h] at hreply hnext
  cases hscratch : a.append request listeners with
  | mk a' result =>
    rw [hscratch] at hreply hnext
    dsimp only [Except.map] at hreply hnext
    subst hreply
    obtain ⟨hlog, -, -⟩ := ScratchSession.append_ok hscratch
    exact ⟨by rw [hnext.log, hlog, hrep.log], candidate_data (ScratchSession.append_candidate hscratch)⟩

theorem Reachable.append_candidate (hs : s.Reachable) (h : s.append request listeners = (s', .ok event)) :
    candidate (eventsOf s.log).length request = .ok event.event := by
  obtain ⟨a, hrep, -⟩ := hs.atRest
  obtain ⟨hreply, -⟩ := hrep.append request listeners
  rw [h] at hreply
  cases hscratch : a.append request listeners with
  | mk a' result =>
    rw [hscratch] at hreply
    dsimp only [Except.map] at hreply
    subst hreply
    rw [hrep.log]
    exact ScratchSession.append_candidate hscratch

theorem Reachable.step_log (hs : s.Reachable) (op : SessionOp) : eventsOf (sessionStep s op).1.log = eventsOf s.log
      ∨ ∃ request listeners event, op = .append request listeners ∧ event.type = request.type
          ∧ eventsOf (sessionStep s op).1.log = eventsOf s.log ++ [event] := by
  cases op with
  | append request listeners =>
    rw [show (sessionStep s (.append request listeners)).1 = (s.append request listeners).1 from rfl]
    cases happend : s.append request listeners with
    | mk s' result =>
      cases result with
      | error e => exact .inl (hs.append_error happend)
      | ok event =>
        obtain ⟨hlog, htype, -⟩ := hs.append_ok happend
        exact .inr ⟨request, listeners, event.event, rfl, htype, hlog⟩
  | readSurface | deriveMessages | readEvents | enter | announceBegin | announceEnd | detach =>
    obtain ⟨a, hrep, -⟩ := hs.atRest
    exact .inl ((hrep.step _).2.log.trans hrep.log.symm)

end Session

end CocoHarness.SessionLog
