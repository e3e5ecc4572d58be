/-
# CocoHarness.SessionLog.Atomicity — an append happens or it does not.

A failed append has touched the session in many places: it has planned a surface change, opened the
publication boundary, run listeners, and closed the boundary again.  None of it is visible afterwards.
The one thing a failed append can leave behind is what a dispatch listener did in its own right before
the veto, and the only call that does anything inside a publication is the detach capability.
-/
import CocoHarness.SessionLog.Construction

namespace CocoHarness.SessionLog

open Lib List ScratchSession

/-! ## Entries at rest -/

/-- No publication is open, and a detach still waiting waits for an announcement. -/
def EntryAtRest (entry : Option SessionEntry) : Prop :=
  ∀ e, entry = some e → e.appending = false ∧ (e.detachRequested = true → e.announcing = true ∧ e.entered = false)

theorem entryAtRest_none : EntryAtRest none := nofun

theorem entryAtRest_detachEntry {entry : Option SessionEntry} (h : EntryAtRest entry) : EntryAtRest (detachEntry entry) := by
  rcases entry with _ | e
  · exact h
  · obtain ⟨happ, hreq⟩ := h e rfl
    rw [detachEntry, Option.bind_some]
    split
    · exact h
    · split
      · next hann =>
        rintro _ ⟨⟩
        exact ⟨happ, fun _ => ⟨by simpa [happ] using hann, rfl⟩⟩
      · exact entryAtRest_none

variable {e : SessionEntry}

/-- Opening and closing the boundary with no detach in between leaves the entry as it was. -/
theorem EntryAtRest.settle_open (h : EntryAtRest (some e)) : settleEntry (some (openEntry e)) = some e := by
  obtain ⟨announced, announcing, appending, detachRequested, entered⟩ := e
  obtain ⟨happ, hreq⟩ := h _ rfl
  dsimp only at happ hreq
  subst happ
  cases detachRequested with
  | false => rfl
  | true =>
    obtain ⟨rfl, -⟩ := hreq rfl
    rfl

/-- A detach requested inside a publication is carried out when it closes. -/
theorem EntryAtRest.settle_detach (h : EntryAtRest (some e)) :
    settleEntry (detachEntry (some (openEntry e))) = detachEntry (some e) := by
  obtain ⟨announced, announcing, appending, detachRequested, entered⟩ := e
  obtain ⟨happ, hreq⟩ := h _ rfl
  dsimp only at happ hreq
  subst happ
  cases entered with
  | true => cases announcing <;> rfl
  | false =>
    cases detachRequested with
    | false => rfl
    | true =>
      obtain ⟨rfl, -⟩ := hreq rfl
      rfl

theorem detachEntry_idem (h : e.appending = true) : detachEntry (detachEntry (some e)) = detachEntry (some e) := by
  obtain ⟨announced, announcing, appending, detachRequested, entered⟩ := e
  dsimp only at h
  subst h
  cases entered <;> cases announcing <;> rfl

/-! ## What listeners leave behind -/

namespace ScratchSession

variable {a : ScratchSession}

/-- Inside a publication a call changes nothing but the entry, and that only by detaching. -/
theorem runCall_entry (h : isAppending a.entry = true) (call : ListenerCall) : (a.runCall call).1 = a ∨
      call = .detach ∧ (a.runCall call).1 = { a with entry := detachEntry a.entry } := by
  cases call with
  | readSurface | deriveMessages | readEvents => exact .inl rfl
  | append request =>
    obtain ⟨e, he⟩ := admit_appending h request
    rw [runCall, he]
    exact .inl rfl
  | detach => exact .inr ⟨rfl, rfl⟩

/-- So a whole listener leaves the session as it was, or detached if it asked for that. -/
theorem runListener_entry (entry : SessionEntry) (happ : entry.appending = true) (acts : List ListenerAct) :
    ∀ {a : ScratchSession}, a.entry = some entry ∨ a.entry = detachEntry (some entry) → (a.runListener acts).1 = a ∨
        ((∃ caught, .call .detach caught ∈ acts) ∧
          (a.runListener acts).1 = { a with entry := detachEntry (some entry) }) := by
  induction acts with
  | nil => intro a _; exact .inl rfl
  | cons act rest ih =>
    intro a ha
    have hopen : isAppending a.entry = true := by
      rcases ha with ha | ha <;> rw [ha]
      · simpa [isAppending] using happ
      · exact isAppending_detachEntry (by simpa [isAppending] using happ)
    cases act with
    | throw e => exact .inl rfl
    | call call caught =>
      have hrest : ∀ a' : ScratchSession, (a' = a ∨ call = .detach ∧ a' = { a with entry := detachEntry a.entry }) →
          (a'.runListener rest).1 = a ∨ ((∃ caught', .call .detach caught' ∈ ListenerAct.call call caught :: rest) ∧
              (a'.runListener rest).1 = { a with entry := detachEntry (some entry) }) := by
        rintro a' (rfl | ⟨rfl, rfl⟩)
        · rcases ih ha with hsame | ⟨⟨c, hc⟩, hdetached⟩
          · exact .inl hsame
          · exact .inr ⟨⟨c, mem_cons_of_mem _ hc⟩, hdetached⟩
        · have hentry : detachEntry a.entry = detachEntry (some entry) := by
            rcases ha with ha | ha <;> rw [ha]
            exact detachEntry_idem happ
          rw [hentry]
          refine .inr ⟨⟨caught, mem_cons_self⟩, ?_⟩
          rcases ih (a := { a with entry := detachEntry (some entry) }) (.inr rfl) with
            hsame | ⟨-, hdetached⟩
          · exact hsame
          · exact hdetached
      have hcall := runCall_entry hopen call
      rw [runListener]
      split
      · next a' hrun =>
        rw [hrun] at hcall
        exact hrest a' hcall
      · next a' e hrun =>
        rw [hrun] at hcall
        split
        · exact hrest a' hcall
        · rcases hcall with hsame | ⟨rfl, hdetached⟩
          · exact .inl hsame
          · refine .inr ⟨⟨caught, mem_cons_self⟩, ?_⟩
            rw [hdetached]
            rcases ha with ha | ha <;> rw [ha]
            rw [detachEntry_idem happ]

variable {request : AppendRequest} {listeners : Listeners} {a' : ScratchSession}

/-- **A failed append leaves nothing behind** but a detach one of its listeners asked for. -/
theorem append_error (hrest : EntryAtRest a.entry) {e : JsError} (h : a.append request listeners = (a', .error e)) :
    a' = a ∨ ((∃ caught, .call .detach caught ∈ listeners.dispatch) ∧
      a' = { a with entry := detachEntry a.entry }) := by
  rw [append] at h
  split at h
  · simp only [Prod.mk.injEq] at h
    exact .inl h.1.symm
  · next event _ =>
    cases hentry : a.entry with
    | none => simp [hentry] at h
    | some entry =>
      simp only [hentry] at h
      have hlisten := runListener_entry (openEntry entry) rfl listeners.dispatch
        (a := { a with entry := some (openEntry entry) }) (.inl rfl)
      rw [hentry] at hrest
      split at h
      · next a₁ e₁ hrun =>
        rw [hrun] at hlisten
        simp only [Prod.mk.injEq] at h
        obtain ⟨rfl, -⟩ := h
        rcases hlisten with rfl | ⟨hdetach, rfl⟩
        · refine .inl ?_
          rw [settle, hrest.settle_open, ← hentry]
        · refine .inr ⟨hdetach, ?_⟩
          rw [settle, hrest.settle_detach]
      · simp at h

variable {event : SessionEvent}

theorem admit_spec (h : a.admitAppend request = .ok event) : event.seq = a.log.length ∧ Storable event := by
  simp only [admitAppend, bind_eq_ok_iff] at h
  obtain ⟨cand, hcand, h⟩ := h
  split at h
  · simp at h
  · simp only [bind_eq_ok_iff, pure_eq_ok, Except.ok.injEq] at h
    obtain ⟨_, -, _, -, rfl⟩ := h
    exact candidate_spec hcand

/-- **A successful append adds exactly its event**, at the former log length. -/
theorem append_ok (h : a.append request listeners = (a', .ok event)) :
    a'.log = a.log ++ [event] ∧ event.seq = a.log.length ∧ Storable event := by
  rw [append] at h
  split at h
  · simp at h
  · next event' hadmitted =>
    have hspec := admit_spec hadmitted
    cases hentry : a.entry with
    | none =>
      simp only [hentry, Prod.mk.injEq, Except.ok.injEq] at h
      obtain ⟨rfl, rfl⟩ := h
      exact ⟨rfl, hspec⟩
    | some entry =>
      simp only [hentry] at h
      have hdispatch := runListener_appending
        (a := { a with entry := some (openEntry entry) }) rfl listeners.dispatch
      split at h
      · simp at h
      · next a₁ hrun =>
        rw [hrun] at hdispatch
        obtain ⟨hlog, -, happ⟩ := hdispatch
        have hlog' := (runObservers_appending (a := a₁.commit event') happ listeners.observers).1
        simp only [Prod.mk.injEq, Except.ok.injEq] at h
        obtain ⟨rfl, rfl⟩ := h
        exact ⟨hlog'.trans (congrArg (· ++ [event']) hlog), hspec⟩

/-! ## Entries stay at rest -/

/-- Inside a publication the entry is as it was opened, or detached since. -/
def OpenEntry (e : SessionEntry) (entry : Option SessionEntry) : Prop :=
  entry = some (openEntry e) ∨ entry = detachEntry (some (openEntry e))

variable {e : SessionEntry} {entry : Option SessionEntry}

theorem OpenEntry.settle (h : OpenEntry e entry) (hrest : EntryAtRest (some e)) : EntryAtRest (settleEntry entry) := by
  rcases h with rfl | rfl
  · rwa [hrest.settle_open]
  · rw [hrest.settle_detach]
    exact entryAtRest_detachEntry hrest

theorem runListener_open (h : OpenEntry e a.entry) (acts : List ListenerAct) :
    OpenEntry e (a.runListener acts).1.entry := by
  rcases runListener_entry (openEntry e) rfl acts h with hsame | ⟨-, hdetached⟩
  · rwa [hsame]
  · rw [hdetached]
    exact .inr rfl

theorem runObservers_open (h : OpenEntry e a.entry) (observers : List (List ListenerAct)) :
    OpenEntry e (a.runObservers observers).entry := by
  induction observers generalizing a with
  | nil => exact h
  | cons listener rest ih => exact ih (runListener_open h listener)

theorem append_atRest (hrest : EntryAtRest a.entry) (request : AppendRequest)
    (listeners : Listeners) : EntryAtRest (a.append request listeners).1.entry := by
  rw [append]
  split
  · exact hrest
  · next event _ =>
    cases hentry : a.entry with
    | none =>
      rw [hentry] at hrest
      simpa [commit, hentry] using hrest
    | some entry =>
      rw [hentry] at hrest
      have hdispatch := runListener_open (a := { a with entry := some (openEntry entry) })
        (e := entry) (.inl rfl) listeners.dispatch
      dsimp only
      split
      · next hrun =>
        rw [hrun] at hdispatch
        exact hdispatch.settle hrest
      · next a₁ hrun =>
        rw [hrun] at hdispatch
        exact (runObservers_open (a := a₁.commit event) hdispatch listeners.observers).settle hrest

end ScratchSession

variable {a : ScratchSession}

theorem entryAtRest_step (h : EntryAtRest a.entry) (op : SessionOp) :
    EntryAtRest (scratchSessionStep a op).1.entry := by
  cases op with
  | append request listeners => exact append_atRest h request listeners
  | readSurface | deriveMessages | readEvents => exact h
  | enter =>
    rw [scratchSessionStep]
    cases hentry : a.entry with
    | none => rintro _ ⟨⟩; exact ⟨rfl, fun h => by cases h⟩
    | some entry => rwa [hentry] at h
  | announceBegin =>
    rw [scratchSessionStep]
    cases hentry : a.entry with
    | none => exact entryAtRest_none
    | some entry =>
      rw [hentry] at h
      obtain ⟨happ, hreq⟩ := h entry rfl
      simp only [announceBeginEntry]
      split
      · exact h
      · rintro _ ⟨⟩
        exact ⟨happ, fun hr => ⟨rfl, (hreq hr).2⟩⟩
  | announceEnd =>
    rw [scratchSessionStep]
    cases hentry : a.entry with
    | none => exact entryAtRest_none
    | some entry =>
      rw [hentry] at h
      obtain ⟨happ, hreq⟩ := h entry rfl
      simp only [announceEndEntry, Option.bind_some]
      split
      · exact entryAtRest_none
      · next hkeep =>
        rintro _ ⟨⟩
        refine ⟨happ, fun hr => ?_⟩
        simp only at hr
        simp [hr, happ] at hkeep
  | detach => exact entryAtRest_detachEntry h

structure AtRest (a : ScratchSession) : Prop where
  entry : EntryAtRest a.entry
  storable : ∀ e ∈ a.log, Storable e

theorem AtRest.step (h : AtRest a) (op : SessionOp) : AtRest (scratchSessionStep a op).1 := by
  refine ⟨entryAtRest_step h.entry op, ?_⟩
  cases op with
  | append request listeners =>
    rw [show (scratchSessionStep a (.append request listeners)).1 = (a.append request listeners).1 from rfl]
    cases happend : a.append request listeners with
    | mk a' result =>
      cases result with
      | error e =>
        rcases append_error h.entry happend with rfl | ⟨-, rfl⟩ <;>
          exact h.storable
      | ok event =>
        obtain ⟨hlog, -, hevent⟩ := append_ok happend
        dsimp only
        rw [hlog]
        intro e he
        rcases mem_append.mp he with he | he
        · exact h.storable e he
        · rwa [mem_singleton.mp he]
  | readSurface | deriveMessages | readEvents | enter | announceBegin | announceEnd | detach => exact h.storable

theorem storable_endSeedEvent (n : Nat) (now : EpochMs) : Storable (endSeedEvent n now) :=
  ⟨⟨by simp [endSeedEvent, Json.keys], nofun, nofun⟩, now.safe, fun _ => by
    simp [assertSupportedRequestHeader, endSeedEvent]⟩

variable {s : Session}

theorem Session.Reachable.atRest (h : s.Reachable) : ∃ a, s.Represents a ∧ AtRest a := by
  induction h with
  | @create id seed now s hcreate =>
    obtain ⟨events, hevents, hrep⟩ := create_represents hcreate
    refine ⟨_, hrep, entryAtRest_none, ?_⟩
    have hstorable := admitSeeds_storable hevents
    dsimp only
    unfold seededLog
    split
    · intro e he
      rcases mem_append.mp he with he | he
      · exact hstorable e he
      · rw [mem_singleton.mp he]
        exact storable_endSeedEvent _ _
    · exact hstorable
  | step op _ ih =>
    obtain ⟨a, hrep, hrest⟩ := ih
    exact ⟨_, (hrep.step op).2, hrest.step op⟩

/-! ## Appends attempted inside a publication -/

def ListenerAct.isCaughtAppend : ListenerAct → Bool
  | .call (.append _) true => true
  | _ => false

theorem ListenerAct.eq_of_isCaughtAppend {act : ListenerAct} (h : act.isCaughtAppend = true) :
    ∃ request, act = .call (.append request) true := by
  unfold isCaughtAppend at h
  split at h
  · exact ⟨_, rfl⟩
  · cases h

def Listeners.withoutAppends (listeners : Listeners) : Listeners where
  dispatch := listeners.dispatch.filter (!·.isCaughtAppend)
  observers := listeners.observers.map (·.filter (!·.isCaughtAppend))

namespace ScratchSession

theorem runListener_withoutAppends (acts : List ListenerAct) : ∀ {a : ScratchSession}, isAppending a.entry = true →
      a.runListener (acts.filter (!·.isCaughtAppend)) = a.runListener acts := by
  induction acts with
  | nil => intro a _; rfl
  | cons act rest ih =>
    intro a h
    have hkeep : act.isCaughtAppend = false →
        a.runListener ((act :: rest).filter (!·.isCaughtAppend)) = a.runListener (act :: rest) := by
      intro hact
      rw [filter_cons_of_pos (by simp [hact])]
      cases act with
      | throw e => rfl
      | call call caught =>
        have happ := (runCall_appending h call).2.2
        rw [runListener, runListener]
        split
        · next hrun => rw [hrun] at happ; exact ih happ
        · next hrun => rw [hrun] at happ; rw [ih happ]
    cases hact : act.isCaughtAppend with
    | false => exact hkeep hact
    | true =>
      rw [filter_cons_of_neg (by simp [hact])]
      obtain ⟨request, rfl⟩ := ListenerAct.eq_of_isCaughtAppend hact
      obtain ⟨e, he⟩ := admit_appending h request
      rw [runListener, runCall, he]
      exact ih h

theorem runObservers_withoutAppends (observers : List (List ListenerAct)) :
    ∀ {a : ScratchSession}, isAppending a.entry = true →
      a.runObservers (observers.map (·.filter (!·.isCaughtAppend))) = a.runObservers observers := by
  induction observers with
  | nil => intro a _; rfl
  | cons listener rest ih =>
    intro a h
    simp only [runObservers, map_cons, foldl_cons] at ih ⊢
    rw [runListener_withoutAppends listener h]
    exact ih (runListener_appending h listener).2.2

theorem append_withoutAppends (a : ScratchSession) (request : AppendRequest) (listeners : Listeners) :
    a.append request listeners.withoutAppends = a.append request listeners := by
  rw [append, append]
  split
  · rfl
  · next event _ =>
    cases a.entry with
    | none => rfl
    | some entry =>
      dsimp only [Listeners.withoutAppends]
      rw [runListener_withoutAppends _ rfl]
      have happ := (runListener_appending (a := { a with entry := some (openEntry entry) }) rfl listeners.dispatch).2.2
      split
      · rfl
      · next a₁ hrun =>
        rw [hrun] at happ
        rw [runObservers_withoutAppends _ (by exact happ)]

end ScratchSession

/-! ## Atomicity -/

variable {s' : Session}

theorem Session.Represents.run_eq (h : s.Represents a) (h' : s'.Represents a)
    (ops : List SessionOp) : (Machine.run sessionStep s ops).2 = (Machine.run sessionStep s' ops).2 :=
  (h.run ops).1.trans (h'.run ops).1.symm

variable {a' : ScratchSession}

theorem Session.Represents.surface_eq (h : s.Represents a)
    (h' : s'.Represents a') (hlog : a'.log = a.log) : s'.surface.2 = s.surface.2 := by
  obtain ⟨_, hsurface, -⟩ := h.surface
  obtain ⟨_, hsurface', -⟩ := h'.surface
  rw [hsurface, hsurface', ScratchSession.surface, ScratchSession.surface, hlog]

theorem Session.Represents.messages_eq (h : s.Represents a)
    (h' : s'.Represents a') (hlog : a'.log = a.log) : s'.deriveMessages.2 = s.deriveMessages.2 := by
  obtain ⟨_, hderive, -⟩ := h.deriveMessages
  obtain ⟨_, hderive', -⟩ := h'.deriveMessages
  rw [hderive, hderive', hlog]

/-- **An append is atomic.**  If it throws, log, surface and derived messages are what they were, and every later run
goes as if it had never been attempted, a detach asked for by its own listeners aside. If it returns, it has added
exactly its event at the former length. An append attempted inside the publication might as well not be there. -/
theorem append_atomic (hs : s.Reachable) (request : AppendRequest) (listeners : Listeners) :
    (∀ s' e, s.append request listeners = (s', .error e) →
      eventsOf s'.log = eventsOf s.log ∧ s'.surface.2 = s.surface.2 ∧
      s'.deriveMessages.2 = s.deriveMessages.2 ∧
      ∃ own : List SessionOp, (own = [] ∨ own = [.detach] ∧ ∃ caught, .call .detach caught ∈ listeners.dispatch) ∧
        ∀ later, (Machine.run sessionStep s' later).2 =
          (Machine.run sessionStep (Machine.run sessionStep s own).1 later).2) ∧
    (∀ s' event, s.append request listeners = (s', .ok event) →
      eventsOf s'.log = eventsOf s.log ++ [event.event] ∧ event.event.seq = s.log.length) ∧
    ∀ later, (Machine.run sessionStep s (.append request listeners :: later)).2 =
      (Machine.run sessionStep s (.append request listeners.withoutAppends :: later)).2 := by
  obtain ⟨a, hrep, hrest⟩ := hs.atRest
  obtain ⟨hreply, hnext⟩ := hrep.append request listeners
  refine ⟨?_, ?_, ?_⟩
  · intro s' e happend
    rw [happend] at hreply hnext
    cases hscratch : a.append request listeners with
    | mk a' result =>
      rw [hscratch] at hreply hnext
      dsimp only [Except.map] at hreply hnext
      subst hreply
      rcases ScratchSession.append_error hrest.entry hscratch with rfl | ⟨hdetach, rfl⟩
      · exact ⟨hnext.log.trans hrep.log.symm, hrep.surface_eq hnext rfl,
          hrep.messages_eq hnext rfl, [], .inl rfl, fun later => hnext.run_eq hrep later⟩
      · have hdetached := (hrep.step .detach).2
        exact ⟨hnext.log.trans hrep.log.symm, hrep.surface_eq hnext rfl,
          hrep.messages_eq hnext rfl, [.detach], .inr ⟨rfl, hdetach⟩,
          fun later => hnext.run_eq hdetached later⟩
  · intro s' event happend
    rw [happend] at hreply hnext
    cases hscratch : a.append request listeners with
    | mk a' result =>
      rw [hscratch] at hreply hnext
      dsimp only [Except.map] at hreply hnext
      subst hreply
      obtain ⟨hlog, hseq, -⟩ := ScratchSession.append_ok hscratch
      exact ⟨by rw [hnext.log, hlog, hrep.log], by rw [hseq, hrep.log_length]⟩
  · intro later
    rw [(hrep.run _).1, (hrep.run _).1, Machine.run_cons, Machine.run_cons, scratchSessionStep,
      scratchSessionStep, ScratchSession.append_withoutAppends]

def enteredSession : Session := (sessionStep { id := "s" } .enter).1

theorem enteredSession_reachable : enteredSession.Reachable :=
  .step .enter (@Session.Reachable.create "s" none ⟨0, by decide⟩ _ rfl)

def turnStart : AppendRequest := { type := "turn/start", data := .obj [], now := ⟨0, isSafe_zero⟩ }

def vetoing : Listeners := { dispatch := [.throw (.error "veto")] }

theorem append_atomic_veto : (enteredSession.append turnStart vetoing).2 = .error (.error "veto") ∧
      eventsOf (enteredSession.append turnStart vetoing).1.log = eventsOf enteredSession.log :=
  ⟨rfl, ((append_atomic enteredSession_reachable turnStart vetoing).1
    (enteredSession.append turnStart vetoing).1 (.error "veto") rfl).1⟩

end CocoHarness.SessionLog
