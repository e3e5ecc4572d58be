/-
# CocoHarness.Client.PendingRequests — when a reconnect loses no request.

A requested frame puts its request on the list, and among the session's pending interactions or in its buffer; a
resolved frame takes out its own.  So a waiting request whose frame has been delivered in this generation is on the
list and held where the user finds it (`Kept`), whenever the session is instantiated.

The exception is the resync of a session whose window was opened.  It clears the pending interactions, on the
assumption that the replay is still to come; the replay may have come before.
-/
import CocoHarness.Client.SessionManager

namespace CocoHarness.Client

open Lib Function List Option Or Connection PendingSession SessionManager InsertionMap

/-! ## Requests of the host -/

namespace HostRequest

variable {q r : HostRequest}

theorem requestedFrame_sessionId (r : HostRequest) : r.requestedFrame.sessionId = r.sessionId := by
  unfold requestedFrame
  split <;> rfl

theorem requestedFrame_rpcId (r : HostRequest) : r.requestedFrame.rpcId = r.rpcId := by
  unfold requestedFrame
  split <;> rfl

theorem resolvedFrame_sessionId (r : HostRequest) : r.resolvedFrame.sessionId = r.sessionId := by
  unfold resolvedFrame
  split <;> rfl

theorem bufferedRequestKey_requestedFrame (r : HostRequest) :
    bufferedRequestKey r.requestedFrame = some r.identity := by
  unfold requestedFrame identity
  split <;> rfl

theorem requestedFrame_ne_plain :
    r.requestedFrame.payload ≠ .queue ∧ isRequest r.requestedFrame = true := by
  unfold requestedFrame
  split
  · exact ⟨fun hno => (by cases hno), rfl⟩
  · exact ⟨fun hno => (by cases hno), rfl⟩

theorem identity_ne_queue (r : HostRequest) : r.identity ≠ .queue := by
  unfold identity
  split <;> exact fun hno => (by cases hno)

theorem Distinct.key_ne (h : q.Distinct r) : q.wait.key ≠ r.wait.key := fun heq => h.1 (congrArg Prod.snd heq)

theorem Distinct.frame_ne (h : q.Distinct r) : q.requestedFrame ≠ r.requestedFrame := by
  intro heq
  have hid := congrArg Envelope.rpcId heq
  rw [requestedFrame_rpcId, requestedFrame_rpcId] at hid
  exact h.1 hid

theorem Distinct.symm (h : q.Distinct r) : r.Distinct q := ⟨h.1.symm, fun hsession => (h.2 hsession.symm).symm⟩

theorem Distinct.hasApprovalId (h : q.Distinct r) (hsession : q.sessionId = r.sessionId)
    {approval : Approval} (hq : q.ask = .approval approval) :
    r.wait.hasApprovalId approval.approvalId = false := by
  have hne := h.2 hsession
  unfold PendingWait.hasApprovalId
  split
  · next approval' hr =>
    rw [identity, hq, identity, show r.ask = .approval approval' from hr] at hne
    exact decide_eq_false fun heq => hne (congrArg Identity.approval heq.symm)
  · rfl

end HostRequest

/-! ## Sessions -/

namespace PendingSession

variable {s : PendingSession} {q r : HostRequest}

theorem handle_requestedFrame (s : PendingSession) (q : HostRequest) :
    s.handleMuxEnvelope q.requestedFrame.rpcId q.requestedFrame.payload = s.mint q.wait := by
  obtain ⟨rpcId, sessionId, ask⟩ := q
  cases ask <;> rfl

theorem mint_lookup (s : PendingSession) (w : PendingWait) (key : PendingKind × String) :
    (s.mint w).pending.lookup key = if key = w.key then some w else s.pending.lookup key :=
  lookup_set s.pending w.key key w

variable {key : PendingKind × String}

theorem settle_lookup {w : PendingWait} (hne : key ≠ w.key) :
    (s.settle w).pending.lookup key = s.pending.lookup key := by
  rw [settle, lookup_erase, if_neg hne]

theorem settleAll_lookup {items : List PendingWait} {approvalId : String}
    (hitems : ∀ w ∈ items, w.hasApprovalId approvalId = true → key ≠ w.key) :
    (items.foldl (fun s item => if item.hasApprovalId approvalId then s.settle item else s) s).pending.lookup key
      = s.pending.lookup key := by
  induction items generalizing s with
  | nil => rfl
  | cons w items ih =>
    rw [foldl_cons, ih fun v hv => hitems v (mem_cons_of_mem w hv)]
    split
    · next hid => exact settle_lookup (hitems w mem_cons_self hid)
    · rfl

/-- **A resolved frame** leaves the waits of other requests. -/
theorem handle_resolvedFrame (hdistinct : q.Distinct r) (hsession : q.sessionId = r.sessionId)
    (hheld : s.pending.lookup r.wait.key = some r.wait) :
    (s.handleMuxEnvelope q.resolvedFrame.rpcId q.resolvedFrame.payload).pending.lookup r.wait.key = some r.wait := by
  cases hask : q.ask with
  | approval approval =>
    rw [HostRequest.resolvedFrame, hask, handleMuxEnvelope, settleAll_lookup ?_, hheld]
    intro w hw hid hkey
    -- the only wait under the request's key is its own, which has another approval id
    obtain ⟨e, he, rfl⟩ := mem_map.mp hw
    have hlookup : s.pending.lookup e.1 = some e.2 := lookup_eq_some_iff.mpr he
    rw [s.keyed e he, ← hkey, hheld] at hlookup
    rw [← Option.some.inj hlookup, hdistinct.hasApprovalId hsession hask] at hid
    cases hid
  | question questions =>
    rw [HostRequest.resolvedFrame, hask]
    dsimp only [handleMuxEnvelope]
    split
    · next item hitem =>
      have hkey : (PendingKind.question, q.rpcId) = item.key := s.keyed _ (lookup_eq_some_iff.mp hitem)
      rw [settle_lookup, hheld]
      rw [← hkey]
      exact fun heq => hdistinct.1 (congrArg Prod.snd heq).symm
    · exact hheld

theorem resync_of_cold (h : ¬ s.cold = false) : s.resync = s := by rw [resync, if_pos (Bool.not_eq_false _ ▸ h)]

/-- A frame of a buffer: one of a request among the asked ones, or a queue snapshot. -/
def Buffered (asked : List HostRequest) (sessionId : String) (e : Envelope) : Prop :=
  e.payload = .queue ∨ ∃ q ∈ asked, q.sessionId = sessionId ∧ e = q.requestedFrame

/-- **Replaying a buffer** mints the waits of its requests. -/
theorem replay_lookup {asked : List HostRequest} {sessionId : String} {buffer : List Envelope}
    (hbuffer : ∀ e ∈ buffer, Buffered asked sessionId e)
    (hdistinct : ∀ q ∈ asked, q = r ∨ q.Distinct r)
    (hheld : r.requestedFrame ∈ buffer ∨ s.pending.lookup r.wait.key = some r.wait) :
    (buffer.foldl (fun session envelope => session.handleMuxEnvelope envelope.rpcId envelope.payload)
      s).pending.lookup r.wait.key = some r.wait := by
  induction buffer generalizing s with
  | nil => exact hheld.resolve_left not_mem_nil
  | cons e buffer ih =>
    rw [foldl_cons]
    refine ih (fun d hd => hbuffer d (mem_cons_of_mem e hd)) ?_
    rcases hbuffer e mem_cons_self with hqueue | ⟨q, hq, -, rfl⟩
    · rw [hqueue]
      refine hheld.imp (fun hmem => ?_) id
      refine (mem_cons.mp hmem).resolve_left fun heq => ?_
      rw [← heq] at hqueue
      exact r.requestedFrame_ne_plain.1 hqueue
    · rw [handle_requestedFrame]
      rcases hdistinct q hq with rfl | hne
      · exact inr (by rw [mint_lookup, if_pos rfl])
      · refine hheld.imp (fun hmem => ?_) fun hlookup => ?_
        · exact (mem_cons.mp hmem).resolve_left fun heq => hne.frame_ne heq.symm
        · rw [mint_lookup, if_neg hne.key_ne.symm, hlookup]

end PendingSession

/-! ## The manager -/

namespace Connection

/-- The session's window was opened: a resync clears its pending interactions. -/
def Opened (m : SessionManager) (sessionId : String) : Prop := ∃ s ∈ m.sessions sessionId, s.cold = false

instance (m : SessionManager) (sessionId : String) : Decidable (Opened m sessionId) :=
  inferInstanceAs (Decidable (∃ s ∈ m.sessions sessionId, s.cold = false))

end Connection

namespace SessionManager

variable {m : SessionManager} {q r : HostRequest} {asked : List HostRequest} {buffer : List Envelope} {e : Envelope}
  {key : Identity}

/-- Taking the frame of another identity out of a buffer, or putting one in its place, keeps a frame. -/
theorem findKey_ne {i : Nat} (hfind : findKey buffer key = some i)
    (hkey : bufferedRequestKey e ≠ some key) : buffer[i]? ≠ some e := by
  intro hget
  have hat := of_findIdx?_eq_some hfind
  rw [hget] at hat
  exact hkey (of_decide_eq_true hat)

theorem mem_bufferFrame_self (buffer : List Envelope) (key : Identity) (e : Envelope) :
    e ∈ bufferFrame buffer key e := by
  unfold bufferFrame
  split
  · exact mem_append_right _ (mem_singleton.mpr rfl)
  · next i hfind =>
    obtain ⟨hlt, -⟩ := List.findIdx?_eq_some_iff_getElem.mp hfind
    exact mem_iff_getElem?.mpr ⟨i, List.getElem?_set_self hlt⟩

theorem mem_bufferFrame (d : Envelope) (hmem : e ∈ buffer)
    (hkey : bufferedRequestKey e ≠ some key) : e ∈ bufferFrame buffer key d := by
  unfold bufferFrame
  split
  · exact mem_append_left _ hmem
  · next i hfind =>
    obtain ⟨j, hj⟩ := mem_iff_getElem?.mp hmem
    have hne : i ≠ j := fun heq => findKey_ne hfind hkey (heq ▸ hj)
    exact mem_iff_getElem?.mpr ⟨j, (List.getElem?_set_ne hne).trans hj⟩

theorem mem_unbufferFrame (hmem : e ∈ buffer) (hkey : bufferedRequestKey e ≠ some key) :
    e ∈ unbufferFrame buffer key := by
  unfold unbufferFrame
  split
  · exact hmem
  · next i hfind =>
    obtain ⟨j, hj⟩ := mem_iff_getElem?.mp hmem
    have hne : j ≠ i := fun heq => findKey_ne hfind hkey (heq ▸ hj)
    exact mem_eraseIdx_iff_getElem?.mpr ⟨j, hne, hj⟩

theorem of_mem_bufferAfter {d : Envelope} (h : d ∈ bufferAfter buffer e) :
    d ∈ buffer ∨ d = e ∧ bufferedRequestKey e ≠ none := by
  have hput : ∀ key, d ∈ bufferFrame buffer key e → d ∈ buffer ∨ d = e := by
    intro key hd
    unfold bufferFrame at hd
    split at hd
    · exact (mem_append.mp hd).imp id mem_singleton.mp
    · exact mem_or_eq_of_mem_set hd
  have htake : ∀ key, d ∈ unbufferFrame buffer key → d ∈ buffer := by
    intro key hd
    unfold unbufferFrame at hd
    split at hd
    · exact hd
    · exact (eraseIdx_sublist _ _).subset hd
  unfold bufferAfter at h
  unfold bufferedRequestKey
  split at h
  · next hpayload => exact (hput _ h).imp id fun heq => ⟨heq, by rw [hpayload]; exact some_ne_none _⟩
  · next hpayload => exact (hput _ h).imp id fun heq => ⟨heq, by rw [hpayload]; exact some_ne_none _⟩
  · next hpayload => exact (hput _ h).imp id fun heq => ⟨heq, by rw [hpayload]; exact some_ne_none _⟩
  · exact inl (htake _ h)
  · exact inl (htake _ h)
  · exact inl h

/-! ### What a frame touches -/

theorem trackFrame_eq (m : SessionManager) (e : Envelope) :
    m.trackFrame e = { m with pendingInteractions := (m.trackFrame e).pendingInteractions } := by
  unfold trackFrame
  split
  · unfold trackPending
    split <;> rfl
  · rfl
  · unfold trackPending
    split <;> rfl
  · rfl
  · rfl
  · rfl

theorem rebaseline_eq (m : SessionManager) (e : Envelope) :
    m.rebaseline e = { m with pendingBuffers := (m.rebaseline e).pendingBuffers } := by
  unfold rebaseline
  split <;> rfl

theorem route_interactions (m : SessionManager) (e : Envelope) :
    (m.route e).pendingInteractions = m.pendingInteractions := by
  unfold route
  split <;> rfl

theorem handle_sessions (m : SessionManager) (e : Envelope) (sessionId : String) :
    (m.handleMuxEnvelope e).sessions sessionId = if sessionId = e.sessionId then
          (m.sessions sessionId).map fun s => s.handleMuxEnvelope e.rpcId e.payload
        else m.sessions sessionId := by
  rw [handleMuxEnvelope, trackFrame_eq, rebaseline_eq]
  unfold route
  dsimp only
  split
  · next hnone =>
    dsimp only
    split
    · next heq => rw [heq, hnone, map_none]
    · rfl
  · next s hsome =>
    dsimp only
    split
    · next heq => rw [heq, update_self, hsome, map_some]
    · next hne => rw [update_of_ne hne]

theorem rebaseline_buffers (m : SessionManager) (e : Envelope) (sessionId : String) :
    (m.rebaseline e).pendingBuffers sessionId = if sessionId = e.sessionId ∧ e.payload = .subscribed then
          (m.pendingBuffers sessionId).filter fun item => item.payload ≠ .queue
        else m.pendingBuffers sessionId := by
  unfold rebaseline
  split
  · next hsubscribed =>
    dsimp only
    by_cases heq : sessionId = e.sessionId
    · rw [heq, update_self, if_pos ⟨rfl, hsubscribed⟩]
    · rw [update_of_ne heq, if_neg fun hboth => heq hboth.1]
  · next hother => rw [if_neg fun hboth => hother hboth.2]

theorem handle_buffers (m : SessionManager) (e : Envelope) (sessionId : String) :
    (m.handleMuxEnvelope e).pendingBuffers sessionId = if sessionId = e.sessionId ∧ m.sessions sessionId = none then
          bufferAfter ((m.rebaseline e).pendingBuffers sessionId) e
        else (m.rebaseline e).pendingBuffers sessionId := by
  rw [handleMuxEnvelope, trackFrame_eq, rebaseline_eq]
  unfold route
  dsimp only
  split
  · next hnone =>
    dsimp only
    by_cases heq : sessionId = e.sessionId
    · rw [heq, update_self, if_pos ⟨rfl, hnone⟩]
    · rw [update_of_ne heq, if_neg fun hboth => heq hboth.1]
  · next s hsome =>
    dsimp only
    rw [if_neg fun hboth => ?_]
    rw [← hboth.1, hboth.2] at hsome
    cases hsome

theorem handle_interactions (m : SessionManager) (e : Envelope) :
    (m.handleMuxEnvelope e).pendingInteractions = (m.trackFrame e).pendingInteractions := by
  rw [handleMuxEnvelope, route_interactions, rebaseline_eq]
  unfold trackFrame trackPending resolvePending
  split
  · dsimp only
    split <;> rfl
  · rfl
  · dsimp only
    split <;> rfl
  · rfl
  · rfl
  · rfl

/-! ### The list -/

theorem trackPending_keys (m : SessionManager) (sessionId sessionId' : String) (key key' : Identity)
    (status : PendingInteractionStatus) :
    key' ∈ ((m.trackPending sessionId key status).pendingInteractions sessionId').keys
      ↔ sessionId' = sessionId ∧ key' = key ∨ key' ∈ (m.pendingInteractions sessionId').keys := by
  unfold trackPending
  split
  · next hset =>
    constructor
    · exact inr
    · rintro (⟨rfl, rfl⟩ | hmem)
      · exact lookup_isSome_iff.mp (by rw [hset]; rfl)
      · exact hmem
  · dsimp only
    by_cases heq : sessionId' = sessionId
    · subst heq
      rw [update_self, mem_keys_set]
      simp only [true_and]
    · rw [update_of_ne heq]
      simp only [heq, false_and, false_or]

theorem resolvePending_keys (m : SessionManager) (sessionId sessionId' : String) (key key' : Identity) :
    key' ∈ ((m.resolvePending sessionId key).pendingInteractions sessionId').keys
      ↔ ¬ (sessionId' = sessionId ∧ key' = key) ∧ key' ∈ (m.pendingInteractions sessionId').keys := by
  unfold resolvePending
  dsimp only
  by_cases heq : sessionId' = sessionId
  · subst heq
    rw [update_self, mem_keys_erase]
    simp only [true_and]
  · rw [update_of_ne heq]
    simp only [heq, false_and, not_false_eq_true, true_and]

theorem listed_requestedFrame (m : SessionManager) (q r : HostRequest) :
    (m.handleMuxEnvelope q.requestedFrame).Listed r
      ↔ r.sessionId = q.sessionId ∧ r.identity = q.identity ∨ m.Listed r := by
  rw [Listed, handle_interactions]
  obtain ⟨rpcId, sessionId, ask⟩ := q
  cases ask with
  | approval approval | question questions => exact trackPending_keys m sessionId r.sessionId _ r.identity _

theorem listed_resolvedFrame (m : SessionManager) (q r : HostRequest) : (m.handleMuxEnvelope q.resolvedFrame).Listed r
      ↔ ¬ (r.sessionId = q.sessionId ∧ r.identity = q.identity) ∧ m.Listed r := by
  rw [Listed, handle_interactions]
  obtain ⟨rpcId, sessionId, ask⟩ := q
  cases ask with
  | approval approval | question questions => exact resolvePending_keys m sessionId r.sessionId _ r.identity

/-! ### Where a request is held -/

theorem held_some {s : PendingSession} (h : m.sessions r.sessionId = some s) : m.Held r ↔ s.pending.lookup r.wait.key = some r.wait := by
  rw [Held, h]

theorem held_none (h : m.sessions r.sessionId = none) :
    m.Held r ↔ r.requestedFrame ∈ m.pendingBuffers r.sessionId := by
  rw [Held, h]

theorem Held.congr {m' : SessionManager} (h : m.Held r) (hsession : m'.sessions r.sessionId = m.sessions r.sessionId)
    (hbuffer : m'.pendingBuffers r.sessionId = m.pendingBuffers r.sessionId) : m'.Held r := by
  rw [Held, hsession, hbuffer]
  exact h

/-- **A frame about something else** keeps a request where it is. -/
theorem Held.handle (h : m.Held r) (hkeeps : e.sessionId = r.sessionId →
      (∀ buffer : List Envelope, r.requestedFrame ∈ buffer → r.requestedFrame ∈ bufferAfter buffer e) ∧
      ∀ s : PendingSession, s.pending.lookup r.wait.key = some r.wait →
        (s.handleMuxEnvelope e.rpcId e.payload).pending.lookup r.wait.key = some r.wait) :
    (m.handleMuxEnvelope e).Held r := by
  have hsessions := handle_sessions m e r.sessionId
  have hbuffers := handle_buffers m e r.sessionId
  cases hinstance : m.sessions r.sessionId with
  | some s =>
    rw [held_some hinstance] at h
    rw [hinstance, map_some] at hsessions
    split at hsessions
    · next heq => exact (held_some hsessions).mpr ((hkeeps heq.symm).2 s h)
    · exact (held_some hsessions).mpr h
  | none =>
    rw [held_none hinstance] at h
    rw [hinstance, map_none, ite_self] at hsessions
    rw [held_none hsessions, hbuffers, rebaseline_buffers]
    -- a new baseline drops queue snapshots only
    have hrebased : r.requestedFrame ∈ if r.sessionId = e.sessionId ∧ e.payload = .subscribed then
        (m.pendingBuffers r.sessionId).filter fun item => item.payload ≠ .queue
        else m.pendingBuffers r.sessionId := by
      split
      · exact mem_filter.mpr ⟨h, decide_eq_true r.requestedFrame_ne_plain.1⟩
      · exact h
    split
    · next hboth => exact (hkeeps hboth.1.symm).1 _ hrebased
    · exact hrebased

/-- **Its requested frame** puts a request where the user finds it. -/
theorem held_requestedFrame (m : SessionManager) (r : HostRequest) :
    (m.handleMuxEnvelope r.requestedFrame).Held r := by
  have hid := r.requestedFrame_sessionId
  have hsessions := handle_sessions m r.requestedFrame r.sessionId
  have hbuffers := handle_buffers m r.requestedFrame r.sessionId
  rw [if_pos hid.symm] at hsessions
  cases hinstance : m.sessions r.sessionId with
  | some s =>
    rw [hinstance, map_some, handle_requestedFrame] at hsessions
    rw [held_some hsessions, mint_lookup, if_pos rfl]
  | none =>
    rw [hinstance, map_none] at hsessions
    rw [if_pos ⟨hid.symm, hinstance⟩] at hbuffers
    rw [held_none hsessions, hbuffers]
    obtain ⟨rpcId, sessionId, ask⟩ := r
    cases ask with
    | approval approval | question questions => exact mem_bufferFrame_self _ _ _

/-- **Another request's requested frame.** -/
theorem Held.requestedFrame (h : m.Held r) (hdistinct : q.Distinct r) :
    (m.handleMuxEnvelope q.requestedFrame).Held r := by
  refine h.handle fun hsession => ⟨fun buffer hmem => ?_, fun s hlookup => ?_⟩
  · rw [q.requestedFrame_sessionId] at hsession
    have hkey : bufferedRequestKey r.requestedFrame ≠ some q.identity := by
      rw [r.bufferedRequestKey_requestedFrame]
      exact fun heq => hdistinct.2 hsession (Option.some.inj heq).symm
    obtain ⟨rpcId, sessionId, ask⟩ := q
    cases ask with
    | approval approval | question questions => exact mem_bufferFrame _ hmem hkey
  · rw [handle_requestedFrame, mint_lookup, if_neg hdistinct.key_ne.symm, hlookup]

/-- **Another request's resolved frame.** -/
theorem Held.resolvedFrame (h : m.Held r) (hdistinct : q.Distinct r) :
    (m.handleMuxEnvelope q.resolvedFrame).Held r := by
  refine h.handle fun hsession => ?_
  rw [q.resolvedFrame_sessionId] at hsession
  refine ⟨fun buffer hmem => ?_, fun s hlookup => handle_resolvedFrame hdistinct hsession hlookup⟩
  have hkey : bufferedRequestKey r.requestedFrame ≠ some q.identity := by
    rw [r.bufferedRequestKey_requestedFrame]
    exact fun heq => hdistinct.2 hsession (Option.some.inj heq).symm
  obtain ⟨rpcId, sessionId, ask⟩ := q
  cases ask with
  | approval approval | question questions => exact mem_unbufferFrame hmem hkey

variable {p : Push}

/-- **A frame about no request.** -/
theorem Held.plain (h : m.Held r) (hplain : Plain p) : (m.handleMuxEnvelope p.envelope).Held r := by
  cases p with
  | requested q | resolved q => exact hplain.elim
  | queue sessionId =>
    refine h.handle fun _ => ⟨fun buffer hmem => mem_bufferFrame _ hmem ?_, fun _ hlookup => hlookup⟩
    rw [r.bufferedRequestKey_requestedFrame]
    exact fun heq => r.identity_ne_queue (Option.some.inj heq)
  | subscribed sessionId => exact h.handle fun _ => ⟨fun _ hmem => hmem, fun _ hlookup => hlookup⟩

theorem listed_plain (hplain : Plain p) : (m.handleMuxEnvelope p.envelope).Listed r ↔ m.Listed r := by
  rw [Listed, handle_interactions]
  cases p with
  | requested q | resolved q => exact hplain.elim
  | queue sessionId | subscribed sessionId => exact Iff.rfl

/-- **Instantiation** replays the buffer to the session. -/
theorem Held.get (h : m.Held r) (sessionId : String)
    (hbuffer : ∀ e ∈ m.pendingBuffers r.sessionId, Buffered asked r.sessionId e)
    (hdistinct : ∀ q ∈ asked, q = r ∨ q.Distinct r) : (m.get sessionId).Held r := by
  unfold SessionManager.get
  split
  · exact h
  · next hnone =>
    by_cases heq : r.sessionId = sessionId
    · subst heq
      rw [held_none hnone] at h
      refine (held_some (update_self ..)).mpr ?_
      exact replay_lookup hbuffer hdistinct (inl h)
    · exact h.congr (update_of_ne heq ..) (update_of_ne heq ..)

theorem Held.withSession (h : m.Held r) (sessionId : String) {f : PendingSession → PendingSession}
    (hf : r.sessionId = sessionId → ∀ s, m.sessions r.sessionId = some s →
      (f s).pending.lookup r.wait.key = s.pending.lookup r.wait.key) : (m.withSession sessionId f).Held r := by
  by_cases heq : r.sessionId = sessionId
  · have hsessions : (m.withSession sessionId f).sessions r.sessionId = (m.sessions r.sessionId).map f := by
      unfold SessionManager.withSession
      dsimp only
      rw [heq, update_self]
    cases hinstance : m.sessions r.sessionId with
    | none =>
      rw [hinstance, map_none] at hsessions
      rw [held_none hinstance] at h
      exact (held_none hsessions).mpr h
    | some s =>
      rw [hinstance, map_some] at hsessions
      rw [held_some hinstance] at h
      rw [held_some hsessions, hf heq s hinstance, h]
  · exact h.congr (update_of_ne heq ..) rfl

theorem Held.resync (h : m.Held r) (sessionId : String)
    (hcold : r.sessionId = sessionId → ¬ Opened m r.sessionId) :
    (m.withSession sessionId PendingSession.resync).Held r :=
  h.withSession sessionId fun heq s hs => by rw [resync_of_cold fun hopen => hcold heq ⟨s, hs, hopen⟩]

theorem Held.connected (h : m.Held r) (hcold : ¬ Opened m r.sessionId) : m.handleConnected.Held r := by
  have hsessions : m.handleConnected.sessions r.sessionId = (m.sessions r.sessionId).map PendingSession.resync := rfl
  cases hinstance : m.sessions r.sessionId with
  | none =>
    rw [hinstance, map_none] at hsessions
    exact (held_none hsessions).mpr ((held_none hinstance).mp h)
  | some s =>
    rw [hinstance, map_some, resync_of_cold fun hopen => hcold ⟨s, hinstance, hopen⟩]
      at hsessions
    exact (held_some hsessions).mpr ((held_some hinstance).mp h)

theorem buffered_handle {sessionId : String}
    (hbuffer : ∀ d ∈ m.pendingBuffers sessionId, Buffered asked sessionId d)
    (he : sessionId = e.sessionId → bufferedRequestKey e ≠ none → Buffered asked sessionId e) :
    ∀ d ∈ (m.handleMuxEnvelope e).pendingBuffers sessionId, Buffered asked sessionId d := by
  intro d hd
  have hrebased : ∀ d ∈ (m.rebaseline e).pendingBuffers sessionId, Buffered asked sessionId d := by
    intro d hd
    rw [rebaseline_buffers] at hd
    split at hd
    · exact hbuffer d (mem_filter.mp hd).1
    · exact hbuffer d hd
  rw [handle_buffers] at hd
  split at hd
  · next hboth =>
    rcases of_mem_bufferAfter hd with hold | ⟨rfl, hkey⟩
    · exact hrebased d hold
    · exact he hboth.1 hkey
  · exact hrebased d hd

end SessionManager

/-! ## Runs -/

namespace Connection

variable {c c' : Connection}

/-- Every session that the action resyncs while the host streams has its waiting requests still to come. -/
def ResyncsInTime (c : Connection) : Action → Prop
  | .connected => c.streaming = true → ∀ r ∈ c.waiting, Opened c.manager r.sessionId → .requested r ∈ c.mux
  | .readdress sessionId => c.streaming = true → ∀ r ∈ c.waiting, r.sessionId = sessionId →
      Opened c.manager r.sessionId → .requested r ∈ c.mux
  | _ => True

instance (c : Connection) (a : Action) : Decidable (c.ResyncsInTime a) :=
  match a with
  | .connected => inferInstanceAs (Decidable (_ → ∀ r ∈ c.waiting, _ → _))
  | .readdress _ => inferInstanceAs (Decidable (_ → ∀ r ∈ c.waiting, _ → _ → _))
  | .ask _ | .settle _ | .push _ | .stream _ | .deliver | .lost | .get _ | .«open» _ =>
    inferInstanceAs (Decidable True)

/-- What is asked, waits, is in flight and is buffered fits together; every waiting request is on its way, or held and
listed. -/
structure Kept (c : Connection) : Prop where
  distinct : ∀ q ∈ c.asked, ∀ r ∈ c.asked, q = r ∨ q.Distinct r
  waiting_asked : ∀ r ∈ c.waiting, r ∈ c.asked
  requested_asked : ∀ r, .requested r ∈ c.mux → r ∈ c.asked
  resolved_asked : ∀ r, .resolved r ∈ c.mux → r ∈ c.asked
  unresolved : ∀ r ∈ c.waiting, .resolved r ∉ c.mux
  buffered : ∀ sessionId, ∀ e ∈ c.manager.pendingBuffers sessionId, PendingSession.Buffered c.asked sessionId e
  kept : c.streaming = true → ∀ r ∈ c.waiting, .requested r ∈ c.mux ∨ c.manager.Held r ∧ c.manager.Listed r

theorem Kept.distinct_of {q r : HostRequest} (h : c.Kept) (hq : q ∈ c.asked) (hr : r ∈ c.waiting) (hne : q ≠ r) : q.Distinct r :=
  (h.distinct q hq r (h.waiting_asked r hr)).resolve_left hne

theorem Kept.manager {m : SessionManager} (h : c.Kept) {ready reconnecting : Bool}
    (hbuffered : ∀ sessionId, ∀ e ∈ m.pendingBuffers sessionId, Buffered c.asked sessionId e)
    (hkept : c.streaming = true → ∀ r ∈ c.waiting, c.manager.Held r → c.manager.Listed r →
      .requested r ∈ c.mux ∨ m.Held r ∧ m.Listed r) :
    Kept { c with manager := m, ready, reconnecting } where
  distinct := h.distinct
  waiting_asked := h.waiting_asked
  requested_asked := h.requested_asked
  resolved_asked := h.resolved_asked
  unresolved := h.unresolved
  buffered := hbuffered
  kept := fun hstreaming r hr =>
    (h.kept hstreaming r hr).elim inl fun hboth => hkept hstreaming r hr hboth.1 hboth.2

variable {p : Push}

/-- **Pushing a frame**: a resolved frame is of a request that waits no more. -/
theorem Kept.broadcast (h : c.Kept) (hp : ∀ r, p = .requested r ∨ p = .resolved r → r ∈ c.asked)
    (hresolved : ∀ r ∈ c.waiting, p ≠ .resolved r) : (c.broadcast p).Kept := by
  unfold Connection.broadcast
  split
  · refine ⟨h.distinct, h.waiting_asked, ?_, ?_, ?_, h.buffered, ?_⟩
    · intro r hr
      rcases mem_append.mp hr with hr | hr
      · exact h.requested_asked r hr
      · exact hp r (inl (mem_singleton.mp hr).symm)
    · intro r hr
      rcases mem_append.mp hr with hr | hr
      · exact h.resolved_asked r hr
      · exact hp r (inr (mem_singleton.mp hr).symm)
    · intro r hr hmem
      rcases mem_append.mp hmem with hmem | hmem
      · exact h.unresolved r hr hmem
      · exact hresolved r hr (mem_singleton.mp hmem).symm
    · intro hstreaming r hr
      exact (h.kept hstreaming r hr).imp (mem_append_left _) id
  · exact h

/-- **Asking**: the request is on its way where there is a stream. -/
theorem Kept.ask {r : HostRequest} (h : c.Kept) (hfresh : ∀ q ∈ c.asked, q.Distinct r) :
    (Connection.broadcast { c with asked := c.asked ++ [r], waiting := c.waiting ++ [r] } (.requested r)).Kept := by
  have hself : r ∉ c.asked := fun hr => (hfresh r hr).1 rfl
  unfold Connection.broadcast
  have hdistinct : ∀ q ∈ c.asked ++ [r], ∀ q' ∈ c.asked ++ [r], q = q' ∨ q.Distinct q' := by
    intro q hq q' hq'
    rcases mem_append.mp hq with hold | hnew
    · rcases mem_append.mp hq' with hold' | hnew'
      · exact h.distinct q hold q' hold'
      · obtain rfl := mem_singleton.mp hnew'
        exact inr (hfresh q hold)
    · obtain rfl := mem_singleton.mp hnew
      rcases mem_append.mp hq' with hold' | hnew'
      · exact inr (hfresh q' hold').symm
      · exact inl (mem_singleton.mp hnew').symm
  have hwaiting : ∀ q ∈ c.waiting ++ [r], q ∈ c.asked ++ [r] := fun q hq =>
    (mem_append.mp hq).elim (fun hq => mem_append_left _ (h.waiting_asked q hq))
      (mem_append_right _)
  have hbuffered : ∀ sessionId, ∀ e ∈ c.manager.pendingBuffers sessionId,
      Buffered (c.asked ++ [r]) sessionId e := fun sessionId e he =>
    (h.buffered sessionId e he).imp id fun ⟨q, hq, hrest⟩ => ⟨q, mem_append_left _ hq, hrest⟩
  have hunresolved : ∀ q ∈ c.waiting ++ [r], .resolved q ∉ c.mux := by
    intro q hq
    rcases mem_append.mp hq with hq | hq
    · exact h.unresolved q hq
    · obtain rfl := mem_singleton.mp hq
      exact fun hmem => hself (h.resolved_asked q hmem)
  split
  · refine ⟨hdistinct, hwaiting, ?_, ?_, ?_, hbuffered, ?_⟩
    · intro q hq
      rcases mem_append.mp hq with hq | hq
      · exact mem_append_left _ (h.requested_asked q hq)
      · exact mem_append_right _ (mem_singleton.mpr (Push.requested.inj (mem_singleton.mp hq)))
    · intro q hq
      rcases mem_append.mp hq with hq | hq
      · exact mem_append_left _ (h.resolved_asked q hq)
      · cases mem_singleton.mp hq
    · intro q hq hmem
      rcases mem_append.mp hmem with hmem | hmem
      · exact hunresolved q hq hmem
      · cases mem_singleton.mp hmem
    · intro hstreaming q hq
      rcases mem_append.mp hq with hq | hq
      · exact (h.kept hstreaming q hq).imp (mem_append_left _) id
      · obtain rfl := mem_singleton.mp hq
        exact inl (mem_append_right _ (mem_singleton.mpr rfl))
  · next hstreaming =>
    refine ⟨hdistinct, hwaiting, fun q hq => mem_append_left _ (h.requested_asked q hq),
      fun q hq => mem_append_left _ (h.resolved_asked q hq), hunresolved, hbuffered, ?_⟩
    intro hno
    exact absurd hno hstreaming

/-- **Settling**: the request waits no more. -/
theorem Kept.settle (h : c.Kept) (r : HostRequest) : Kept { c with waiting := c.waiting.filter (· ≠ r) } where
  distinct := h.distinct
  waiting_asked := fun q hq => h.waiting_asked q (mem_filter.mp hq).1
  requested_asked := h.requested_asked
  resolved_asked := h.resolved_asked
  unresolved := fun q hq => h.unresolved q (mem_filter.mp hq).1
  buffered := h.buffered
  kept := fun hstreaming q hq => h.kept hstreaming q (mem_filter.mp hq).1

/-- **A stream opens** with every waiting request. -/
theorem Kept.stream (h : c.Kept) {baseline : List Push} (hbaseline : Baseline c.waiting baseline) :
    Kept { c with streaming := true, mux := baseline } := by
  have hrequested : ∀ p ∈ baseline, ∀ r, p = .requested r ∨ p = .resolved r → p = .requested r ∧ r ∈ c.waiting := by
    rintro p hp r hr
    rcases hbaseline.2 p hp with hplain | ⟨q, hq, rfl⟩
    · rcases hr with rfl | rfl
      · exact hplain.elim
      · exact hplain.elim
    · rcases hr with hr | hr
      · obtain rfl := Push.requested.inj hr
        exact ⟨rfl, hq⟩
      · cases hr
  refine ⟨h.distinct, h.waiting_asked, ?_, ?_, ?_, h.buffered, fun _ r hr => inl (hbaseline.1 r hr)⟩
  · exact fun r hr => h.waiting_asked r (hrequested _ hr r (inl rfl)).2
  · intro r hr
    cases (hrequested _ hr r (inr rfl)).1
  · intro r _ hr
    cases (hrequested _ hr r (inr rfl)).1

/-- **The next frame reaches the client.** -/
theorem Kept.deliver (h : c.Kept) {mux : List Push} (hmux : c.mux = p :: mux) :
    Kept { c with manager := c.manager.handleMuxEnvelope p.envelope, mux } := by
  have hhead : p ∈ c.mux := by
    rw [hmux]
    exact mem_cons_self
  have htail : ∀ d ∈ mux, d ∈ c.mux := by
    rw [hmux]
    exact fun d hd => mem_cons_of_mem p hd
  refine ⟨h.distinct, h.waiting_asked, fun r hr => h.requested_asked r (htail _ hr),
    fun r hr => h.resolved_asked r (htail _ hr), fun r hr hmem => h.unresolved r hr (htail _ hmem), ?_, ?_⟩
  · intro sessionId
    refine buffered_handle (h.buffered sessionId) fun hsession hkey => ?_
    cases p with
    | requested q =>
      exact inr ⟨q, h.requested_asked q hhead, by rw [hsession]; exact q.requestedFrame_sessionId.symm, rfl⟩
    | resolved q =>
      refine absurd ?_ hkey
      rw [Push.envelope, HostRequest.resolvedFrame]
      split <;> rfl
    | queue _ => exact inl rfl
    | subscribed _ => exact absurd rfl hkey
  · intro hstreaming r hr
    have hr' := h.kept hstreaming r hr
    rw [hmux, mem_cons] at hr'
    cases p with
    | requested q =>
      by_cases heq : q = r
      · subst heq
        exact inr ⟨held_requestedFrame _ q,
          (listed_requestedFrame _ q q).mpr (inl ⟨rfl, rfl⟩)⟩
      · rcases hr' with (hself | hlater) | ⟨hheld, hlisted⟩
        · exact absurd (Push.requested.inj hself).symm heq
        · exact inl hlater
        · have hdistinct := h.distinct_of (h.requested_asked q hhead) hr heq
          exact inr ⟨hheld.requestedFrame hdistinct,
            (listed_requestedFrame _ q r).mpr (inr hlisted)⟩
    | resolved q =>
      have hne : q ≠ r := by
        rintro rfl
        exact h.unresolved q hr hhead
      rcases hr' with (hself | hlater) | ⟨hheld, hlisted⟩
      · cases hself
      · exact inl hlater
      · have hdistinct := h.distinct_of (h.resolved_asked q hhead) hr hne
        refine inr ⟨hheld.resolvedFrame hdistinct,
          (listed_resolvedFrame _ q r).mpr ⟨fun hboth => ?_, hlisted⟩⟩
        exact hdistinct.2 hboth.1.symm hboth.2.symm
    | queue sessionId =>
      rcases hr' with (hself | hlater) | ⟨hheld, hlisted⟩
      · cases hself
      · exact inl hlater
      · exact inr ⟨hheld.plain (p := .queue sessionId) trivial,
          (listed_plain (p := .queue sessionId) trivial).mpr hlisted⟩
    | subscribed sessionId =>
      rcases hr' with (hself | hlater) | ⟨hheld, hlisted⟩
      · cases hself
      · exact inl hlater
      · exact inr ⟨hheld.plain (p := .subscribed sessionId) trivial,
          (listed_plain (p := .subscribed sessionId) trivial).mpr hlisted⟩

/-- **A generation is lost**: nothing is on its way. -/
theorem Kept.lost {m : SessionManager} (h : c.Kept)
    (hm : ∀ sessionId, ∀ e ∈ m.pendingBuffers sessionId, e ∈ c.manager.pendingBuffers sessionId) :
    Kept { c with manager := m, mux := [], streaming := false, ready := false, reconnecting := true } where
  distinct := h.distinct
  waiting_asked := h.waiting_asked
  requested_asked := fun _ hr => (by cases hr)
  resolved_asked := fun _ hr => (by cases hr)
  unresolved := fun _ _ hr => (by cases hr)
  buffered := fun sessionId e he => h.buffered sessionId e (hm sessionId e he)
  kept := fun hno => (by cases hno)

/-- **The step lemma.** -/
theorem Kept.step (h : c.Kept) {a : Action} (hresyncs : c.ResyncsInTime a) (hstep : c.step a = some c') : c'.Kept := by
  cases a with
  | ask r =>
    rw [Connection.step] at hstep
    split at hstep
    · next hfresh =>
      cases hstep
      exact h.ask hfresh
    · cases hstep
  | settle r =>
    rw [Connection.step] at hstep
    split at hstep
    · next hwaits =>
      cases hstep
      refine (h.settle r).broadcast ?_ ?_
      · rintro q (hq | hq)
        · cases hq
        · obtain rfl := Push.resolved.inj hq
          exact h.waiting_asked r hwaits
      · intro q hq heq
        obtain rfl := Push.resolved.inj heq
        exact of_decide_eq_true (mem_filter.mp hq).2 rfl
    · cases hstep
  | push p =>
    rw [Connection.step] at hstep
    split at hstep
    · next hplain =>
      cases hstep
      refine h.broadcast ?_ ?_
      · rintro q (rfl | rfl) <;> exact hplain.elim
      · rintro q _ rfl
        exact hplain
    · cases hstep
  | stream baseline =>
    rw [Connection.step] at hstep
    split at hstep
    · next hopens =>
      cases hstep
      exact h.stream hopens.2
    · cases hstep
  | deliver =>
    rw [Connection.step] at hstep
    split at hstep
    · cases hstep
    · next p mux hmux =>
      cases hstep
      exact h.deliver hmux
  | connected =>
    rw [Connection.step] at hstep
    split at hstep
    · cases hstep
    · cases hstep
      refine h.manager h.buffered fun hstreaming r hr hheld hlisted => ?_
      by_cases hopened : Opened c.manager r.sessionId
      · exact inl (hresyncs hstreaming r hr hopened)
      · exact inr ⟨hheld.connected hopened, hlisted⟩
  | lost =>
    cases hstep
    refine h.lost fun sessionId e he => ?_
    split at he
    · exact he
    · exact (mem_filter.mp he).1
  | get sessionId =>
    cases hstep
    refine h.manager (fun other e he => ?_) fun hstreaming r hr hheld hlisted => inr ⟨?_, ?_⟩
    · refine h.buffered other e ?_
      unfold SessionManager.get at he
      split at he
      · exact he
      · dsimp only at he
        by_cases heq : other = sessionId
        · rw [heq, update_self] at he
          cases he
        · rwa [update_of_ne heq] at he
    · exact hheld.get sessionId (h.buffered r.sessionId) fun q hq => h.distinct q hq r (h.waiting_asked r hr)
    · unfold SessionManager.get
      split <;> exact hlisted
  | «open» sessionId =>
    cases hstep
    exact h.manager h.buffered fun _ r _ hheld hlisted =>
      inr ⟨hheld.withSession sessionId fun _ _ _ => rfl, hlisted⟩
  | readdress sessionId =>
    cases hstep
    refine h.manager h.buffered fun hstreaming r hr hheld hlisted => ?_
    by_cases hopened : r.sessionId = sessionId ∧ Opened c.manager r.sessionId
    · exact inl (hresyncs hstreaming r hr hopened.1 hopened.2)
    · exact inr ⟨hheld.resync sessionId fun heq hopen => hopened ⟨heq, hopen⟩, hlisted⟩

theorem Kept.start : Kept {} where
  distinct := fun _ hq => (by cases hq)
  waiting_asked := forall_mem_nil _
  requested_asked := fun _ hr => (by cases hr)
  resolved_asked := fun _ hr => (by cases hr)
  unresolved := forall_mem_nil _
  buffered := fun _ => forall_mem_nil _
  kept := fun hno => (by cases hno)

/-- **No answerable request is lost where resyncs come in time**: once the frames of the generation and its connected
notification are processed, every waiting request is on the list, and among the pending interactions of its session or
in its buffer. -/
theorem answerable_requests_kept {r : HostRequest} {actions : List Action} (hrun : Machine.exec Connection.step {} actions = some c)
    (hresyncs : Machine.Along Connection.step ResyncsInTime {} actions) (hsettled : c.Settled) (hr : r ∈ c.waiting) : c.manager.Held r ∧ c.manager.Listed r := by
  have hkept := Machine.exec_invariant_along
    (fun c a c' h hresync hstep => Kept.step (c := c) h hresync hstep) .start hrun hresyncs
  obtain ⟨hstreaming, -, hmux⟩ := hsettled
  refine (hkept.kept hstreaming r hr).resolve_left ?_
  rw [hmux]
  exact not_mem_nil

def allowBash : HostRequest := ⟨"rpc-1", "alpha", .approval { approvalId := "ask-1", toolName := "bash" }⟩

/-- After a reconnect the replay comes before the connected notification. -/
def replayedFirst : List Action :=
  [.stream [.subscribed "alpha"], .deliver, .connected, .get "alpha", .«open» "alpha", .ask allowBash, .deliver,
    .lost, .stream [.subscribed "alpha", .requested allowBash], .deliver, .deliver, .connected]

/-- The approval waits, the list shows it, and the session has nothing to answer. -/
theorem replayed_request_lost :
    ¬ ∀ c : Connection, Reachable c → c.Settled → ∀ r ∈ c.waiting, c.manager.Held r ↔ c.manager.Listed r := by
  intro hall
  obtain ⟨c, hc⟩ := isSome_iff_exists.mp
    (show (Machine.exec Connection.step {} replayedFirst).isSome = true by decide +kernel)
  have hstate : (Machine.exec Connection.step {} replayedFirst).map (fun c =>
      (c.waiting, decide c.Settled, decide (c.manager.Held allowBash), decide (c.manager.Listed allowBash)))
      = some ([allowBash], true, false, true) := by decide +kernel
  have hreached : Reachable c := Machine.exec_invariant (fun a _ _ _ hs hstep => .step a hs hstep) .start hc
  rw [hc, map_some, Option.some.injEq] at hstate
  simp only [Prod.mk.injEq] at hstate
  obtain ⟨hwaiting, hsettled, hheld, hlisted⟩ := hstate
  have hagree := hall c hreached (of_decide_eq_true hsettled) allowBash
    (by rw [hwaiting]; exact mem_singleton.mpr rfl)
  exact of_decide_eq_false hheld (hagree.mpr (of_decide_eq_true hlisted))

def connectedFirst : List Action :=
  [.stream [.subscribed "alpha"], .deliver, .connected, .get "alpha", .«open» "alpha", .ask allowBash, .deliver,
    .lost, .stream [.subscribed "alpha", .requested allowBash], .connected, .deliver, .deliver]

theorem answerable_requests_kept_connectedFirst : ∃ c, Machine.exec Connection.step {} connectedFirst = some c
      ∧ c.manager.Held allowBash ∧ c.manager.Listed allowBash := by
  obtain ⟨c, hc⟩ := isSome_iff_exists.mp
    (show (Machine.exec Connection.step {} connectedFirst).isSome = true by decide +kernel)
  have hstate : (Machine.exec Connection.step {} connectedFirst).map (fun c =>
      (c.waiting, decide c.Settled)) = some ([allowBash], true) := by decide +kernel
  rw [hc, map_some, Option.some.injEq, Prod.mk.injEq] at hstate
  refine ⟨c, hc, answerable_requests_kept hc (by decide +kernel) (of_decide_eq_true hstate.2) ?_⟩
  have hwaiting := hstate.1
  rw [hwaiting]
  exact mem_singleton.mpr rfl

end Connection

end CocoHarness.Client
