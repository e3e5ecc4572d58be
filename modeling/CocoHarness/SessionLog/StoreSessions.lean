/-
# CocoHarness.SessionLog.StoreSessions — the sessions of a store in every run.

A publication admits its event before its listeners run and enters it into the log after they are
resolved.  In between nothing else enters that log, because the entry is being appended to and its
session is attached through that entry alone; so the event is still admitted when it enters
(`Sound.resolve`), and every session of a store keeps a log the surface accepts.
-/
import CocoHarness.SessionLog.LogGrowth
import CocoHarness.SessionLog.StoreInvariant

namespace CocoHarness.SessionLog

open Lib List Option

/-! ## Sessions -/

/-- The session has a log that the surface accepts and a store can keep. -/
def Session.Kept (session : Session) : Prop := ∃ a, session.Represents a ∧ ∀ e ∈ a.log, Storable e

def Session.Admits (session : Session) (e : SessionEvent) : Prop :=
  Storable e ∧ ∃ state rs plan, surfaceAfter (eventsOf session.log) = .ok (state, rs)
    ∧ planSurfaceEvent state e (eventsOf session.log).length (eventsOf session.log) 0 = .ok plan

variable {session : Session}

theorem Session.Kept.withEntry (h : session.Kept) (entry : Option SessionEntry) :
    Session.Kept { session with entry } := by
  obtain ⟨a, hrep, hstorable⟩ := h
  exact ⟨_, hrep.withEntry entry, hstorable⟩

theorem Session.Kept.commit {event : EventRef} (h : session.Kept) (hevent : session.Admits event.event) :
    (session.commit event).Kept := by
  obtain ⟨a, hrep, hstorable⟩ := h
  obtain ⟨hnew, state, rs, plan, hlog, hplan⟩ := hevent
  rw [hrep.log] at hlog hplan
  refine ⟨_, hrep.commit event hlog hplan, fun e he => ?_⟩
  rcases mem_append.mp he with he | he
  · exact hstorable e he
  · rw [mem_singleton.mp he]
    exact hnew

theorem Session.Kept.admitAppend (h : session.Kept) (request : AppendRequest) : (session.admitAppend request).1.Kept
      ∧ eventsOf (session.admitAppend request).1.log = eventsOf session.log
      ∧ ∀ event, (session.admitAppend request).2 = .ok event → (session.admitAppend request).1.Admits event.event := by
  obtain ⟨a, hrep, hstorable⟩ := h
  obtain ⟨s', result, hresult, hrep', hmap, hplans⟩ := hrep.admitAppend request
  rw [hresult]
  refine ⟨⟨a, hrep', hstorable⟩, hrep'.log.trans hrep.log.symm, fun event hok => ?_⟩
  obtain ⟨state, rs, plan, hlog, hplan⟩ := hplans event hok
  have hadmit : a.admitAppend request = .ok event.event := by
    rw [← hmap, show result = .ok event from hok]
    rfl
  have hcandidate := ScratchSession.admit_candidate hadmit
  refine ⟨(candidate_spec hcandidate).2, state, rs, plan, ?_⟩
  show surfaceAfter (eventsOf s'.log) = _ ∧ planSurfaceEvent state event.event (eventsOf s'.log).length
    (eventsOf s'.log) 0 = _
  rw [hrep'.log]
  exact ⟨hlog, hplan⟩

theorem kept_of_create {id : String} {seed : Option (List JsValue)} {now : EpochMs}
    (h : Session.create id seed now = .ok session) : session.Kept := by
  obtain ⟨a, hrep, hrest⟩ := (Session.Reachable.create h).atRest
  exact ⟨a, hrep, hrest.storable⟩

namespace SessionStore

variable {s s' : SessionStore} {e : Nat}

/-! ## The invariant -/

/-- Every session is kept, and an event still being published is taken by its log. -/
structure Sound (s : SessionStore) : Prop where
  sessions : ∀ (ref : Nat) (session : Session), s.sessions[ref]? = some session → session.Kept
  pending : ∀ e event id ref (session : Session), Frame.event e event false ∈ s.frames →
    s.key e = some (id, ref) → s.sessions[ref]? = some session → session.Admits event.event

theorem Sound.empty : Sound {} := by
  refine ⟨fun ref session h => ?_, fun e event id ref session h => ?_⟩
  · cases h
  · cases h

theorem Sound.quiet (h : s.Sound) (hinv : s.Inv)
    (hsessions : ∀ (ref : Nat) (session' : Session), s'.sessions[ref]? = some session' →
      session'.Kept ∧ ∀ session : Session, s.sessions[ref]? = some session →
        eventsOf session'.log = eventsOf session.log)
    (hframes : ∀ e event, Frame.event e event false ∈ s'.frames → Frame.event e event false ∈ s.frames)
    (hkey : ∀ e event, Frame.event e event false ∈ s.frames → s'.key e = s.key e) : s'.Sound := by
  refine ⟨fun ref session hsession => (hsessions ref session hsession).1, ?_⟩
  intro e event id ref session' hframe hkey' hsession'
  have hframe' := hframes e event hframe
  rw [hkey e event hframe'] at hkey'
  obtain ⟨session, hsession, -⟩ := hinv.session e id ref hkey'
  have hadmits := h.pending e event id ref session hframe' hkey' hsession
  unfold Session.Admits at hadmits ⊢
  rwa [(hsessions ref session' hsession').2 session hsession]

theorem Sound.same (h : s.Sound) (hinv : s.Inv) (hsessions : s'.sessions = s.sessions)
    (hframes : ∀ e event, Frame.event e event false ∈ s'.frames → Frame.event e event false ∈ s.frames)
    (hkey : ∀ e event, Frame.event e event false ∈ s.frames → s'.key e = s.key e) : s'.Sound := by
  refine h.quiet hinv (fun ref session' hsession' => ?_) hframes hkey
  rw [hsessions] at hsession'
  refine ⟨h.sessions ref session' hsession', fun session hsession => ?_⟩
  rw [Option.some.inj (hsession'.symm.trans hsession)]

variable {event : EventRef} {committed : Bool}

theorem Inv.entry_of_frame (h : s.Inv) (hframe : Frame.event e event committed ∈ s.frames) : e < s.entries.length := by
  by_contra hge
  have htrace := h.unseen e (not_lt.mp hge)
  have hcount : s.frames.countP (·.isEvent e) = 0 := congrArg (fun t => t.2.1) htrace
  rw [countP_eq_zero] at hcount
  exact hcount _ hframe (by simp [Frame.isEvent])

/-! ## Steps that touch one entry -/

theorem sessions_detachEntered (s : SessionStore) (e : Nat) (entry : StoreEntry) :
    (s.detachEntered e entry).sessions = s.sessions := by
  unfold detachEntered
  dsimp only
  split
  · rfl
  · split <;> rfl

theorem frames_detachEntered (s : SessionStore) (e : Nat) (entry : StoreEntry) {frame : Frame}
    (h : frame ∈ (s.detachEntered e entry).frames) : frame = .disposed e ∨ frame ∈ s.frames := by
  unfold detachEntered at h
  dsimp only at h
  split at h
  · exact Or.inr h
  · split at h
    · exact mem_cons.mp h
    · exact Or.inr h

theorem event_of_disposed {e' : Nat} {frames : List Frame}
    (h : Frame.event e event committed = .disposed e' ∨ Frame.event e event committed ∈ frames) :
    Frame.event e event committed ∈ frames := by
  rcases h with h | h
  · cases h
  · exact h

theorem Sound.detach (h : s.Sound) (hinv : s.Inv) (entry : StoreEntry) : (s.detach e entry).Sound := by
  refine h.same hinv ?_ ?_ fun e' _ _ => (touches_detach s e entry).key e'
  · unfold SessionStore.detach
    split
    · rfl
    · dsimp only
      split
      · rfl
      · exact sessions_detachEntered _ _ _
  · intro e' event hframe
    unfold SessionStore.detach at hframe
    split at hframe
    · exact hframe
    · dsimp only at hframe
      split at hframe
      · exact hframe
      · have hrest := frames_detachEntered _ _ _ hframe
        exact event_of_disposed hrest

theorem Sound.announce (h : s.Sound) (hinv : s.Inv) (ref : Nat) (session : Session) :
    (s.announce ref session).1.Sound := by
  unfold SessionStore.announce
  split
  · exact h
  · next e entry hlive =>
    split
    · exact h
    · refine h.same hinv rfl ?_ fun e' _ _ => (((touches_setFlags s e _).trans (touches_push _ rfl)).trans
        (touches_tell _ rfl)).key e'
      intro e' event hframe
      rcases mem_cons.mp hframe with hframe | hframe
      · cases hframe
      · exact hframe

theorem Sound.unwind (h : s.Sound) (hinv : s.Inv) (hunwind : s.unwind = some s') : s'.Sound := by
  unfold SessionStore.unwind at hunwind
  split at hunwind
  · cases hunwind
  · next e frames hframes =>
    obtain ⟨entry, hentry, rfl⟩ := map_eq_some_iff.mp hunwind
    refine h.same hinv ?_ ?_ fun e' _ _ => ?_
    · unfold endAnnounce
      dsimp only
      split
      · exact sessions_detachEntered _ _ _
      · rfl
    · intro e' event hframe
      unfold endAnnounce at hframe
      dsimp only at hframe
      rw [hframes]
      refine mem_cons_of_mem _ ?_
      split at hframe
      · have hrest := frames_detachEntered _ _ _ hframe
        exact event_of_disposed hrest
      · exact hframe
    · unfold endAnnounce
      dsimp only
      split
      · exact ((touches_setFlags { s with frames } e _).trans (touches_detachEntered _ e entry)).key e'
      · exact (touches_setFlags { s with frames } e _).key e'
  · next e event committed frames hframes =>
    obtain ⟨entry, hentry, rfl⟩ := map_eq_some_iff.mp hunwind
    refine h.same hinv ?_ ?_ fun e' _ _ => ?_
    · unfold endAppend
      dsimp only
      split
      · exact sessions_detachEntered _ _ _
      · rfl
    · intro e' event hframe
      unfold endAppend at hframe
      dsimp only at hframe
      rw [hframes]
      refine mem_cons_of_mem _ ?_
      split at hframe
      · have hrest := frames_detachEntered _ _ _ hframe
        exact event_of_disposed hrest
      · exact hframe
    · unfold endAppend
      dsimp only
      split
      · exact ((touches_setFlags { s with frames } e _).trans (touches_detachEntered _ e entry)).key e'
      · exact (touches_setFlags { s with frames } e _).key e'
  · next e frames hframes =>
    cases hunwind
    refine h.same hinv rfl ?_ fun _ _ _ => rfl
    intro e' event hframe
    rw [hframes]
    exact mem_cons_of_mem _ hframe

/-! ## Sessions and entries are added -/

theorem Sound.prepare (h : s.Sound) (hinv : s.Inv) (id : String) (seed : Option (List JsValue))
    (now : EpochMs) : (s.prepare id seed now).1.Sound := by
  unfold SessionStore.prepare
  split
  · exact h
  · split
    · exact h
    · next made hmade =>
      refine h.quiet hinv (fun ref session' hsession' => ?_) (fun _ _ hframe => hframe) fun _ _ _ => rfl
      show session'.Kept ∧ _
      replace hsession' : (s.sessions ++ [made])[ref]? = some session' := hsession'
      rcases Nat.lt_or_ge ref s.sessions.length with hlt | hge
      · rw [getElem?_append_left hlt] at hsession'
        refine ⟨h.sessions ref session' hsession', fun session hsession => ?_⟩
        rw [Option.some.inj (hsession'.symm.trans hsession)]
      · rw [getElem?_append_right hge, getElem?_singleton] at hsession'
        split at hsession'
        · cases hsession'
          refine ⟨kept_of_create hmade, fun session hsession => ?_⟩
          rw [getElem?_eq_none hge] at hsession
          cases hsession
        · cases hsession'

theorem Sound.enter (h : s.Sound) (hinv : s.Inv) (ref : Nat) (session : Session) : (s.enter ref session).1.Sound := by
  unfold SessionStore.enter
  split
  · exact h
  · split
    · exact h
    · refine h.same hinv rfl (fun _ _ hframe => hframe) fun e event hframe => ?_
      rw [key_add, if_neg (hinv.entry_of_frame hframe).ne]

/-! ## Appends -/

variable {ref : Nat}

theorem sessions_setSession (hkept : session.Kept) (h : s.Sound)
    (hlog : ∀ old : Session, s.sessions[ref]? = some old → eventsOf session.log = eventsOf old.log) :
    ∀ (r : Nat) (session' : Session), (s.setSession ref session).sessions[r]? = some session' →
      session'.Kept ∧ ∀ old : Session, s.sessions[r]? = some old → eventsOf session'.log = eventsOf old.log := by
  intro r session' hsession'
  replace hsession' : (s.sessions.set ref { session with entry := none })[r]? = some session' := hsession'
  rw [getElem?_set] at hsession'
  split at hsession'
  · next heq =>
    subst heq
    split at hsession'
    · cases hsession'
      exact ⟨hkept.withEntry none, hlog⟩
    · cases hsession'
  · refine ⟨h.sessions r session' hsession', fun old hold => ?_⟩
    rw [Option.some.inj (hsession'.symm.trans hold)]

theorem Inv.attached_of_frame (h : s.Inv) (hframe : Frame.event e event committed ∈ s.frames)
    {id : String} (hkey : s.key e = some (id, ref)) :
    s.attachments.lookup ref = some e := by
  obtain ⟨entry, hentry, hpair⟩ := map_eq_some_iff.mp hkey
  cases hpair
  have hbusy : s.Busy e := ⟨_, hframe, Or.inr (by simp [Frame.isEvent])⟩
  obtain ⟨_, -, -, hattached⟩ := get_of_busy h hentry hbusy
  exact hattached

theorem Sound.append (h : s.Sound) (hinv : s.Inv)
    (hsession : s.sessions[ref]? = some session) (request : AppendRequest) :
    (s.append ref session request).1.Sound := by
  obtain ⟨hkept, hlog, hadmits⟩ :=
    ((h.sessions ref session hsession).withEntry (s.attachment ref)).admitAppend request
  have hclosed := (Session.admitAppend_spec ({ session with entry := s.attachment ref } : Session) request).2
  replace hlog : ∀ old : Session, s.sessions[ref]? = some old →
      eventsOf (({ session with entry := s.attachment ref } : Session).admitAppend request).1.log
        = eventsOf old.log := by
    intro old hold
    rw [hlog, ← Option.some.inj (hsession.symm.trans hold)]
    rfl
  unfold SessionStore.append
  generalize ({ session with entry := s.attachment ref } : Session).admitAppend request = admitted
    at hkept hlog hadmits hclosed
  obtain ⟨session', result⟩ := admitted
  cases result with
  | error err => exact h.quiet hinv (sessions_setSession hkept h hlog) (fun _ _ hframe => hframe) fun _ _ _ => rfl
  | ok event =>
    have hevent := hadmits event rfl
    dsimp only
    cases hattached : s.attachments.lookup ref with
    | none =>
      -- no publication of this session is in progress
      refine ⟨fun r session₁ hsession₁ => ?_, fun e event' id r session₁ hframe hkey hsession₁ => ?_⟩
      · replace hsession₁ : (s.sessions.set ref { session'.commit event with entry := none })[r]?
            = some session₁ := hsession₁
        rw [getElem?_set] at hsession₁
        split at hsession₁
        · split at hsession₁
          · cases hsession₁
            exact (hkept.commit hevent).withEntry none
          · cases hsession₁
        · exact h.sessions r session₁ hsession₁
      · have hne : ref ≠ r := by
          rintro rfl
          have := hinv.attached_of_frame hframe hkey
          rw [hattached] at this
          cases this
        replace hsession₁ : (s.sessions.set ref { session'.commit event with entry := none })[r]?
            = some session₁ := hsession₁
        rw [getElem?_set_ne hne] at hsession₁
        exact h.pending e event' id r session₁ hframe hkey hsession₁
    | some e =>
      have hquiet : (s.setSession ref session').Sound :=
        h.quiet hinv (sessions_setSession hkept h hlog) (fun _ _ hframe => hframe) fun _ _ _ => rfl
      refine ⟨hquiet.sessions, fun e' event' id r session₁ hframe hkey hsession₁ => ?_⟩
      replace hkey : s.key e' = some (id, r) := by
        rw [← hkey]
        exact ((touches_setFlags (s.setSession ref session') e _).key e').symm
      rcases mem_cons.mp hframe with hframe | hframe
      · -- the publication that begins
        obtain ⟨rfl, rfl, -⟩ := Frame.event.inj hframe
        obtain ⟨id', hkey', -⟩ := (hinv.attachment ref e').mp hattached
        obtain ⟨-, rfl⟩ := Prod.mk.inj (Option.some.inj (hkey.symm.trans hkey'))
        replace hsession₁ : (s.sessions.set r { session' with entry := none })[r]? = some session₁ := hsession₁
        rw [List.getElem?_set_self (List.getElem?_eq_some_iff.mp hsession).1] at hsession₁
        cases hsession₁
        exact hevent
      · exact hquiet.pending e' event' id r session₁ hframe hkey hsession₁

/-- **The event enters the log**, which still takes it. -/
theorem Sound.resolve (h : s.Sound) (hinv : s.Inv) (hresolve : s.resolve = some s') : s'.Sound := by
  unfold SessionStore.resolve at hresolve
  split at hresolve
  · next e event frames hframes =>
    obtain ⟨entry, hentry, hresolve⟩ := bind_eq_some_iff.mp hresolve
    obtain ⟨session, hsession, hresolve⟩ := bind_eq_some_iff.mp hresolve
    cases hresolve
    have hkey := key_eq hentry
    have hmine : Frame.event e event false ∈ s.frames := by
      rw [hframes]
      exact mem_cons_self
    have hadmits := h.pending e event entry.id entry.session session hmine hkey hsession
    refine ⟨fun r session₁ hsession₁ => ?_, fun e' event' id r session₁ hframe hkey' hsession₁ => ?_⟩
    · replace hsession₁ : (s.sessions.set entry.session { session.commit event with entry := none })[r]?
          = some session₁ := hsession₁
      rw [getElem?_set] at hsession₁
      split at hsession₁
      · split at hsession₁
        · cases hsession₁
          exact ((h.sessions _ session hsession).commit hadmits).withEntry none
        · cases hsession₁
      · exact h.sessions r session₁ hsession₁
    · -- what was pending before is of another session
      have hrest : Frame.event e' event' false ∈ frames := by
        rcases mem_cons.mp hframe with hframe | hframe
        · cases hframe
        · exact hframe
      have hbefore : Frame.event e' event' false ∈ s.frames := by
        rw [hframes]
        exact mem_cons_of_mem _ hrest
      have hne : entry.session ≠ r := by
        rintro rfl
        have hsame : e' = e := by
          have hattached := hinv.attached_of_frame hmine hkey
          have hattached' := hinv.attached_of_frame hbefore hkey'
          exact Option.some.inj (hattached'.symm.trans hattached)
        subst hsame
        have hcount := (hinv.lifecycle e' _ (view_eq hentry)).appending
        have htwo : 2 ≤ s.frames.countP (·.isEvent e') := by
          rw [hframes, countP_cons_of_pos (by simp [Frame.isEvent])]
          have : 0 < frames.countP (·.isEvent e') := countP_pos_iff.mpr ⟨_, hrest, by simp [Frame.isEvent]⟩
          omega
        replace hcount : s.frames.countP (·.isEvent e') = if entry.flags.appending then 1 else 0 := hcount
        split at hcount <;> omega
      replace hsession₁ : (s.sessions.set entry.session { session.commit event with entry := none })[r]?
          = some session₁ := hsession₁
      rw [getElem?_set_ne hne] at hsession₁
      exact h.pending e' event' id r session₁ hbefore hkey' hsession₁
  · cases hresolve

/-! ## Runs -/

/-- **The step lemma.** -/
theorem Sound.step (h : s.Sound) (hinv : s.Inv) {act : StoreAct} (hstep : s.step act = some s') : s'.Sound := by
  cases act with
  | prepare id seed now =>
    cases hstep
    exact h.prepare hinv id seed now
  | enter ref =>
    obtain ⟨session, hsession, rfl⟩ := map_eq_some_iff.mp hstep
    exact h.enter hinv ref session
  | announce ref =>
    obtain ⟨session, hsession, rfl⟩ := map_eq_some_iff.mp hstep
    exact h.announce hinv ref session
  | append ref request =>
    obtain ⟨session, hsession, rfl⟩ := map_eq_some_iff.mp hstep
    exact h.append hinv hsession request
  | resolve => exact h.resolve hinv hstep
  | detach e =>
    obtain ⟨entry, hentry, rfl⟩ := map_eq_some_iff.mp hstep
    exact h.detach hinv entry
  | unwind => exact h.unwind hinv hstep

/-- **The run lemma**: the sessions of a store are kept. -/
theorem Sound.run {acts : List StoreAct} (hrun : Machine.exec SessionStore.step {} acts = some s) : s.Inv ∧ s.Sound :=
  Machine.exec_invariant (I := fun s => s.Inv ∧ s.Sound)
    (fun _ _ _ _ h hstep => ⟨h.1.step hstep, h.2.step h.1 hstep⟩) ⟨Inv.empty, Sound.empty⟩ hrun

end SessionStore

end CocoHarness.SessionLog
