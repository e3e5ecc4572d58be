/-
# CocoHarness.SessionLog.StoreInvariant — the lifecycle invariant holds in every run of the store.

Each operation, and each dispatch that ends, is one transition of one entry's lifecycle and keeps the
store invariant; so it holds wherever a run leads, in whatever order listeners call, detach, re-enter
and throw.
-/
import CocoHarness.SessionLog.StoreLifecycle

namespace CocoHarness.SessionLog

open Lib Option List Lifecycle InsertionMap

namespace SessionStore

variable {s s' : SessionStore} {e : Nat}

/-! ## Every operation keeps the invariant -/

variable {entry : StoreEntry}

theorem view_eq (hentry : s.entries[e]? = some entry) :
    s.view e = some (s.lifecycleOf e entry) := by rw [view, hentry, map_some]

theorem key_eq (hentry : s.entries[e]? = some entry) :
    s.key e = some (entry.id, entry.session) := by rw [key, hentry, map_some]

theorem lookup_of_attached (h : (s.lifecycleOf e entry).attached = true) :
    s.store.lookup entry.id = some e := beq_iff_eq.mp h

/-- An operation on the entry `e`, seen from it as `l`, keeps the invariant when `l` does. -/
theorem Inv.update_view (h : s.Inv) (hentry : s.entries[e]? = some entry) (ht : s.Touches s' e)
    (htables : s.Tables s' e) {l : Lifecycle} (hview : s'.view e = some l) (hl : l.Inv) : s'.Inv :=
  h.update (List.getElem?_eq_some_iff.mp hentry).1 ht htables fun l' hl' => by
    cases hview.symm.trans hl'
    exact hl

/-- **The capability.** -/
theorem view_detach (h : s.Inv) (hentry : s.entries[e]? = some entry) :
    (s.detach e entry).view e = some (s.lifecycleOf e entry).detach := by
  rw [detach]
  split
  · next hspent => exact (view_eq hentry).trans (congrArg some (detach_spent hspent).symm)
  · next hentered =>
    have hentered' : entry.flags.entered = true := not_not.mp hentered
    split
    · next hbusy =>
      rw [detach_busy hentered' hbusy, view_setFlags, view_setFlags, view_eq hentry]
      rfl
    · next hidle =>
      rw [detach_idle hentered' hidle]
      have hattached : (s.lifecycleOf e entry).attached = true :=
        (h.lifecycle e _ (view_eq hentry)).attached.mpr (.inl hentered')
      refine view_detachEntered ?_ (lookup_of_attached hattached) ?_ rfl
      · rw [(touches_setFlags s e _).key]
        exact key_eq hentry
      · rw [view_setFlags, view_eq hentry]
        rfl

theorem touches_detach (s : SessionStore) (e : Nat) (entry : StoreEntry) : s.Touches (s.detach e entry) e := by
  have hflags := s.touches_setFlags e fun flags => { flags with entered := false }
  rw [detach]
  split
  · exact .refl s e
  · split
    · exact hflags.trans (touches_setFlags _ e _)
    · exact hflags.trans (touches_detachEntered _ e entry)

theorem tables_detach (hentry : s.entries[e]? = some entry) : s.Tables (s.detach e entry) e := by
  rw [detach]
  split
  · exact .inl ⟨rfl, rfl⟩
  · split
    · exact .inl ⟨rfl, rfl⟩
    · exact (tables_detachEntered (((touches_setFlags s e _).key e).trans (key_eq hentry))).of_eq
        ((touches_setFlags s e _).key e) rfl rfl

theorem Inv.detach (h : s.Inv) (hentry : s.entries[e]? = some entry) : (s.detach e entry).Inv :=
  h.update_view hentry (touches_detach s e entry) (tables_detach hentry) (view_detach h hentry)
    (h.lifecycle e _ (view_eq hentry)).detach

/-- **The announcement begins.** -/
theorem Inv.announce (h : s.Inv) (ref : Nat) (session : Session) : (s.announce ref session).1.Inv := by
  rw [SessionStore.announce]
  cases hlive : s.liveEntryFor ref session with
  | error _ => exact h
  | ok found =>
    obtain ⟨e, entry⟩ := found
    obtain ⟨hentry, hlookup⟩ := liveEntryFor_ok hlive
    have hinv := h.lifecycle e _ (view_eq hentry)
    simp only
    split
    · exact h
    · next hfresh =>
      have hannounced : entry.flags.announced = false := by
        rw [Bool.or_eq_true, not_or] at hfresh
        simpa using hfresh.1
      refine h.update_view hentry (((touches_setFlags s e _).trans (touches_push _ rfl)).trans
        (touches_tell _ rfl)) (.inl ⟨rfl, rfl⟩) (l := (s.lifecycleOf e entry).announce) ?_
        (hinv.announce (beq_iff_eq.mpr hlookup) hannounced)
      rw [view_tell_created, view_push_created, view_setFlags, view_eq hentry]
      rfl

/-! ### Dispatches end -/

section Unwind

variable {frames : List Frame} {entry : StoreEntry}

theorem view_pop_created (hframes : s.frames = .created e :: frames) : ({ s with frames } : SessionStore).view e
      = (s.view e).map fun l => { l with announcements := l.announcements - 1 } := by
  have hpush := view_push_created { s with frames } e
  have hs : ({ s with frames } : SessionStore).push (.created e) = s := by rw [push, ← hframes]
  rw [hs] at hpush
  rw [hpush]
  cases ({ s with frames } : SessionStore).view e <;> simp

variable {event : EventRef} {committed : Bool}

theorem view_pop_event (hframes : s.frames = .event e event committed :: frames) :
    ({ s with frames } : SessionStore).view e
      = (s.view e).map fun l => { l with publications := l.publications - 1 } := by
  have hpush := view_push_event { s with frames } e event committed
  have hs : ({ s with frames } : SessionStore).push (.event e event committed) = s := by rw [push, ← hframes]
  rw [hs] at hpush
  rw [hpush]
  cases ({ s with frames } : SessionStore).view e <;> simp

theorem announcing_of_frame (h : s.Inv) (hentry : s.entries[e]? = some entry)
    (hframes : s.frames = .created e :: frames) : entry.flags.announcing = true := by
  have hcount := (h.lifecycle e _ (view_eq hentry)).announcing
  by_contra hno
  simp [lifecycleOf, hframes, hno] at hcount

theorem appending_of_frame (h : s.Inv) (hentry : s.entries[e]? = some entry)
    (hframes : s.frames = .event e event committed :: frames) : entry.flags.appending = true := by
  have hcount := (h.lifecycle e _ (view_eq hentry)).appending
  by_contra hno
  simp [lifecycleOf, hframes, hno] at hcount

theorem view_endAnnounce (h : s.Inv) (hentry : s.entries[e]? = some entry)
    (hframes : s.frames = .created e :: frames) :
    (({ s with frames } : SessionStore).endAnnounce e entry).view e = some (s.lifecycleOf e entry).endAnnounce := by
  have hinv := h.lifecycle e _ (view_eq hentry)
  have hlive := lookup_of_attached (hinv.busy (.inl (announcing_of_frame h hentry hframes)))
  have hpopped : (({ s with frames } : SessionStore).setFlags e fun flags =>
      { flags with announcing := false }).view e = some { s.lifecycleOf e entry with
        flags := { entry.flags with announcing := false }
        announcements := (s.lifecycleOf e entry).announcements - 1 } := by
    rw [view_setFlags, view_pop_created hframes, view_eq hentry]
    rfl
  rw [endAnnounce]
  split
  · next hleave =>
    rw [endAnnounce_leave hleave]
    refine view_detachEntered ?_ hlive hpopped rfl
    rw [(touches_setFlags _ e _).key]
    exact key_eq hentry
  · next hstay =>
    rw [endAnnounce_stay hstay]
    exact hpopped

theorem view_endAppend (h : s.Inv) (hentry : s.entries[e]? = some entry)
    (hframes : s.frames = .event e event committed :: frames) :
    (({ s with frames } : SessionStore).endAppend e entry).view e = some (s.lifecycleOf e entry).endAppend := by
  have hinv := h.lifecycle e _ (view_eq hentry)
  have hlive := lookup_of_attached (hinv.busy (.inr (appending_of_frame h hentry hframes)))
  have hpopped : (({ s with frames } : SessionStore).setFlags e fun flags =>
      { flags with appending := false }).view e = some { s.lifecycleOf e entry with
        flags := { entry.flags with appending := false }
        publications := (s.lifecycleOf e entry).publications - 1 } := by
    rw [view_setFlags, view_pop_event hframes, view_eq hentry]
    rfl
  rw [endAppend]
  split
  · next hleave =>
    rw [endAppend_leave hleave]
    refine view_detachEntered ?_ hlive hpopped rfl
    rw [(touches_setFlags _ e _).key]
    exact key_eq hentry
  · next hstay =>
    rw [endAppend_stay hstay]
    exact hpopped

theorem touches_finally (s : SessionStore) (e : Nat) (entry : StoreEntry)
    (f : SessionEntry → SessionEntry) (c : Bool) :
    s.Touches (if c then (s.setFlags e f).detachEntered e entry else s.setFlags e f) e := by
  have hflags := s.touches_setFlags e f
  split
  · exact hflags.trans (touches_detachEntered _ e entry)
  · exact hflags

theorem tables_finally (hkey : s.key e = some (entry.id, entry.session)) (f : SessionEntry → SessionEntry) (c : Bool) :
    s.Tables (if c then (s.setFlags e f).detachEntered e entry else s.setFlags e f) e := by
  have hkey' := (touches_setFlags s e f).key e
  split
  · exact (tables_detachEntered (hkey'.trans hkey)).of_eq hkey' rfl rfl
  · exact .inl ⟨rfl, rfl⟩

/-- **The innermost dispatch ends.** -/
theorem Inv.unwind (h : s.Inv) (hunwind : s.unwind = some s') : s'.Inv := by
  rw [SessionStore.unwind] at hunwind
  split at hunwind
  · cases hunwind
  · next e frames hframes =>
    obtain ⟨entry, hentry, rfl⟩ := map_eq_some_iff.mp hunwind
    have hannouncing := announcing_of_frame h hentry hframes
    refine h.update_view hentry ((touches_pop hframes rfl).trans (touches_finally _ e entry _ _))
      ((tables_finally (s := { s with frames }) (key_eq hentry) _ _).of_eq rfl rfl rfl) (view_endAnnounce h hentry hframes)
      ((h.lifecycle e _ (view_eq hentry)).endAnnounce hannouncing)
  · next e event committed frames hframes =>
    obtain ⟨entry, hentry, rfl⟩ := map_eq_some_iff.mp hunwind
    have happending := appending_of_frame h hentry hframes
    refine h.update_view hentry ((touches_pop hframes rfl).trans (touches_finally _ e entry _ _))
      ((tables_finally (s := { s with frames }) (key_eq hentry) _ _).of_eq rfl rfl rfl) (view_endAppend h hentry hframes)
      ((h.lifecycle e _ (view_eq hentry)).endAppend happending)
  · next e frames hframes =>
    cases hunwind
    refine h.quiet rfl rfl rfl (fun e' => ?_) fun _ session hsession => ⟨session, hsession, rfl⟩
    simp [traceOf, hframes]

end Unwind

/-! ### Appends -/

variable {ref : Nat} {session : Session}

theorem Inv.setSession (h : s.Inv) {old : Session} (hold : s.sessions[ref]? = some old)
    (hid : session.id = old.id) : (s.setSession ref session).Inv :=
  h.quiet rfl rfl rfl (fun _ => rfl) (touches_setSession s 0 hold hid).sessions

/-- **An append begins.** -/
theorem Inv.append (h : s.Inv) (hsession : s.sessions[ref]? = some session) (request : AppendRequest) :
    (s.append ref session request).1.Inv := by
  rw [SessionStore.append]
  obtain ⟨hid, hclosed⟩ := Session.admitAppend_spec
    ({ session with entry := s.attachment ref } : Session) request
  split
  · next session' error hadmitted =>
    rw [hadmitted] at hid
    exact h.setSession hsession hid
  · next session' event hadmitted =>
    rw [hadmitted] at hid hclosed
    split
    · exact h.setSession hsession hid
    · next e hattached =>
      obtain ⟨id, hkey, hlive⟩ := (h.attachment ref e).mp hattached
      obtain ⟨entry, hentry, hpair⟩ := map_eq_some_iff.mp hkey
      cases hpair
      have happending : entry.flags.appending = false := by
        simpa [isAppending, SessionStore.attachment, hattached, hentry] using hclosed event rfl
      have hinv := h.lifecycle e _ (view_eq hentry)
      refine h.update_view hentry (((touches_setSession s e hsession hid).trans
        (touches_setFlags _ e _)).trans (touches_push _ rfl)) (.inl ⟨rfl, rfl⟩)
        (l := (s.lifecycleOf e entry).append) ?_ (hinv.append (beq_iff_eq.mpr hlive) happending)
      rw [view_push_event, view_setFlags, view_setSession, view_eq hentry]
      rfl

/-- **The event enters the log.** -/
theorem Inv.resolve (h : s.Inv) (hresolve : s.resolve = some s') : s'.Inv := by
  rw [SessionStore.resolve] at hresolve
  split at hresolve
  · next e event frames hframes =>
    obtain ⟨entry, hentry, hresolve⟩ := bind_eq_some_iff.mp hresolve
    obtain ⟨session, hsession, hresolve⟩ := bind_eq_some_iff.mp hresolve
    cases hresolve
    have htouches : s.Touches (s.setSession entry.session (session.commit event)) e :=
      touches_setSession s e hsession rfl
    refine h.quiet rfl rfl rfl (fun e' => ?_) htouches.sessions
    simp [traceOf, commitEvent, push, tell, SessionStore.setSession, hframes, countP_cons]
  · cases hresolve

/-! ### Sessions and entries are added -/

theorem Inv.prepare (h : s.Inv) (id : String) (seed : Option (List JsValue)) (now : EpochMs) :
    (s.prepare id seed now).1.Inv := by
  rw [SessionStore.prepare]
  split
  · exact h
  · split
    · exact h
    · next session _ =>
      refine h.quiet rfl rfl rfl (fun _ => rfl) fun ref session' hsession' => ⟨session', ?_, rfl⟩
      exact List.getElem?_append_left (List.getElem?_eq_some_iff.mp hsession').1 ▸ hsession'

theorem key_add (s : SessionStore) (ref : Nat) (id : String) (e : Nat) :
    (s.add ref id).key e = if e = s.entries.length then some (id, ref) else s.key e := by
  simp only [key, add]
  split
  · next he => simp [he]
  · next he =>
    rcases Nat.lt_or_gt_of_ne he with hlt | hgt
    · rw [List.getElem?_append_left hlt]
    · rw [getElem?_eq_none (by simp; omega), getElem?_eq_none (by omega)]

variable {id : String}

theorem view_add_of_ne (hid : s.store.lookup id = none) (hne : e ≠ s.entries.length) :
    (s.add ref id).view e = s.view e := by
  simp only [view, add]
  rcases Nat.lt_or_gt_of_ne hne with hlt | hgt
  · rw [List.getElem?_append_left hlt, getElem?_eq_getElem hlt]
    simp only [map_some, lifecycleOf, lookup_set]
    have hlive : ((if s.entries[e].id = id then some s.entries.length else s.store.lookup s.entries[e].id)
        == some e) = (s.store.lookup s.entries[e].id == some e) := by
      split
      · next heq => simp [heq, hid, hne.symm]
      · rfl
    rw [hlive]
  · rw [getElem?_eq_none (by simp; omega), getElem?_eq_none (by omega)]
    rfl

theorem view_add_self (h : s.Inv) (ref : Nat) (id : String) : (s.add ref id).view s.entries.length = some .fresh := by
  have hunseen := h.unseen s.entries.length le_rfl
  simp only [traceOf, Prod.mk.injEq] at hunseen
  obtain ⟨hcreated, hevent, hcreated', hdisposed⟩ := hunseen
  simp [view, add, lifecycleOf, fresh, lookup_set, hcreated, hevent, hcreated', hdisposed]

theorem Inv.attachment_add (h : s.Inv) (hid : s.store.lookup id = none)
    (href : s.attachments.lookup ref = none) (ref' e : Nat) :
    (s.add ref id).attachments.lookup ref' = some e ↔
      ∃ id', (s.add ref id).key e = some (id', ref') ∧ (s.add ref id).store.lookup id' = some e := by
  have hnokey : s.key s.entries.length = none := by simp [key]
  simp only [key_add]
  simp only [SessionStore.add, lookup_set]
  by_cases he : e = s.entries.length
  · subst he
    have hunused : s.attachments.lookup ref' ≠ some s.entries.length := fun hattached => by
      obtain ⟨_, hkey, -⟩ := (h.attachment ref' _).mp hattached
      rw [hnokey] at hkey
      cases hkey
    by_cases href' : ref' = ref
    · subst href'
      simp
    · simp [href', Ne.symm href', hunused]
  · by_cases href' : ref' = ref
    · subst href'
      simp only [if_true, if_neg he, Option.some.injEq]
      refine ⟨fun heq => absurd heq.symm he, ?_⟩
      rintro ⟨id', hkey, hlookup⟩
      split at hlookup
      · exact (Option.some.inj hlookup)
      · have hattached := (h.attachment ref' e).mpr ⟨id', hkey, hlookup⟩
        rw [href] at hattached
        cases hattached
    · rw [if_neg href', if_neg he, h.attachment ref' e]
      refine exists_congr fun id' => and_congr_right fun _ => ?_
      split
      · next heq =>
        rw [heq, hid]
        simpa using Ne.symm he
      · rfl

/-- **A session enters.** -/
theorem Inv.add (h : s.Inv) (hsession : s.sessions[ref]? = some session)
    (hid : s.store.lookup session.id = none) (href : s.attachments.lookup ref = none) :
    (s.add ref session.id).Inv := by
  have hnokey : s.key s.entries.length = none := by simp [key]
  constructor
  · intro e l hview
    by_cases he : e = s.entries.length
    · rw [he, view_add_self h] at hview
      cases hview
      exact .fresh
    · rw [view_add_of_ne hid he] at hview
      exact h.lifecycle e l hview
  · exact h.attachment_add hid href
  · intro id e hlookup
    rw [key_add]
    simp only [SessionStore.add, lookup_set] at hlookup
    split at hlookup
    · next heq =>
      cases hlookup
      exact ⟨ref, by simp [heq]⟩
    · obtain ⟨ref', hkey⟩ := h.stored id e hlookup
      refine ⟨ref', ?_⟩
      rw [if_neg, hkey]
      rintro rfl
      rw [hnokey] at hkey
      cases hkey
  · intro e id ref' hkey
    rw [key_add] at hkey
    split at hkey
    · cases Option.some.inj hkey
      exact ⟨session, hsession, rfl⟩
    · exact h.session e id ref' hkey
  · intro e hle
    refine h.unseen e ?_
    simp only [SessionStore.add, length_append, length_singleton] at hle
    omega

theorem Inv.enter (h : s.Inv) (hsession : s.sessions[ref]? = some session) : (s.enter ref session).1.Inv := by
  rw [SessionStore.enter]
  split
  · exact h
  · next hid =>
    split
    · exact h
    · next href => exact h.add hsession (by simpa using hid) (by simpa using href)

/-! ## Runs -/

variable {act : StoreAct}

/-- **The step lemma.** -/
theorem Inv.step (h : s.Inv) (hstep : s.step act = some s') : s'.Inv := by
  cases act with
  | prepare id seed now =>
    cases hstep
    exact h.prepare id seed now
  | enter ref =>
    obtain ⟨session, hsession, rfl⟩ := map_eq_some_iff.mp hstep
    exact h.enter hsession
  | announce ref =>
    obtain ⟨session, hsession, rfl⟩ := map_eq_some_iff.mp hstep
    exact h.announce ref session
  | append ref request =>
    obtain ⟨session, hsession, rfl⟩ := map_eq_some_iff.mp hstep
    exact h.append hsession request
  | resolve => exact h.resolve hstep
  | detach e =>
    obtain ⟨entry, hentry, rfl⟩ := map_eq_some_iff.mp hstep
    exact h.detach hentry
  | unwind => exact h.unwind hstep

variable {acts : List StoreAct}

/-- **The run lemma.** -/
theorem Inv.run (hrun : Machine.exec SessionStore.step {} acts = some s) : s.Inv :=
  Machine.exec_invariant (fun _ _ _ _ h hstep => h.step hstep) Inv.empty hrun

/-! ## What a session reads through the store -/

/-! ## Capabilities used -/

def entered (s : SessionStore) (e : Nat) : Option Bool := s.entries[e]?.map (·.flags.entered)

variable {f : SessionEntry → SessionEntry}

theorem entered_setFlags (s : SessionStore) (e : Nat)
    (hf : ∀ flags, (f flags).entered = flags.entered) : (s.setFlags e f).entered = s.entered := by
  funext e'
  simp only [entered, setFlags, getElem?_modify]
  cases s.entries[e']? with
  | none => rfl
  | some entry => split <;> simp [hf]

theorem entered_detachEntered (s : SessionStore) (e : Nat) (entry : StoreEntry) :
    (s.detachEntered e entry).entered = s.entered := by
  have hflags := s.entered_setFlags e (f := fun flags => { flags with detachRequested := false })
    fun _ => rfl
  rw [detachEntered]
  split
  · exact hflags
  · split <;> exact hflags

theorem entered_finally (s : SessionStore) (e : Nat) (entry : StoreEntry) (hf : ∀ flags, (f flags).entered = flags.entered) (c : Bool) :
    (if c then (s.setFlags e f).detachEntered e entry else s.setFlags e f).entered = s.entered := by
  split
  · rw [entered_detachEntered, entered_setFlags s e hf]
  · exact entered_setFlags s e hf

theorem entered_announced (s : SessionStore) (e : Nat) :
    (s.setFlags e fun flags => { flags with announced := true, announcing := true }).entered
      = s.entered := entered_setFlags s e fun _ => rfl

theorem entered_endAnnounce (s : SessionStore) (e : Nat) (entry : StoreEntry) :
    (s.endAnnounce e entry).entered = s.entered :=
  entered_finally s e entry (f := fun flags => { flags with announcing := false }) (fun _ => rfl) _

theorem entered_endAppend (s : SessionStore) (e : Nat) (entry : StoreEntry) :
    (s.endAppend e entry).entered = s.entered :=
  entered_finally s e entry (f := fun flags => { flags with appending := false }) (fun _ => rfl) _

theorem entered_detach (hentry : s.entries[e]? = some entry) (e' : Nat) :
    (s.detach e entry).entered e' = if e' = e then some false else s.entered e' := by
  rw [detach]
  split
  · next hspent =>
    split
    · next he => simpa [entered, he, hentry] using hspent
    · rfl
  · have hspent : (s.setFlags e fun flags => { flags with entered := false }).entered e'
        = if e' = e then some false else s.entered e' := by
      simp only [entered, setFlags, getElem?_modify]
      by_cases he : e' = e
      · simp [he, hentry]
      · simp [he, Ne.symm he]
    split
    · rw [entered_setFlags]
      · exact hspent
      · exact fun _ => rfl
    · rw [entered_detachEntered]
      exact hspent

theorem entered_add (s : SessionStore) (ref : Nat) (id : String) (e : Nat) :
    (s.add ref id).entered e = some false ↔ s.entered e = some false := by
  simp only [entered, add]
  rcases Nat.lt_trichotomy e s.entries.length with hlt | rfl | hgt
  · rw [List.getElem?_append_left hlt]
  · simp
  · rw [getElem?_eq_none (by simp; omega), getElem?_eq_none (by omega)]

theorem entered_step (hstep : s.step act = some s') (hact : act ≠ .detach e) :
    s'.entered e = some false ↔ s.entered e = some false := by
  cases act with
  | prepare id seed now =>
    cases hstep
    rw [prepare]
    split
    · rfl
    · split <;> rfl
  | enter ref =>
    obtain ⟨session, hsession, rfl⟩ := map_eq_some_iff.mp hstep
    rw [enter]
    split
    · rfl
    · split
      · rfl
      · exact entered_add s ref session.id e
  | announce ref =>
    obtain ⟨session, hsession, rfl⟩ := map_eq_some_iff.mp hstep
    rw [announce]
    split
    · rfl
    · split
      · rfl
      · exact iff_of_eq (congrArg (· e = some false) (entered_announced s _))
  | append ref request =>
    obtain ⟨session, hsession, rfl⟩ := map_eq_some_iff.mp hstep
    rw [append]
    split
    · rfl
    · split
      · rfl
      · exact iff_of_eq (congrArg (· e = some false)
          (entered_setFlags (s.setSession ref _) _ (f := openEntry) fun _ => rfl))
  | resolve =>
    change s.resolve = some s' at hstep
    rw [resolve] at hstep
    split at hstep
    · obtain ⟨entry, hentry, hstep⟩ := bind_eq_some_iff.mp hstep
      obtain ⟨session, hsession, hstep⟩ := bind_eq_some_iff.mp hstep
      cases hstep
      rfl
    · cases hstep
  | detach e' =>
    obtain ⟨entry, hentry, rfl⟩ := map_eq_some_iff.mp hstep
    rw [entered_detach hentry, if_neg fun he => hact (by rw [he])]
  | unwind =>
    change s.unwind = some s' at hstep
    rw [unwind] at hstep
    split at hstep
    · cases hstep
    · obtain ⟨entry, hentry, rfl⟩ := map_eq_some_iff.mp hstep
      exact iff_of_eq (congrArg (· e = some false) (entered_endAnnounce _ _ entry))
    · obtain ⟨entry, hentry, rfl⟩ := map_eq_some_iff.mp hstep
      exact iff_of_eq (congrArg (· e = some false) (entered_endAppend _ _ entry))
    · cases hstep
      rfl

/-- **Spent means used.**  A capability is spent exactly when some caller used it. -/
theorem entered_run (hrun : Machine.exec step s acts = some s') :
    s'.entered e = some false ↔ s.entered e = some false ∨ .detach e ∈ acts := by
  induction acts generalizing s with
  | nil =>
    cases hrun
    simp
  | cons act acts ih =>
    obtain ⟨mid, hstep, hrest⟩ := bind_eq_some_iff.mp hrun
    rw [ih hrest, mem_cons]
    by_cases hact : act = .detach e
    · subst hact
      obtain ⟨entry, hentry, rfl⟩ := map_eq_some_iff.mp hstep
      simp [entered_detach hentry]
    · rw [entered_step hstep hact, or_iff_right (a := .detach e = act) (Ne.symm hact)]

/-! ## The lifecycle of every entry, in every run -/

/-- A dispatch of the entry's creation or of one of its events is in progress. -/
def Busy (s : SessionStore) (e : Nat) : Prop := ∃ frame ∈ s.frames, frame.isCreated e = true ∨ frame.isEvent e = true

theorem exists_iff_of_countP {p : Frame → Bool} {frames : List Frame} {b : Bool}
    (h : frames.countP p = if b then 1 else 0) : (∃ frame ∈ frames, p frame = true) ↔ b = true := by
  rw [← List.countP_pos_iff, h]
  cases b <;> simp

theorem busy_iff (h : s.Inv) (hentry : s.entries[e]? = some entry) :
    s.Busy e ↔ entry.flags.announcing = true ∨ entry.flags.appending = true := by
  have hinv := h.lifecycle e _ (view_eq hentry)
  have hcreated := exists_iff_of_countP hinv.announcing
  have hevent := exists_iff_of_countP hinv.appending
  simp only [lifecycleOf] at hcreated hevent
  rw [Busy, ← hcreated, ← hevent]
  constructor
  · rintro ⟨frame, hmem, h | h⟩
    · exact .inl ⟨frame, hmem, h⟩
    · exact .inr ⟨frame, hmem, h⟩
  · rintro (⟨frame, hmem, h⟩ | ⟨frame, hmem, h⟩)
    · exact ⟨frame, hmem, .inl h⟩
    · exact ⟨frame, hmem, .inr h⟩

/-- An entry is in the store until its capability was used and its dispatches are over. -/
theorem live_iff (h : s.Inv) (hentry : s.entries[e]? = some entry) :
    s.store.lookup entry.id = some e ↔ s.entered e ≠ some false ∨ s.Busy e := by
  have hinv := h.lifecycle e _ (view_eq hentry)
  have hattached : s.store.lookup entry.id = some e ↔ (s.lifecycleOf e entry).attached = true := beq_iff_eq.symm
  have hentered : s.entered e ≠ some false ↔ entry.flags.entered = true := by simp [entered, hentry]
  rw [hattached, hentered, busy_iff h hentry]
  constructor
  · intro hlive
    rcases hinv.attached.mp hlive with hunspent | hrequested
    · exact .inl hunspent
    · exact .inr (hinv.requested hrequested).2
  · rintro (hunspent | hbusy)
    · exact hinv.attached.mpr (.inl hunspent)
    · exact hinv.busy hbusy

/-- An entry whose dispatch is in progress is what the store answers for its session's id. -/
theorem get_of_busy (h : s.Inv) (hentry : s.entries[e]? = some entry) (hbusy : s.Busy e) :
    ∃ session : Session, s.sessions[entry.session]? = some session
      ∧ s.get session.id = some entry.session ∧ s.attachments.lookup entry.session = some e := by
  have hlive : s.store.lookup entry.id = some e := (live_iff h hentry).mpr (.inr hbusy)
  obtain ⟨session, hsession, hid⟩ := h.session e entry.id entry.session (key_eq hentry)
  refine ⟨session, hsession, ?_, (h.attachment _ e).mpr ⟨entry.id, key_eq hentry, hlive⟩⟩
  rw [get, hid, hlive, bind_some, hentry, map_some]

theorem disposed_count (h : s.Inv) (hentry : s.entries[e]? = some entry) : s.notices.countP (·.isDisposed e)
      = if s.notices.any (·.isCreated e) ∧ s.store.lookup entry.id ≠ some e then 1 else 0 := by
  have hinv := h.lifecycle e _ (view_eq hentry)
  have hdisposed : s.notices.countP (·.isDisposed e)
      = if entry.flags.announced && !(s.store.lookup entry.id == some e) then 1 else 0 := hinv.disposed
  have hcreated : s.notices.countP (·.isCreated e) = if entry.flags.announced then 1 else 0 := hinv.created
  have hannounced : s.notices.any (·.isCreated e) = entry.flags.announced := by
    rw [Bool.eq_iff_iff, List.any_eq_true, ← List.countP_pos_iff, hcreated]
    cases entry.flags.announced <;> simp
  rw [hdisposed, hannounced]
  simp

/-- **One lifecycle per entry.**  After any run: an entry's disposal was published once if its announcement began and
it has left, and never otherwise; it is in the store until its capability was used and its dispatches are over; during
these the store answers its id with its session; and its capability, used before, does nothing, and never removes
another entry. -/
theorem store_lifecycle (hrun : Machine.exec step {} acts = some s)
    {entry : StoreEntry} (hentry : s.entries[e]? = some entry) :
    s.notices.countP (·.isDisposed e)
        = (if s.notices.any (·.isCreated e) ∧ s.store.lookup entry.id ≠ some e then 1 else 0)
      ∧ (s.store.lookup entry.id = some e ↔ .detach e ∉ acts ∨ s.Busy e)
      ∧ (s.Busy e → ∃ session : Session, s.sessions[entry.session]? = some session
          ∧ s.get session.id = some entry.session ∧ s.attachments.lookup entry.session = some e)
      ∧ ∀ s', s.step (.detach e) = some s' → (.detach e ∈ acts → s' = s)
            ∧ ∀ id e', e' ≠ e → (s'.store.lookup id = some e' ↔ s.store.lookup id = some e') := by
  have h : s.Inv := .run hrun
  have hspent : s.entered e = some false ↔ .detach e ∈ acts := by
    rw [entered_run hrun]
    simp [entered]
  refine ⟨disposed_count h hentry, ?_, get_of_busy h hentry, ?_⟩
  · rw [live_iff h hentry, Ne, hspent]
  · intro s' hstep
    obtain ⟨entry', hentry', rfl⟩ := map_eq_some_iff.mp hstep
    cases hentry.symm.trans hentry'
    refine ⟨fun hused => ?_, fun id e' hne => (tables_detach hentry).lookup_of_ne hne⟩
    have hentered : ¬ entry.flags.entered = true := by simpa [entered, hentry] using hspent.mpr hused
    rw [detach, if_pos hentered]

/-- A listener of the creation appends and detaches from inside that publication. -/
def detachInListener : List StoreAct :=
  [.prepare "a" none ⟨0, isSafe_zero⟩, .enter 0, .announce 0,
    .append 0 { type := "note", data := .obj [], now := ⟨0, isSafe_zero⟩ }, .resolve, .detach 0, .unwind,
    .unwind]

theorem detachInListener_run : ∃ s entry, Machine.exec step {} detachInListener = some s
    ∧ s.entries[0]? = some entry ∧ entry.id = "a" ∧ s.notices.any (·.isCreated 0) = true
    ∧ s.frames = [.disposed 0] :=
  ⟨_, _, rfl, rfl, rfl, rfl, rfl⟩

theorem store_lifecycle_detachInListener :
    ∃ s, Machine.exec step {} detachInListener = some s ∧ s.store.lookup "a" ≠ some 0
      ∧ s.notices.countP (·.isDisposed 0) = 1 := by
  obtain ⟨s, entry, hrun, hentry, hid, hannounced, hframes⟩ := detachInListener_run
  obtain ⟨hdisposed, hlive, -, -⟩ := store_lifecycle hrun hentry
  have hgone : s.store.lookup entry.id ≠ some 0 := fun hlookup => by
    rcases hlive.mp hlookup with hunused | ⟨frame, hframe, hbusy⟩
    · exact hunused (by simp [detachInListener])
    · obtain rfl : frame = .disposed 0 := by simpa [hframes] using hframe
      simp at hbusy
  rw [if_pos ⟨hannounced, hgone⟩] at hdisposed
  exact ⟨s, hrun, hid ▸ hgone, hdisposed⟩

/-! ## Live sessions -/

theorem mem_list {ref : Nat} : ref ∈ s.list ↔ ∃ id, s.get id = some ref := by
  rw [list, mem_filterMap]
  constructor
  · rintro ⟨⟨id, e⟩, hmem, hsession⟩
    exact ⟨id, bind_eq_some_iff.mpr ⟨e, lookup_eq_some_iff.mpr hmem, hsession⟩⟩
  · rintro ⟨id, hget⟩
    obtain ⟨e, hlookup, hsession⟩ := bind_eq_some_iff.mp hget
    exact ⟨(id, e), lookup_eq_some_iff.mp hlookup, hsession⟩

theorem Inv.get_id (h : s.Inv) {id : String} {ref : Nat} (hget : s.get id = some ref) :
    (∃ session : Session, s.sessions[ref]? = some session ∧ session.id = id) ∧ (s.attachments.lookup ref).isSome = true := by
  obtain ⟨e, hlookup, hsession⟩ := bind_eq_some_iff.mp hget
  obtain ⟨ref', hkey⟩ := h.stored id e hlookup
  obtain ⟨entry, hentry, hpair⟩ := map_eq_some_iff.mp hkey
  rw [hentry] at hsession
  cases hpair
  cases hsession
  exact ⟨h.session e _ _ hkey, isSome_iff_exists.mpr ⟨e, (h.attachment _ e).mpr ⟨_, hkey, hlookup⟩⟩⟩

/-- **Every live session is listed once.**  After any run a session object is listed exactly when its id finds it, and
exactly when it is attached. -/
theorem list_live (hrun : Machine.exec step {} acts = some s) : s.list.Nodup ∧ ∀ ref (session : Session),
    s.sessions[ref]? = some session → (ref ∈ s.list ↔ s.get session.id = some ref) ∧
      (ref ∈ s.list ↔ (s.attachments.lookup ref).isSome = true) := by
  have h := Inv.run hrun
  refine ⟨?_, fun ref session hsession => ⟨?_, ?_⟩⟩
  · rw [list, List.Nodup, pairwise_filterMap]
    refine (pairwise_map.mp s.store.nodup).imp_of_mem fun {a a'} ha ha' hne ref hr ref' hr' heq => hne ?_
    subst heq
    obtain ⟨⟨session, hat, hid⟩, -⟩ := h.get_id (bind_eq_some_iff.mpr ⟨a.2, lookup_eq_some_iff.mpr ha, hr⟩)
    obtain ⟨⟨session', hat', hid'⟩, -⟩ := h.get_id (bind_eq_some_iff.mpr ⟨a'.2, lookup_eq_some_iff.mpr ha', hr'⟩)
    cases hat.symm.trans hat'
    exact hid.symm.trans hid'
  · rw [mem_list]
    refine ⟨fun ⟨id, hget⟩ => ?_, fun hget => ⟨_, hget⟩⟩
    obtain ⟨⟨session', hat, hid⟩, -⟩ := h.get_id hget
    cases hsession.symm.trans hat
    rwa [hid]
  · rw [mem_list, isSome_iff_exists]
    refine ⟨fun ⟨id, hget⟩ => isSome_iff_exists.mp (h.get_id hget).2, fun ⟨e, hattached⟩ => ?_⟩
    obtain ⟨id, hkey, hlookup⟩ := (h.attachment ref e).mp hattached
    obtain ⟨entry, hentry, hpair⟩ := map_eq_some_iff.mp hkey
    cases hpair
    exact ⟨_, bind_eq_some_iff.mpr ⟨e, hlookup, by rw [hentry]; rfl⟩⟩

theorem list_live_detachInListener : ∃ s, Machine.exec step {} detachInListener = some s ∧ s.list.Nodup := by
  obtain ⟨s, -, hrun, -⟩ := detachInListener_run
  exact ⟨s, hrun, (list_live hrun).1⟩

end SessionStore

end CocoHarness.SessionLog
