/-
# CocoHarness.SessionLog.StoreLifecycle — the store as each of its entries sees it.

`lifecycleOf` reads one entry's lifecycle off the store.  An operation is built from pieces that touch
a single entry (`Touches`), and what that entry sees of each piece is one equation; all the other
entries see nothing, so an operation keeps the store invariant as soon as it keeps the lifecycle of the
entry it is about (`Inv.update`).
-/
import CocoHarness.SessionLog.Lifecycle
import CocoHarness.SessionLog.Store

namespace CocoHarness.SessionLog

open Lib InsertionMap

/-! ## Counting dispatches and notices -/

namespace Frame

def entry : Frame → Nat
  | .created e => e
  | .event e _ _ => e
  | .disposed e => e

def isCreated (frame : Frame) (e : Nat) : Bool :=
  match frame with
  | .created e' => e' == e
  | _ => false

def isEvent (frame : Frame) (e : Nat) : Bool :=
  match frame with
  | .event e' _ _ => e' == e
  | _ => false

@[simp] theorem isCreated_created (e e' : Nat) : (created e).isCreated e' = (e == e') := rfl
@[simp] theorem isCreated_event (e e' : Nat) (event : EventRef) (committed : Bool) :
    (Frame.event e event committed).isCreated e' = false := rfl
@[simp] theorem isCreated_disposed (e e' : Nat) : (disposed e).isCreated e' = false := rfl
@[simp] theorem isEvent_created (e e' : Nat) : (created e).isEvent e' = false := rfl
@[simp] theorem isEvent_event (e e' : Nat) (event : EventRef) (committed : Bool) :
    (Frame.event e event committed).isEvent e' = (e == e') := rfl
@[simp] theorem isEvent_disposed (e e' : Nat) : (disposed e).isEvent e' = false := rfl

theorem of_entry_ne {e : Nat} {frame : Frame} (h : frame.entry ≠ e) : frame.isCreated e = false ∧ frame.isEvent e = false := by
  cases frame <;> simp_all [entry]

end Frame

namespace Notice

def entry : Notice → Nat
  | .created e => e
  | .event e _ => e
  | .disposed e => e

def isCreated (notice : Notice) (e : Nat) : Bool :=
  match notice with
  | .created e' => e' == e
  | _ => false

def isDisposed (notice : Notice) (e : Nat) : Bool :=
  match notice with
  | .disposed e' => e' == e
  | _ => false

@[simp] theorem isCreated_created (e e' : Nat) : (created e).isCreated e' = (e == e') := rfl
@[simp] theorem isCreated_event (e e' : Nat) (event : EventRef) :
    (Notice.event e event).isCreated e' = false := rfl
@[simp] theorem isCreated_disposed (e e' : Nat) : (disposed e).isCreated e' = false := rfl
@[simp] theorem isDisposed_created (e e' : Nat) : (created e).isDisposed e' = false := rfl
@[simp] theorem isDisposed_event (e e' : Nat) (event : EventRef) :
    (Notice.event e event).isDisposed e' = false := rfl
@[simp] theorem isDisposed_disposed (e e' : Nat) : (disposed e).isDisposed e' = (e == e') := rfl

theorem of_entry_ne {e : Nat} {notice : Notice} (h : notice.entry ≠ e) :
    notice.isCreated e = false ∧ notice.isDisposed e = false := by
  cases notice <;> simp_all [entry]

end Notice

theorem Session.admitAppend_spec (s : Session) (request : AppendRequest) : (s.admitAppend request).1.id = s.id
      ∧ ∀ event, (s.admitAppend request).2 = .ok event → isAppending s.entry = false := by
  rw [Session.admitAppend]
  split
  · exact ⟨rfl, fun _ h => by cases h⟩
  · split
    · exact ⟨rfl, fun _ h => by cases h⟩
    · next hclosed =>
      have hclosed : isAppending s.entry = false := by simpa using hclosed
      dsimp only
      split <;> exact ⟨rfl, fun _ _ => hclosed⟩

namespace SessionStore

def lifecycleOf (s : SessionStore) (e : Nat) (entry : StoreEntry) : Lifecycle where
  flags := entry.flags
  attached := s.store.lookup entry.id == some e
  announcements := s.frames.countP (·.isCreated e)
  publications := s.frames.countP (·.isEvent e)
  createdNotices := s.notices.countP (·.isCreated e)
  disposedNotices := s.notices.countP (·.isDisposed e)

/-- What the store knows about an entry besides the entry itself. -/
def traceOf (s : SessionStore) (e : Nat) : Nat × Nat × Nat × Nat :=
  (s.frames.countP (·.isCreated e), s.frames.countP (·.isEvent e),
    s.notices.countP (·.isCreated e), s.notices.countP (·.isDisposed e))

def view (s : SessionStore) (e : Nat) : Option Lifecycle := s.entries[e]?.map (s.lifecycleOf e)

def key (s : SessionStore) (e : Nat) : Option (String × Nat) :=
  s.entries[e]?.map fun entry => (entry.id, entry.session)

/-- **The store invariant.** -/
structure Inv (s : SessionStore) : Prop where
  lifecycle : ∀ e l, s.view e = some l → l.Inv
  attachment : ∀ ref e, s.attachments.lookup ref = some e ↔ ∃ id, s.key e = some (id, ref) ∧ s.store.lookup id = some e
  stored : ∀ id e, s.store.lookup id = some e → ∃ ref, s.key e = some (id, ref)
  session : ∀ e id ref, s.key e = some (id, ref) →
    ∃ session : Session, s.sessions[ref]? = some session ∧ session.id = id
  unseen : ∀ e, s.entries.length ≤ e → s.traceOf e = (0, 0, 0, 0)

theorem Inv.empty : Inv {} := by constructor <;> simp [traceOf, view, key]

/-! ## An operation touches one entry -/

/-- Only the flags, dispatches and notices of the entry `e` change, and sessions keep their identity. -/
structure Touches (s s' : SessionStore) (e : Nat) : Prop where
  length : s'.entries.length = s.entries.length
  key : ∀ e', s'.key e' = s.key e'
  others : ∀ e' : Nat, e' ≠ e → s'.entries[e']? = s.entries[e']?
  sessions : ∀ (ref : Nat) (session : Session), s.sessions[ref]? = some session →
    ∃ session' : Session, s'.sessions[ref]? = some session' ∧ session'.id = session.id
  trace : ∀ e', e' ≠ e → s'.traceOf e' = s.traceOf e'

theorem Touches.refl (s : SessionStore) (e : Nat) : s.Touches s e :=
  ⟨rfl, fun _ => rfl, fun _ _ => rfl, fun _ session h => ⟨session, h, rfl⟩, fun _ _ => rfl⟩

theorem Touches.trans {s s' s'' : SessionStore} {e : Nat} (h : s.Touches s' e)
    (h' : s'.Touches s'' e) : s.Touches s'' e where
  length := h'.length.trans h.length
  key e' := (h'.key e').trans (h.key e')
  others e' hne := (h'.others e' hne).trans (h.others e' hne)
  sessions ref session hsession := by
    obtain ⟨mid, hmid, hid⟩ := h.sessions ref session hsession
    obtain ⟨last, hlast, hid'⟩ := h'.sessions ref mid hmid
    exact ⟨last, hlast, hid'.trans hid⟩
  trace e' hne := (h'.trace e' hne).trans (h.trace e' hne)

/-- The tables are as before, or the entry `e` was taken out of both. -/
def Tables (s s' : SessionStore) (e : Nat) : Prop :=
  (s'.store = s.store ∧ s'.attachments = s.attachments)
    ∨ ∃ id ref, s.key e = some (id, ref) ∧ s.store.lookup id = some e
      ∧ s'.store = s.store.erase id ∧ s'.attachments = s.attachments.erase ref

variable {s s' : SessionStore} {e : Nat}

theorem Tables.of_eq {mid : SessionStore} (h : mid.Tables s' e) (hkey : mid.key e = s.key e)
    (hstore : mid.store = s.store) (hattachments : mid.attachments = s.attachments) :
    s.Tables s' e := by
  rwa [Tables, hkey, hstore, hattachments] at h

theorem Tables.lookup_of_ne (h : s.Tables s' e) {id : String} {e' : Nat} (hne : e' ≠ e) :
    s'.store.lookup id = some e' ↔ s.store.lookup id = some e' := by
  rcases h with ⟨hstore, -⟩ | ⟨id', ref, -, hlive, hstore, -⟩
  · rw [hstore]
  · rw [hstore, lookup_erase]
    split
    · next heq =>
      rw [heq, hlive]
      simp [hne.symm]
    · rfl

theorem Inv.attachment_of_tables (h : s.Inv) (htables : s.Tables s' e) (ref e' : Nat) :
    s'.attachments.lookup ref = some e' ↔ ∃ id, s.key e' = some (id, ref) ∧ s'.store.lookup id = some e' := by
  rcases htables with ⟨hstore, hattachments⟩ | ⟨id, ref', hkey, hlive, hstore, hattachments⟩
  · rw [hstore, hattachments]
    exact h.attachment ref e'
  · have hattached : s.attachments.lookup ref' = some e := (h.attachment ref' e).mpr ⟨id, hkey, hlive⟩
    rw [hstore, hattachments, lookup_erase]
    simp only [lookup_erase]
    constructor
    · intro hlookup
      split at hlookup
      · cases hlookup
      · next hne =>
        obtain ⟨id', hkey', hlive'⟩ := (h.attachment ref e').mp hlookup
        refine ⟨id', hkey', ?_⟩
        rw [if_neg, hlive']
        rintro rfl
        cases hlive'.symm.trans hlive
        rw [hkey] at hkey'
        exact hne (by simpa using (Option.some.inj hkey').symm)
    · rintro ⟨id', hkey', hlive'⟩
      split at hlive'
      · cases hlive'
      · next hne =>
        have hlookup := (h.attachment ref e').mpr ⟨id', hkey', hlive'⟩
        rw [if_neg, hlookup]
        rintro rfl
        cases hlookup.symm.trans hattached
        rw [hkey] at hkey'
        exact hne (by simpa using (Option.some.inj hkey').symm)

/-- **Frame.**  An operation that keeps the lifecycle of the one entry it touches keeps the invariant. -/
theorem Inv.update (h : s.Inv) (hlt : e < s.entries.length) (ht : s.Touches s' e)
    (htables : s.Tables s' e) (hlifecycle : ∀ l, s'.view e = some l → l.Inv) : s'.Inv where
  lifecycle e' l hview := by
    by_cases he : e' = e
    · exact hlifecycle l (he ▸ hview)
    · refine h.lifecycle e' l ?_
      rw [← hview, view, view, ht.others e' he]
      cases s.entries[e']? with
      | none => rfl
      | some entry =>
        have htrace := ht.trace e' he
        have hlive : (s.store.lookup entry.id == some e') = (s'.store.lookup entry.id == some e') := by
          rw [Bool.eq_iff_iff, beq_iff_eq, beq_iff_eq, htables.lookup_of_ne he]
        simp only [traceOf, Prod.mk.injEq] at htrace
        simp only [Option.map_some, lifecycleOf, htrace, hlive]
  attachment ref e' := by
    rw [ht.key]
    exact h.attachment_of_tables htables ref e'
  stored id e' hlookup := by
    rw [ht.key]
    refine h.stored id e' ?_
    rcases htables with ⟨hstore, -⟩ | ⟨id', ref, -, -, hstore, -⟩
    · rwa [hstore] at hlookup
    · rw [hstore, lookup_erase] at hlookup
      split at hlookup
      · cases hlookup
      · exact hlookup
  session e' id ref hkey := by
    rw [ht.key] at hkey
    obtain ⟨session, hsome, hid⟩ := h.session e' id ref hkey
    obtain ⟨session', hsome', hid'⟩ := ht.sessions ref session hsome
    exact ⟨session', hsome', hid'.trans hid⟩
  unseen e' hle := by
    rw [ht.length] at hle
    rw [ht.trace e' (by omega)]
    exact h.unseen e' hle

theorem Inv.quiet (h : s.Inv) (hentries : s'.entries = s.entries) (hstore : s'.store = s.store)
    (hattachments : s'.attachments = s.attachments) (htrace : ∀ e, s'.traceOf e = s.traceOf e)
    (hsessions : ∀ (ref : Nat) (session : Session), s.sessions[ref]? = some session →
      ∃ session' : Session, s'.sessions[ref]? = some session' ∧ session'.id = session.id) : s'.Inv where
  lifecycle e l hview := by
    refine h.lifecycle e l ?_
    rw [← hview, view, view, hentries]
    have htrace := htrace e
    simp only [traceOf, Prod.mk.injEq] at htrace
    cases s.entries[e]? with
    | none => rfl
    | some entry => simp only [Option.map_some, lifecycleOf, htrace, hstore]
  attachment ref e := by
    rw [hattachments, hstore, key, hentries]
    exact h.attachment ref e
  stored id e hlookup := by
    rw [key, hentries]
    exact h.stored id e (hstore ▸ hlookup)
  session e id ref hkey := by
    rw [key, hentries] at hkey
    obtain ⟨session, hsome, hid⟩ := h.session e id ref hkey
    obtain ⟨session', hsome', hid'⟩ := hsessions ref session hsome
    exact ⟨session', hsome', hid'.trans hid⟩
  unseen e hle := by
    rw [htrace]
    exact h.unseen e (hentries ▸ hle)

/-! ## What the pieces of an operation touch -/

theorem touches_setFlags (s : SessionStore) (e : Nat) (f : SessionEntry → SessionEntry) :
    s.Touches (s.setFlags e f) e where
  length := by simp [setFlags]
  key e' := by
    simp only [key, setFlags, List.getElem?_modify]
    cases s.entries[e']? with
    | none => rfl
    | some entry => split <;> rfl
  others e' hne := by simp [setFlags, hne.symm]
  sessions _ session hsession := ⟨session, hsession, rfl⟩
  trace _ _ := rfl

variable {frame : Frame}

theorem touches_push (s : SessionStore) (hframe : frame.entry = e) : s.Touches (s.push frame) e where
  length := rfl
  key _ := rfl
  others _ _ := rfl
  sessions _ session hsession := ⟨session, hsession, rfl⟩
  trace e' hne := by
    obtain ⟨hcreated, hevent⟩ := Frame.of_entry_ne (hframe ▸ hne.symm)
    simp [traceOf, push, hcreated, hevent]

theorem touches_tell (s : SessionStore) {notice : Notice} (hnotice : notice.entry = e) :
    s.Touches (s.tell notice) e where
  length := rfl
  key _ := rfl
  others _ _ := rfl
  sessions _ session hsession := ⟨session, hsession, rfl⟩
  trace e' hne := by
    obtain ⟨hcreated, hdisposed⟩ := Notice.of_entry_ne (hnotice ▸ hne.symm)
    simp [traceOf, tell, hcreated, hdisposed]

theorem touches_pop {frames : List Frame} (hframes : s.frames = frame :: frames)
    (hframe : frame.entry = e) : s.Touches { s with frames } e where
  length := rfl
  key _ := rfl
  others _ _ := rfl
  sessions _ session hsession := ⟨session, hsession, rfl⟩
  trace e' hne := by
    have hpush := (touches_push { s with frames } hframe).trace e' hne
    rw [← hpush]
    simp only [traceOf, push, hframes]

variable {ref : Nat} {session : Session}

theorem touches_setSession (s : SessionStore) (e : Nat) {old : Session}
    (hold : s.sessions[ref]? = some old) (hid : session.id = old.id) :
    s.Touches (s.setSession ref session) e where
  length := rfl
  key _ := rfl
  others _ _ := rfl
  sessions ref' session' hsession' := by
    by_cases href : ref' = ref
    · subst href
      cases hsession'.symm.trans hold
      refine ⟨{ session with entry := none }, ?_, hid⟩
      simp [setSession, (List.getElem?_eq_some_iff.mp hold).1]
    · exact ⟨session', by simpa [setSession, List.getElem?_set, Ne.symm href] using hsession', rfl⟩
  trace _ _ := rfl

theorem touches_remove (s : SessionStore) (e : Nat) (entry : StoreEntry) : s.Touches (s.remove entry) e where
  length := rfl
  key _ := rfl
  others _ _ := rfl
  sessions _ session hsession := ⟨session, hsession, rfl⟩
  trace _ _ := rfl

/-! ## What an entry sees of the pieces -/

theorem view_setFlags (s : SessionStore) (e : Nat) (f : SessionEntry → SessionEntry) :
    (s.setFlags e f).view e = (s.view e).map fun l => { l with flags := f l.flags } := by
  simp only [view, setFlags, List.getElem?_modify_eq]
  cases s.entries[e]? <;> rfl

theorem view_setSession (s : SessionStore) (e ref : Nat) (session : Session) :
    (s.setSession ref session).view e = s.view e := rfl

theorem view_push_created (s : SessionStore) (e : Nat) : (s.push (.created e)).view e
      = (s.view e).map fun l => { l with announcements := l.announcements + 1 } := by
  simp only [view, push]
  cases s.entries[e]? <;> simp [lifecycleOf]

theorem view_push_event (s : SessionStore) (e : Nat) (event : EventRef) (committed : Bool) :
    (s.push (.event e event committed)).view e
      = (s.view e).map fun l => { l with publications := l.publications + 1 } := by
  simp only [view, push]
  cases s.entries[e]? <;> simp [lifecycleOf]

theorem view_push_disposed (s : SessionStore) (e e' : Nat) : (s.push (.disposed e')).view e = s.view e := by
  simp only [view, push]
  cases s.entries[e]? <;> simp [lifecycleOf]

theorem view_tell_created (s : SessionStore) (e : Nat) : (s.tell (.created e)).view e
      = (s.view e).map fun l => { l with createdNotices := l.createdNotices + 1 } := by
  simp only [view, tell]
  cases s.entries[e]? <;> simp [lifecycleOf]

theorem view_tell_disposed (s : SessionStore) (e : Nat) : (s.tell (.disposed e)).view e
      = (s.view e).map fun l => { l with disposedNotices := l.disposedNotices + 1 } := by
  simp only [view, tell]
  cases s.entries[e]? <;> simp [lifecycleOf]

variable {entry : StoreEntry}

theorem view_remove (hkey : s.key e = some (entry.id, entry.session)) :
    (s.remove entry).view e = (s.view e).map fun l => { l with attached := false } := by
  obtain ⟨entry', hentry, hid⟩ := Option.map_eq_some_iff.mp hkey
  simp only [view, remove, hentry, Option.map_some, lifecycleOf, (Prod.mk.inj hid).1,
    lookup_erase, if_true]
  rfl

/-! ## Detaching -/

theorem touches_detachEntered (s : SessionStore) (e : Nat) (entry : StoreEntry) :
    s.Touches (s.detachEntered e entry) e := by
  rw [detachEntered]
  have hflags := s.touches_setFlags e fun flags => { flags with detachRequested := false }
  split
  · exact hflags
  · have htables := hflags.trans (touches_remove _ e entry)
    split
    · exact (htables.trans (touches_push _ rfl)).trans (touches_tell _ rfl)
    · exact htables

theorem tables_detachEntered (hkey : s.key e = some (entry.id, entry.session)) :
    s.Tables (s.detachEntered e entry) e := by
  rw [detachEntered]
  split
  · exact .inl ⟨rfl, rfl⟩
  · next hlive =>
    have hlive : s.store.lookup entry.id = some e := not_not.mp hlive
    split <;> exact .inr ⟨entry.id, entry.session, hkey, hlive, rfl, rfl⟩

/-- **What leaving does to an entry the store holds.** -/
theorem view_detachEntered {l : Lifecycle} (hkey : s.key e = some (entry.id, entry.session))
    (hlive : s.store.lookup entry.id = some e) (hview : s.view e = some l)
    (hannounced : l.flags.announced = entry.flags.announced) :
    (s.detachEntered e entry).view e = some l.leave := by
  have hkey' : (s.setFlags e fun flags => { flags with detachRequested := false }).key e
      = some (entry.id, entry.session) := ((touches_setFlags s e _).key e).trans hkey
  have hleft := view_remove hkey'
  rw [view_setFlags, hview] at hleft
  rw [detachEntered]
  split
  · next hgone => exact absurd hlive hgone
  split
  · next h =>
    refine ((view_tell_disposed _ e).trans (congrArg _ (view_push_disposed _ e e))).trans ?_
    rw [hleft]
    simp [Lifecycle.leave, hannounced, h]
  · next h =>
    refine hleft.trans ?_
    simp [Lifecycle.leave, hannounced, h]

theorem liveEntryFor_ok (h : s.liveEntryFor ref session = .ok (e, entry)) :
    s.entries[e]? = some entry ∧ s.store.lookup entry.id = some e := by
  rw [liveEntryFor] at h
  split at h
  · cases h
  · split at h
    · cases h
    · next hentry =>
      split at h
      · cases h
      · next hlive =>
        cases h
        exact ⟨hentry, not_not.mp hlive⟩

end SessionStore

end CocoHarness.SessionLog
