/-
# CocoHarness.SessionLog.Lifecycle — what one store entry goes through.

An entry is announced once, published to, and detached through a capability that works once but waits for the
dispatches in progress.  Here this is a small state machine of its own: the flags, whether the store still holds the
entry, how many of its dispatches are in progress, and what was published about it.
-/
import CocoHarness.SessionLog.Live

namespace CocoHarness.SessionLog

/-! ## The lifecycle of one entry -/

/-- What one entry has to do with: flags, attachment, its dispatches in progress, its notices. -/
structure Lifecycle where
  flags : SessionEntry
  attached : Bool
  announcements : Nat
  publications : Nat
  createdNotices : Nat
  disposedNotices : Nat

namespace Lifecycle

def fresh : Lifecycle :=
  { flags := {}, attached := true, announcements := 0, publications := 0, createdNotices := 0
    disposedNotices := 0 }

/-- The entry leaves the store; the disposal pairs an announcement that began. -/
def leave (l : Lifecycle) : Lifecycle :=
  { l with
    flags := { l.flags with detachRequested := false }
    attached := false
    disposedNotices := l.disposedNotices + if l.flags.announced then 1 else 0 }

def detach (l : Lifecycle) : Lifecycle :=
  if ¬ l.flags.entered then l
  else if l.flags.announcing || l.flags.appending then
    { l with flags := { l.flags with entered := false, detachRequested := true } }
  else { l with flags := { l.flags with entered := false } }.leave

def announce (l : Lifecycle) : Lifecycle :=
  { l with
    flags := { l.flags with announced := true, announcing := true }
    announcements := l.announcements + 1
    createdNotices := l.createdNotices + 1 }

def endAnnounce (l : Lifecycle) : Lifecycle :=
  let l := { l with
    flags := { l.flags with announcing := false }, announcements := l.announcements - 1 }
  if l.flags.detachRequested && !l.flags.appending then l.leave else l

def append (l : Lifecycle) : Lifecycle := { l with flags := openEntry l.flags, publications := l.publications + 1 }

def endAppend (l : Lifecycle) : Lifecycle :=
  let l := { l with
    flags := { l.flags with appending := false }, publications := l.publications - 1 }
  if l.flags.detachRequested && !l.flags.announcing then l.leave else l

/-- **The lifecycle invariant.**  The flags count the dispatches in progress; the entry is in the store until its
capability was used and they ended; it is published as created, and as disposed when it left after that. -/
structure Inv (l : Lifecycle) : Prop where
  announcing : l.announcements = if l.flags.announcing then 1 else 0
  appending : l.publications = if l.flags.appending then 1 else 0
  attached : l.attached = true ↔ l.flags.entered = true ∨ l.flags.detachRequested = true
  requested : l.flags.detachRequested = true →
    l.flags.entered = false ∧ (l.flags.announcing = true ∨ l.flags.appending = true)
  busy : l.flags.announcing = true ∨ l.flags.appending = true → l.attached = true
  announced : l.flags.announcing = true → l.flags.announced = true
  created : l.createdNotices = if l.flags.announced then 1 else 0
  disposed : l.disposedNotices = if l.flags.announced && !l.attached then 1 else 0

theorem Inv.fresh : Inv .fresh := by constructor <;> simp [Lifecycle.fresh]

variable {l : Lifecycle}

/-- Leaving is right for an entry still in the store, spent, and with no dispatch in progress. -/
theorem Inv.leave (hannouncing : l.flags.announcing = false) (happending : l.flags.appending = false)
    (hentered : l.flags.entered = false) (hannouncements : l.announcements = 0)
    (hpublications : l.publications = 0) (hcreated : l.createdNotices = if l.flags.announced then 1 else 0)
    (hdisposed : l.disposedNotices = 0) : l.leave.Inv := by
  constructor <;> simp [Lifecycle.leave, *]

theorem detach_spent (h : ¬ l.flags.entered = true) : l.detach = l := if_pos h

theorem detach_busy (hentered : l.flags.entered = true) (hbusy : (l.flags.announcing || l.flags.appending) = true) :
    l.detach = { l with flags := { l.flags with entered := false, detachRequested := true } } :=
  (if_neg (not_not.mpr hentered)).trans (if_pos hbusy)

theorem detach_idle (hentered : l.flags.entered = true) (hidle : ¬ (l.flags.announcing || l.flags.appending) = true) :
    l.detach = { l with flags := { l.flags with entered := false } }.leave :=
  (if_neg (not_not.mpr hentered)).trans (if_neg hidle)

theorem Inv.detach (h : l.Inv) : l.detach.Inv := by
  rw [Lifecycle.detach]
  split
  · exact h
  · next hentered =>
    have hentered : l.flags.entered = true := by simpa using hentered
    have hattached : l.attached = true := h.attached.mpr (.inl hentered)
    split
    · next hbusy =>
      have hbusy : l.flags.announcing = true ∨ l.flags.appending = true := by simpa using hbusy
      exact
        { h with
          attached := by simp [hattached]
          requested := fun _ => ⟨rfl, hbusy⟩ }
    · next hidle =>
      obtain ⟨hannouncing, happending⟩ : l.flags.announcing = false ∧ l.flags.appending = false := by
        simpa using hidle
      refine Inv.leave hannouncing happending rfl ?_ ?_ h.created ?_
      · simpa [hannouncing] using h.announcing
      · simpa [happending] using h.appending
      · simpa [hattached] using h.disposed

theorem Inv.announce (h : l.Inv) (hattached : l.attached = true)
    (hannounced : l.flags.announced = false) : l.announce.Inv := by
  have hannouncing : l.flags.announcing = false := by
    by_contra hne
    simpa [hannounced] using h.announced (by simpa using hne)
  exact
    { h with
      announcing := by simpa [Lifecycle.announce, hannouncing] using h.announcing
      requested := fun hrequested => ⟨(h.requested hrequested).1, .inl rfl⟩
      busy := fun _ => hattached
      announced := fun _ => rfl
      created := by simpa [Lifecycle.announce, hannounced] using h.created
      disposed := by simpa [Lifecycle.announce, hannounced, hattached] using h.disposed }

theorem Inv.append (h : l.Inv) (hattached : l.attached = true)
    (happending : l.flags.appending = false) : l.append.Inv :=
  { h with
    appending := by simpa [Lifecycle.append, openEntry, happending] using h.appending
    requested := fun hrequested => ⟨(h.requested hrequested).1, .inr rfl⟩
    busy := fun _ => hattached }

theorem endAnnounce_leave (h : (l.flags.detachRequested && !l.flags.appending) = true) : l.endAnnounce = { l with
      flags := { l.flags with announcing := false }
      announcements := l.announcements - 1 : Lifecycle }.leave := if_pos h

theorem endAnnounce_stay (h : ¬ (l.flags.detachRequested && !l.flags.appending) = true) : l.endAnnounce = { l with
      flags := { l.flags with announcing := false }, announcements := l.announcements - 1 } := if_neg h

theorem endAppend_leave (h : (l.flags.detachRequested && !l.flags.announcing) = true) : l.endAppend = { l with
      flags := { l.flags with appending := false }
      publications := l.publications - 1 : Lifecycle }.leave := if_pos h

theorem endAppend_stay (h : ¬ (l.flags.detachRequested && !l.flags.announcing) = true) : l.endAppend = { l with
      flags := { l.flags with appending := false }, publications := l.publications - 1 } := if_neg h

theorem Inv.endAnnounce (h : l.Inv) (hannouncing : l.flags.announcing = true) : l.endAnnounce.Inv := by
  have hattached : l.attached = true := h.busy (.inl hannouncing)
  have hannouncements : l.announcements = 1 := by simpa [hannouncing] using h.announcing
  have hdisposed : l.disposedNotices = 0 := by simpa [hattached] using h.disposed
  simp only [Lifecycle.endAnnounce]
  split
  · next hleave =>
    obtain ⟨hrequested, happending⟩ : l.flags.detachRequested = true ∧ l.flags.appending = false := by
      simpa using hleave
    refine Inv.leave rfl happending (h.requested hrequested).1 ?_ ?_ h.created hdisposed
    · simp [hannouncements]
    · simpa [happending] using h.appending
  · next hstay =>
    exact
      { h with
        announcing := by simp [hannouncements]
        requested := fun hrequested => ⟨(h.requested hrequested).1, .inr (by
          have hrequested : l.flags.detachRequested = true := hrequested
          simpa [hrequested] using hstay)⟩
        busy := fun _ => hattached
        announced := fun hfalse => absurd hfalse (by simp) }

theorem Inv.endAppend (h : l.Inv) (happending : l.flags.appending = true) : l.endAppend.Inv := by
  have hattached : l.attached = true := h.busy (.inr happending)
  have hpublications : l.publications = 1 := by simpa [happending] using h.appending
  have hdisposed : l.disposedNotices = 0 := by simpa [hattached] using h.disposed
  simp only [Lifecycle.endAppend]
  split
  · next hleave =>
    obtain ⟨hrequested, hannouncing⟩ : l.flags.detachRequested = true ∧ l.flags.announcing = false := by
      simpa using hleave
    refine Inv.leave hannouncing rfl (h.requested hrequested).1 ?_ ?_ h.created hdisposed
    · simpa [hannouncing] using h.announcing
    · simp [hpublications]
  · next hstay =>
    exact
      { h with
        appending := by simp [hpublications]
        requested := fun hrequested => ⟨(h.requested hrequested).1, .inl (by
          have hrequested : l.flags.detachRequested = true := hrequested
          simpa [hrequested] using hstay)⟩
        busy := fun _ => hattached }

end Lifecycle

end CocoHarness.SessionLog
