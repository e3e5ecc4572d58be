/-
# CocoHarness.SessionLog.Fork — a child session from a prefix of a live one.

A fork selects a prefix of the source's log by an inclusive boundary, refuses a prefix that ends inside an open turn,
and creates a session of the store seeded with it.  A log the surface accepts is accepted up to any position, so a
replacement never reaches past the prefix it is in (`surfaceAfter_prefix`); what may still refuse the prefix is the
seed boundary, which checks the shape of each event where a live append leaves it to the static types.
-/
import CocoHarness.Lib.ArraySplice
import CocoHarness.Persistence.Header
import CocoHarness.SessionLog.Invariant
import CocoHarness.SessionLog.Seeding
import CocoHarness.SessionLog.StoreSessions

namespace CocoHarness.SessionLog

open Lib Lib.SafeInteger List Option SessionStore InsertionMap
open Persistence (stringOf)

/-! ## Errors -/

inductive SessionForkErrorCode where
  | sessionNotFound
  | sessionNotLive
  | sessionAlreadyExists
  | invalidBoundary
  | openTurn
  deriving DecidableEq

/-- What a fork throws: its own typed error, or an error of what it calls. -/
inductive ForkError where
  | fork (message : String) (code : SessionForkErrorCode)
  | other (error : JsError)
  deriving DecidableEq

/-! ## The boundary -/

def printJsNumber : JsNumber → String
  | .nan => "NaN"
  | .infinity true => "-Infinity"
  | .infinity false => "Infinity"
  | .negZero => "0"
  | .finite n => printNumber n

/-- A boundary that is a non-negative safe integer; the zero of either sign is position zero. -/
def boundaryPosition : JsNumber → Option Nat
  | .negZero => some 0
  | .finite (.int n) => if IsSafe n ∧ 0 ≤ n then some n.toNat else none
  | _ => none

theorem boundaryPosition_safe {boundary : JsNumber} {n : Nat} (h : boundaryPosition boundary = some n) : IsSafe n := by
  unfold boundaryPosition at h
  split at h
  · cases h
    decide
  · split at h
    · next m hm =>
      cases h
      rw [Int.toNat_of_nonneg hm.2]
      exact hm.1
    · cases h
  · cases h

def lastTurnBoundary (events : List SessionEvent) : Option SessionEvent :=
  events.reverse.find? fun event => event.type = "turn/start" || event.type = "turn/end"

/-- The error for a prefix that ends inside a turn; it prints whatever the log has there. -/
def openTurnError (id : String) (boundary : Nat) (event : SessionEvent) : ForkError :=
  match jsGet (some event.data) "turn" >>= stringOf with
  | .error e => .other e
  | .ok turn => .fork s!"fork boundary {boundary} in session \"{id}\" ends inside open turn {turn}" .openTurn

def forkPrefix (id : String) (events : List SessionEvent) (boundary : JsNumber) :
    Except ForkError (List SessionEvent) :=
  match boundaryPosition boundary with
  | none =>
    .error (.fork (s!"fork boundary for session \"{id}\" must be a non-negative safe integer, "
      ++ s!"got {printJsNumber boundary}") .invalidBoundary)
  | some n =>
    if events.length ≤ n then
      let lastSeq := (events.getLast?.map fun event => toString event.seq).getD "none"
      .error (.fork (s!"fork boundary {n} does not exist in session \"{id}\" "
        ++ s!"(last seq: {lastSeq})") .invalidBoundary)
    else if events[n]?.map (·.seq) ≠ some (n : Int) then
      .error (.fork (s!"fork boundary {n} does not match a contiguous event seq in session "
        ++ s!"\"{id}\"") .invalidBoundary)
    else
      match (lastTurnBoundary (events.take (n + 1))).filter (·.type = "turn/start") with
      | some event => .error (openTurnError id n event)
      | none => .ok (events.take (n + 1))

/-- The events a fork copies: through the requested boundary, or through the last event. -/
def forkSeed (id : String) (events : List SessionEvent) (requestedBoundary : Option JsNumber) :
    Except ForkError (List SessionEvent) :=
  match requestedBoundary, events.getLast? with
  | some boundary, _ => forkPrefix id events boundary
  | none, none => .ok []
  | none, some lastEvent => forkPrefix id events (.finite (.int lastEvent.seq))

namespace SessionStore

/-! ## The source and the child -/

inductive ForkSource (s : SessionStore) where
  | id (id : String)
  | session (ref : Fin s.sessions.length)

/-- The id of the child: the caller's, or one the store mints, which no live session has. -/
inductive ChildId (s : SessionStore) where
  | given (id : String)
  | minted (id : String) (free : s.store.lookup id = none)

def ChildId.id {s : SessionStore} : s.ChildId → String
  | .given id | .minted id _ => id

def ChildId.taken {s : SessionStore} : s.ChildId → Bool
  | .given id => (s.get id).isSome
  | .minted _ _ => false

variable (s : SessionStore)

def live (id : String) : Option (Nat × Session) := do
  let ref ← s.get id
  let session ← s.sessions[ref]?
  return (ref, session)

def resolveForkSource : s.ForkSource → Except ForkError (Nat × Session)
  | .id id =>
    match s.live id with
    | none => .error (.fork s!"session \"{id}\" not found" .sessionNotFound)
    | some source => .ok source
  | .session ref =>
    let id := s.sessions[ref].id
    match s.live id with
    | none => .error (.fork s!"session \"{id}\" not found" .sessionNotFound)
    | some (live, session) =>
      if live ≠ ref then
        .error (.fork s!"session \"{id}\" is not the live store instance" .sessionNotLive)
      else .ok (live, session)

/-- Prepare, enter and announce a session, up to the listeners of the announcement. -/
def create (id : String) (seed : Option (List JsValue)) (now : EpochMs) : SessionStore × Except JsError Nat :=
  match s.prepare id seed now with
  | (s, .error e) => (s, .error e)
  | (s, .ok ref) =>
    -- the object just built
    let session := s.sessions[ref]?.getD { id }
    match s.enter ref session with
    | (s, .error e) => (s, .error e)
    | (s, .ok entry) =>
      match s.announce ref session with
      | (s, .error e) => ((s.step (.detach entry)).getD s, .error e)
      | (s, .ok ()) => (s, .ok ref)

/-- A listener of the announcement throws: the owning effect takes the session out again. -/
def rollback : Option SessionStore :=
  match s.frames with
  | .created entry :: _ => s.unwind.bind (·.step (.detach entry))
  | _ => none

/-- Read the events of a session, which keeps the snapshot it hands out. -/
def readEvents (ref : Nat) (session : Session) : SessionStore × List EventRef :=
  ({ s with sessions := s.sessions.set ref session.events.1 }, session.events.2)

/-- Create a child from a stable prefix of a live source, up to the listeners of its announcement. -/
def fork (source : s.ForkSource) (boundary : Option JsNumber) (child : s.ChildId)
    (now : EpochMs) : SessionStore × Except ForkError Nat :=
  if child.taken then
    (s, .error (.fork s!"session \"{child.id}\" already exists" .sessionAlreadyExists))
  else
    match s.resolveForkSource source with
    | .error e => (s, .error e)
    | .ok (ref, parent) =>
      match s.readEvents ref parent with
      | (s, events) =>
        match forkSeed parent.id (eventsOf events) boundary with
        | .error e => (s, .error e)
        | .ok seed =>
          match s.create child.id (some (seedOfEvents seed)) now with
          | (s, .error e) => (s, .error (.other e))
          | (s, .ok child) => (s, .ok child)

end SessionStore

/-! ## What a boundary selects -/

variable (events : List SessionEvent)

def InOpenTurn : Prop :=
  ∃ before start after, events = before ++ start :: after ∧ start.type = "turn/start" ∧
    ∀ event ∈ after, event.type ≠ "turn/end"

def forkLength (length : Nat) : Option JsNumber → Option Nat
  | none => some length
  | some boundary => (boundaryPosition boundary).bind fun n => if n < length then some (n + 1) else none

theorem forkLength_le {length n : Nat} {boundary : Option JsNumber}
    (h : forkLength length boundary = some n) : n ≤ length := by
  cases boundary with
  | none => exact (Option.some.inj h).ge
  | some boundary =>
    obtain ⟨m, -, h⟩ := bind_eq_some_iff.mp (show (boundaryPosition boundary).bind _ = some n from h)
    split at h
    · cases h
      omega
    · cases h

theorem inOpenTurn_snoc (event : SessionEvent) : InOpenTurn (events ++ [event]) ↔
      event.type = "turn/start" ∨ event.type ≠ "turn/end" ∧ InOpenTurn events := by
  constructor
  · rintro ⟨before, start, after, hsplit, hstart, hafter⟩
    rcases eq_nil_or_concat after with rfl | ⟨after, last, rfl⟩
    · obtain ⟨-, hlast⟩ := append_inj' hsplit rfl
      rw [singleton_inj.mp hlast]
      exact Or.inl hstart
    · rw [concat_eq_append, ← cons_append, ← append_assoc] at hsplit
      obtain ⟨rfl, hlast⟩ := append_inj' hsplit rfl
      obtain rfl := singleton_inj.mp hlast
      refine Or.inr ⟨hafter event (by simp), before, start, after, rfl, hstart, fun e he => ?_⟩
      apply hafter
      simp [he]
  · rintro (hstart | ⟨hend, before, start, after, rfl, hstart, hafter⟩)
    · exact ⟨events, event, [], rfl, hstart, forall_mem_nil _⟩
    · refine ⟨before, start, after ++ [event], by simp, hstart, fun e he => ?_⟩
      rcases mem_append.mp he with he | he
      · exact hafter e he
      · rw [mem_singleton.mp he]
        exact hend

theorem lastTurnBoundary_isSome_iff :
    ((lastTurnBoundary events).filter (·.type = "turn/start")).isSome = true ↔ InOpenTurn events := by
  induction events using List.reverseRecOn with
  | nil =>
    constructor
    · intro h
      cases h
    · rintro ⟨before, start, after, hsplit, -⟩
      cases before <;> cases hsplit
  | append_singleton events event ih =>
    rw [inOpenTurn_snoc, ← ih, lastTurnBoundary, reverse_append]
    show ((List.find? _ (event :: events.reverse)).filter _).isSome = true ↔ _
    by_cases hstart : event.type = "turn/start"
    · simp [hstart]
    · by_cases hend : event.type = "turn/end"
      · simp [hend]
      · rw [find?_cons_of_neg (by simp [hstart, hend])]
        simp [hstart, hend, lastTurnBoundary]

/-- A prefix is taken where the boundary is a position of the log and no turn is open there. -/
theorem forkPrefix_ok_iff {id : String} {events seed : List SessionEvent} {boundary : JsNumber}
    (hseqs : ∀ (i : Nat) e, events[i]? = some e → e.seq = i) :
    forkPrefix id events boundary = .ok seed ↔ ∃ n, boundaryPosition boundary = some n ∧
      n < events.length ∧ ¬ InOpenTurn (events.take (n + 1)) ∧ seed = events.take (n + 1) := by
  unfold forkPrefix
  cases hposition : boundaryPosition boundary with
  | none =>
    constructor
    · intro h
      cases h
    · rintro ⟨n, hn, -⟩
      cases hn
  | some n =>
    have hcollapse : ∀ P : Nat → Prop, (∃ m, some n = some m ∧ P m) ↔ P n :=
      fun P => ⟨fun ⟨m, hm, h⟩ => Option.some.inj hm ▸ h, fun h => ⟨n, rfl, h⟩⟩
    rw [hcollapse]
    dsimp only
    split
    · next hge =>
      constructor
      · intro h
        cases h
      · rintro ⟨hlt, -⟩
        omega
    · next hlt =>
      have hevent : events[n]?.map (·.seq) = some (n : Int) := by
        rw [getElem?_eq_getElem (not_le.mp hlt), map_some, hseqs n _ (getElem?_eq_getElem (not_le.mp hlt))]
      rw [if_neg fun hne => hne hevent, ← lastTurnBoundary_isSome_iff]
      cases (lastTurnBoundary (events.take (n + 1))).filter (·.type = "turn/start") with
      | some event =>
        constructor
        · intro h
          cases h
        · rintro ⟨-, hopen, -⟩
          exact absurd rfl hopen
      | none => simp [not_le.mp hlt, eq_comm]

/-- **What a boundary selects.** -/
theorem forkSeed_ok_iff {id : String} {events seed : List SessionEvent} {boundary : Option JsNumber}
    (hseqs : ∀ (i : Nat) e, events[i]? = some e → e.seq = i) :
    forkSeed id events boundary = .ok seed ↔ ∃ n, forkLength events.length boundary = some n ∧
      (∀ i, i < n → IsSafe i) ∧ ¬ InOpenTurn (events.take n) ∧ seed = events.take n := by
  cases boundary with
  | some boundary =>
    rw [show forkSeed id events (some boundary) = forkPrefix id events boundary from rfl, forkPrefix_ok_iff hseqs]
    constructor
    · rintro ⟨n, hn, hlt, hopen, rfl⟩
      refine ⟨n + 1, ?_, fun i hi => ?_, hopen, rfl⟩
      · show (boundaryPosition boundary).bind _ = _
        rw [hn, bind_some, if_pos hlt]
      · exact isSafe_ofNat_of_le (boundaryPosition_safe hn) (by omega)
    · rintro ⟨m, hm, -, hopen, rfl⟩
      obtain ⟨n, hn, hm⟩ := bind_eq_some_iff.mp
        (show (boundaryPosition boundary).bind _ = some m from hm)
      split at hm
      · next hlt =>
        cases hm
        exact ⟨n, hn, hlt, hopen, rfl⟩
      · cases hm
  | none =>
    have hall : ∀ n, forkLength events.length none = some n ↔ n = events.length :=
      fun n => by simp [forkLength, eq_comm]
    simp only [hall, exists_eq_left, take_length]
    rcases eq_nil_or_concat events with rfl | ⟨before, last, rfl⟩
    · show Except.ok [] = Except.ok seed ↔ _
      have hnot : ¬ InOpenTurn [] := by
        rintro ⟨before, start, after, hsplit, -⟩
        cases before <;> cases hsplit
      simp [hnot, eq_comm]
    · rw [concat_eq_append] at hseqs ⊢
      -- the last event sits at the last position
      have hlast : last.seq = before.length := hseqs before.length last (by simp)
      have hseed : forkSeed id (before ++ [last]) none
          = forkPrefix id (before ++ [last]) (.finite (.int before.length)) := by
        unfold forkSeed
        rw [getLast?_concat]
        show forkPrefix id (before ++ [last]) (.finite (.int last.seq)) = _
        rw [hlast]
      have hposition : ∀ n, boundaryPosition (.finite (.int before.length)) = some n ↔
          IsSafe before.length ∧ n = before.length := by
        intro n
        simp only [boundaryPosition, Int.natCast_nonneg, and_true, Int.toNat_natCast]
        split
        · next hsafe => simp [hsafe, eq_comm]
        · next hrefused => simp [hrefused]
      rw [hseed, forkPrefix_ok_iff hseqs]
      simp only [hposition, length_append, length_singleton]
      constructor
      · rintro ⟨n, ⟨hsafe, rfl⟩, -, hopen, rfl⟩
        rw [take_of_length_le (by simp)] at hopen ⊢
        exact ⟨fun i hi => isSafe_ofNat_of_le hsafe (by omega), hopen, rfl⟩
      · rintro ⟨hsafe, hopen, rfl⟩
        refine ⟨before.length, ⟨hsafe _ (by omega), rfl⟩, by omega, ?_⟩
        rw [take_of_length_le (by simp)]
        exact ⟨hopen, rfl⟩

namespace SessionStore

variable {s : SessionStore}

/-! ## Creating a session -/

variable {id : String} {now : EpochMs} {seed : Option (List JsValue)}

theorem create_refused {error : JsError} (hid : s.store.lookup id = none)
    (hmade : Session.create id seed now = .error error) : s.create id seed now = (s, .error error) := by
  simp [create, prepare, hid, hmade]

theorem Inv.lt_of_key (e : Nat) {key : String × Nat} (hkey : s.key e = some key) : e < s.entries.length := by
  obtain ⟨entry, hentry, -⟩ := map_eq_some_iff.mp hkey
  exact (List.getElem?_eq_some_iff.mp hentry).1

theorem Inv.unattached (hinv : s.Inv) : s.attachments.lookup s.sessions.length = none := by
  rw [eq_none_iff_forall_ne_some]
  intro e hattached
  obtain ⟨id, hkey, -⟩ := (hinv.attachment _ e).mp hattached
  obtain ⟨session, hsession, -⟩ := hinv.session e id _ hkey
  have hlt := (List.getElem?_eq_some_iff.mp hsession).1
  omega

/-- The store once a session is created: it is the last object and the last entry. -/
def created (s : SessionStore) (session : Session) : SessionStore :=
  ((({ s with sessions := s.sessions ++ [session] }.add s.sessions.length session.id).setFlags
    s.entries.length fun flags => { flags with announced := true, announcing := true }).push
    (.created s.entries.length)).tell (.created s.entries.length)

theorem entries_created_self (s : SessionStore) (session : Session) :
    (s.created session).entries[s.entries.length]? = some
      { id := session.id, session := s.sessions.length, flags := { announced := true, announcing := true } } := by
  show ((s.entries ++ [_]).modify s.entries.length _)[s.entries.length]? = _
  rw [getElem?_modify_eq, getElem?_concat_length]
  rfl

theorem entries_created_of_lt (s : SessionStore) (session : Session) {e : Nat} (he : e < s.entries.length) :
    (s.created session).entries[e]? = s.entries[e]? := by
  show ((s.entries ++ [_]).modify s.entries.length _)[e]? = _
  rw [getElem?_modify_ne _ _ (by omega), List.getElem?_append_left he]

variable {session : Session}

theorem create_accepted (hinv : s.Inv) (hid : s.store.lookup id = none)
    (hmade : Session.create id seed now = .ok session) :
    s.create id seed now = (s.created session, .ok s.sessions.length) := by
  have hname : session.id = id := by
    obtain ⟨_, -, hrep⟩ := create_represents hmade
    exact hrep.id
  have hprepare : s.prepare id seed now = ({ s with sessions := s.sessions ++ [session] }, .ok s.sessions.length) := by
    simp [prepare, hid, hmade]
  have henter : enter { s with sessions := s.sessions ++ [session] } s.sessions.length session
      = (add { s with sessions := s.sessions ++ [session] } s.sessions.length session.id,
        .ok s.entries.length) := by
    simp [enter, hname, hid, hinv.unattached]
  have hlive : (add { s with sessions := s.sessions ++ [session] } s.sessions.length
      session.id).liveEntryFor s.sessions.length session
        = .ok (s.entries.length, { id := session.id, session := s.sessions.length }) := by
    simp [liveEntryFor, add, lookup_set]
  unfold create
  rw [hprepare]
  dsimp only
  rw [getElem?_concat_length, getD_some, henter]
  dsimp only
  unfold announce
  rw [hlive]
  rfl

theorem live_created (s : SessionStore) (session : Session) :
    (s.created session).live session.id = some (s.sessions.length, session) := by
  have hget : (s.created session).get session.id = some s.sessions.length := by
    show ((s.store.set session.id s.entries.length).lookup session.id).bind
      (fun e => (s.created session).entries[e]?.map (·.session)) = _
    rw [lookup_set, if_pos rfl, bind_some, entries_created_self]
    rfl
  have hsession : (s.created session).sessions[s.sessions.length]? = some session := getElem?_concat_length
  simp [live, hget, hsession]

theorem attachment_created {ref : Nat} (hinv : s.Inv) (session : Session) (href : ref < s.sessions.length) :
    (s.created session).attachment ref = s.attachment ref := by
  show ((s.attachments.set s.sessions.length s.entries.length).lookup ref).bind
    (fun e => (s.created session).entries[e]?.map (·.flags)) = _
  rw [lookup_set, if_neg href.ne]
  cases hattached : s.attachments.lookup ref with
  | none => simp [attachment, hattached]
  | some e =>
    obtain ⟨id, hkey, -⟩ := (hinv.attachment ref e).mp hattached
    simp [attachment, hattached, entries_created_of_lt s session (Inv.lt_of_key e hkey)]

theorem rollback_created (hinv : s.Inv) (session : Session) : ∃ s', (s.created session).rollback = some s' ∧
    s'.live session.id = none ∧ s'.sessions = s.sessions ++ [session] ∧
    ∀ ref, ref < s.sessions.length → s'.attachment ref = s.attachment ref := by
  have hstore : (s.created session).store.lookup session.id = some s.entries.length := by
    show (s.store.set session.id s.entries.length).lookup session.id = _
    rw [lookup_set, if_pos rfl]
  let mid := setFlags { s.created session with frames := s.frames } s.entries.length
    fun flags => { flags with announcing := false }
  let entry : StoreEntry := { id := session.id, session := s.sessions.length, flags := { announced := true } }
  have hunwind : (s.created session).unwind = some mid := by
    show ((s.created session).entries[s.entries.length]?).map _ = _
    rw [entries_created_self]
    rfl
  have hentry : mid.entries[s.entries.length]? = some entry := by
    show ((s.created session).entries.modify s.entries.length _)[s.entries.length]? = _
    rw [getElem?_modify_eq, entries_created_self]
    rfl
  have hrollback : (s.created session).rollback = some (mid.detach s.entries.length entry) := by
    show (s.created session).unwind.bind _ = _
    rw [hunwind, bind_some]
    show (mid.entries[s.entries.length]?).map _ = _
    rw [hentry, map_some]
  -- the capability is unspent and nothing is being published
  have hdetach : mid.detach s.entries.length entry =
      (((mid.setFlags s.entries.length fun flags => { flags with entered := false }).setFlags s.entries.length
        fun flags => { flags with detachRequested := false }).remove entry).emitDisposed s.entries.length := by
    show detachEntered _ _ entry = _
    unfold detachEntered
    dsimp only
    rw [if_neg fun hne => hne hstore]
    rfl
  refine ⟨_, hrollback, ?_, ?_, fun ref href => ?_⟩
  · have hgone : (mid.detach s.entries.length entry).store.lookup session.id = none := by
      rw [hdetach]
      show ((s.created session).store.erase session.id).lookup session.id = _
      rw [lookup_erase, if_pos rfl]
    simp [live, get, hgone]
  · rw [hdetach]
    rfl
  · rw [← attachment_created hinv session href]
    have htables : (mid.detach s.entries.length entry).attachments
        = (s.created session).attachments.erase s.sessions.length := by
      rw [hdetach]
      rfl
    have hflags : ∀ e, e < s.entries.length →
        (mid.detach s.entries.length entry).entries[e]? = (s.created session).entries[e]? := by
      intro e he
      rw [(touches_detach mid s.entries.length entry).others e he.ne,
        (touches_setFlags _ s.entries.length _).others e he.ne]
    unfold attachment
    rw [htables, lookup_erase, if_neg href.ne]
    cases hattached : (s.created session).attachments.lookup ref with
    | none => rfl
    | some e =>
      replace hattached : s.attachments.lookup ref = some e := by
        have hset : (s.attachments.set s.sessions.length s.entries.length).lookup ref = some e := hattached
        rwa [lookup_set, if_neg href.ne] at hset
      obtain ⟨id, hkey, -⟩ := (hinv.attachment ref e).mp hattached
      rw [bind_some, bind_some, hflags e (Inv.lt_of_key e hkey)]

/-! ## Fork -/

variable {source : s.ForkSource}

theorem session_of_resolve {ref : Nat} {parent : Session} (h : s.resolveForkSource source = .ok (ref, parent)) : s.sessions[ref]? = some parent := by
  have hlive : ∀ {id : String}, s.live id = some (ref, parent) → s.sessions[ref]? = some parent := by
    intro id h
    obtain ⟨ref', -, h⟩ := bind_eq_some_iff.mp h
    obtain ⟨parent', hsession, h⟩ := bind_eq_some_iff.mp h
    cases Option.some.inj h
    exact hsession
  cases source with
  | id id =>
    simp only [resolveForkSource] at h
    split at h
    · cases h
    · next source hsource =>
      cases h
      exact hlive hsource
  | session ref' =>
    simp only [resolveForkSource] at h
    split at h
    · cases h
    · next live session hsource =>
      split at h
      · cases h
      · cases Except.ok.inj h
        exact hlive hsource

theorem events_of_kept {parent : Session} (h : parent.Kept) :
    parent.events = ({ parent with eventsSnapshot := some parent.log }, parent.log) := by
  obtain ⟨a, hrep, -⟩ := h
  unfold Session.events
  cases hsnapshot : parent.eventsSnapshot with
  | none => rfl
  | some snapshot =>
    obtain rfl := hrep.snapshot snapshot hsnapshot
    have hsame : ({ parent with eventsSnapshot := some parent.log } : Session) = parent := by rw [← hsnapshot]
    exact Prod.ext hsame.symm rfl

/-- The sessions there were are as they were, up to an event snapshot one of them keeps by now. -/
structure Untouched (s s' : SessionStore) : Prop where
  sessions : ∀ (ref : Nat) (session : Session), s.sessions[ref]? = some session → s'.sessions[ref]? = some session ∨
      s'.sessions[ref]? = some { session with eventsSnapshot := some session.log }
  attachment : ∀ ref, ref < s.sessions.length → s'.attachment ref = s.attachment ref

theorem Untouched.refl (s : SessionStore) : s.Untouched s := ⟨fun _ _ h => Or.inl h, fun _ _ => rfl⟩

variable {ref : Nat} {parent : Session}

theorem Untouched.readEvents (hkept : parent.Kept) (hparent : s.sessions[ref]? = some parent) :
    s.Untouched (s.readEvents ref parent).1 := by
  refine ⟨fun ref' session hsession => ?_, fun _ _ => rfl⟩
  show (s.sessions.set ref parent.events.1)[ref']? = _ ∨ (s.sessions.set ref parent.events.1)[ref']? = _
  rw [getElem?_set, events_of_kept hkept]
  split
  · next heq =>
    subst heq
    cases hparent.symm.trans hsession
    rw [if_pos (List.getElem?_eq_some_iff.mp hparent).1]
    exact Or.inr rfl
  · exact Or.inl hsession

theorem Untouched.trans {mid s' : SessionStore} (h : s.Untouched mid)
    (hlength : mid.sessions.length = s.sessions.length)
    (hsessions : s'.sessions = mid.sessions ++ [session])
    (hattachment : ∀ ref, ref < mid.sessions.length → s'.attachment ref = mid.attachment ref) :
    s.Untouched s' := by
  refine ⟨fun ref' old hold => ?_, fun ref' href' => ?_⟩
  · have hlt : ref' < mid.sessions.length := by
      rw [hlength]
      exact (List.getElem?_eq_some_iff.mp hold).1
    rw [hsessions, List.getElem?_append_left hlt]
    exact h.sessions ref' old hold
  · rw [hattachment ref' (by omega), h.attachment ref' href']

theorem Inv.readEvents (hinv : s.Inv) (hparent : s.sessions[ref]? = some parent) :
    (s.readEvents ref parent).1.Inv := by
  refine hinv.quiet rfl rfl rfl (fun _ => rfl) fun ref' session hsession => ?_
  show ∃ session', (s.sessions.set ref parent.events.1)[ref']? = some session' ∧ _
  rw [getElem?_set]
  split
  · next heq =>
    subst heq
    cases hparent.symm.trans hsession
    refine ⟨_, if_pos (List.getElem?_eq_some_iff.mp hparent).1, ?_⟩
    unfold Session.events
    split <;> rfl
  · exact ⟨session, hsession, rfl⟩

def ChildId.Free (child : s.ChildId) : Prop := s.store.lookup child.id = none

variable {child : s.ChildId}

theorem taken_eq_false_iff (hinv : s.Inv) : ¬ child.taken = true ↔ child.Free := by
  cases child with
  | given id =>
    show ¬ (s.get id).isSome = true ↔ s.store.lookup id = none
    unfold get
    cases hlookup : s.store.lookup id with
    | none => simp
    | some e =>
      obtain ⟨ref, hkey⟩ := hinv.stored id e hlookup
      obtain ⟨entry, hentry, -⟩ := map_eq_some_iff.mp hkey
      simp [hentry]
  | minted id free => simp [ChildId.taken, ChildId.Free, ChildId.id, free]

theorem fork_resolved (hinv : s.Inv) (hsound : s.Sound) (boundary : Option JsNumber) (now : EpochMs)
    (hfree : child.Free) (hsource : s.resolveForkSource source = .ok (ref, parent)) :
    s.fork source boundary child now =
      match forkSeed parent.id (eventsOf parent.log) boundary with
      | .error e => ((s.readEvents ref parent).1, .error e)
      | .ok seed =>
        match Session.create child.id (some (seedOfEvents seed)) now with
        | .error e => ((s.readEvents ref parent).1, .error (.other e))
        | .ok session => ((s.readEvents ref parent).1.created session, .ok s.sessions.length) := by
  have hparent := session_of_resolve hsource
  have hread : s.readEvents ref parent = ((s.readEvents ref parent).1, parent.log) := by
    refine Prod.ext rfl ?_
    show parent.events.2 = _
    rw [events_of_kept (hsound.sessions ref parent hparent)]
  have hlookup : (s.readEvents ref parent).1.store.lookup child.id = none := hfree
  have hlength : (s.readEvents ref parent).1.sessions.length = s.sessions.length := length_set
  unfold fork
  rw [if_neg (by rw [taken_eq_false_iff hinv]; exact hfree), hsource]
  dsimp only
  rw [hread]
  dsimp only
  cases forkSeed parent.id (eventsOf parent.log) boundary with
  | error e => rfl
  | ok seed =>
    dsimp only
    cases hmade : Session.create child.id (some (seedOfEvents seed)) now with
    | error e => rw [create_refused hlookup hmade]
    | ok session => rw [create_accepted (hinv.readEvents hparent) hlookup hmade, hlength]

theorem fork_unresolved (hinv : s.Inv) (boundary : Option JsNumber) (now : EpochMs)
    (h : child.Free → ∀ ref parent, s.resolveForkSource source ≠ .ok (ref, parent)) :
    ∃ e, s.fork source boundary child now = (s, .error e) := by
  unfold fork
  split
  · exact ⟨_, rfl⟩
  · next hfree =>
    rw [taken_eq_false_iff hinv] at hfree
    cases hsource : s.resolveForkSource source with
    | error e => exact ⟨e, rfl⟩
    | ok found => exact absurd hsource (h hfree found.1 found.2)

theorem surface_seededLog {id' : String} {events : List SessionEvent} {state : SurfaceFoldState}
    {rs : List SurfaceFoldReplacement} (h : surfaceAfter events = .ok (state, rs)) (marked : Bool)
    (now : EpochMs) {entry entry' : Option SessionEntry} :
    ScratchSession.surface ⟨id, seededLog marked events now, entry⟩
      = ScratchSession.surface ⟨id', events, entry'⟩ := by
  unfold ScratchSession.surface seededLog
  dsimp only
  split
  · rw [foldSurface_of_surfaceAfter (surfaceAfter_endSeed h now), foldSurface_of_surfaceAfter h]
  · rfl

/-- The prefix a fork through `n` events copies, and what may refuse it. -/
def Forkable (log : List SessionEvent) (boundary : Option JsNumber) (n : Nat) : Prop :=
  forkLength log.length boundary = some n ∧ ¬ InOpenTurn (log.take n) ∧ SeedShaped (log.take n)

/-- Of a kept session positions are seqs, and every prefix is accepted by the surface. -/
theorem prefix_of_kept (hkept : parent.Kept) (n : Nat) :
    (∀ (i : Nat) e, (eventsOf parent.log)[i]? = some e → e.seq = i) ∧
      (∀ e ∈ (eventsOf parent.log).take n, Storable e) ∧
      ∃ state rs, surfaceAfter ((eventsOf parent.log).take n) = .ok (state, rs) := by
  obtain ⟨a, hrep, hstorable⟩ := hkept
  obtain ⟨state, rs, hfold, -⟩ := hrep.cache
  rw [hrep.log]
  refine ⟨fun i e he => surfaceAfter_seq hfold he, fun e he => hstorable e (mem_of_mem_take he), ?_⟩
  rw [← take_append_drop n a.log] at hfold
  obtain ⟨state', rs', hprefix, -⟩ := surfaceAfter_prefix hfold
  exact ⟨state', rs', hprefix⟩

theorem child_of_prefix (hkept : parent.Kept) {n : Nat}
    (hmade : Session.create id (some (seedOfEvents ((eventsOf parent.log).take n))) now = .ok session) :
    eventsOf session.log = seededLog true ((eventsOf parent.log).take n) now ∧
      session.surface.2 = ScratchSession.surface ⟨id, (eventsOf parent.log).take n, none⟩ ∧
      session.deriveMessages.2 = scratchMessages ((eventsOf parent.log).take n) ∧ session.id = id := by
  obtain ⟨-, hstorable, state, rs, hfold⟩ := prefix_of_kept hkept n
  have hrep := represents_of_seedOfEvents hstorable hmade
  obtain ⟨_, hsurface, -⟩ := hrep.surface
  obtain ⟨_, hderive, -⟩ := hrep.deriveMessages
  refine ⟨hrep.log, ?_, ?_, hrep.id⟩
  · rw [hsurface]
    exact surface_seededLog hfold true now
  · rw [hderive]
    exact scratchMessages_seededLog hfold true now

/-- **When a fork of a live session succeeds**, and how it ends then. -/
theorem fork_resolved_ok_iff (hinv : s.Inv) (hsound : s.Sound) {boundary : Option JsNumber}
    (hfree : child.Free) (hsource : s.resolveForkSource source = .ok (ref, parent)) {s' : SessionStore}
    {made : Nat} :
    s.fork source boundary child now = (s', .ok made) ↔ ∃ n session, Forkable (eventsOf parent.log) boundary n ∧
        Session.create child.id (some (seedOfEvents ((eventsOf parent.log).take n))) now = .ok session ∧
        s' = (s.readEvents ref parent).1.created session ∧ made = s.sessions.length := by
  have hkept := hsound.sessions ref parent (session_of_resolve hsource)
  rw [fork_resolved hinv hsound boundary now hfree hsource]
  constructor
  · intro h
    split at h
    · cases h
    · next seed hseed =>
      obtain ⟨n, hn, hsafe, hclosed, rfl⟩ := (forkSeed_ok_iff (prefix_of_kept hkept 0).1).mp hseed
      obtain ⟨-, hstorable, state, rs, hfold⟩ := prefix_of_kept hkept n
      split at h
      · cases h
      · next session hmade =>
        obtain ⟨rfl, hsome⟩ := Prod.mk.inj h
        exact ⟨n, session, ⟨hn, hclosed, (create_seedOfEvents_iff hfold hstorable _ _).mp ⟨session, hmade⟩⟩,
          hmade, rfl, (Except.ok.inj hsome).symm⟩
  · rintro ⟨n, session, ⟨hn, hclosed, hshape⟩, hmade, rfl, rfl⟩
    have hsafe : ∀ i, i < n → IsSafe i := by
      intro i hi
      have hlt : i < ((eventsOf parent.log).take n).length := by
        rw [length_take, lt_min_iff]
        exact ⟨hi, lt_of_lt_of_le hi (forkLength_le hn)⟩
      exact (hshape i _ (getElem?_eq_getElem hlt)).1
    have hseed := (@forkSeed_ok_iff parent.id _ _ boundary (prefix_of_kept hkept 0).1).mpr
      ⟨n, hn, hsafe, hclosed, rfl⟩
    rw [hseed]
    dsimp only
    rw [hmade]

/-- **Session fork.**  A fork succeeds exactly when the child's id is free, the source is live, and the boundary
selects a prefix that is in no open turn and has the shape the seed boundary checks. The child is then live with that
prefix as its log, behind it at most the end-of-seed marker, and its surface and messages are those of the prefix. The
other sessions are untouched, also when a listener vetoes the child; a fork refused leaves the rest of the store as it
was. -/
theorem fork_spec {acts : List StoreAct} (hrun : Machine.exec SessionStore.step {} acts = some s)
    (source : s.ForkSource) (boundary : Option JsNumber) (child : s.ChildId) (now : EpochMs) :
    ((∃ s' made, s.fork source boundary child now = (s', .ok made)) ↔ child.Free ∧
      ∃ ref parent n, s.resolveForkSource source = .ok (ref, parent) ∧ Forkable (eventsOf parent.log) boundary n) ∧
    (∀ s' made, s.fork source boundary child now = (s', .ok made) →
      ∃ ref parent n session, s.resolveForkSource source = .ok (ref, parent) ∧
        Forkable (eventsOf parent.log) boundary n ∧ s'.live child.id = some (made, session) ∧
        eventsOf session.log = seededLog true ((eventsOf parent.log).take n) now ∧
        session.surface.2 = ScratchSession.surface ⟨child.id, (eventsOf parent.log).take n, none⟩ ∧
        session.deriveMessages.2 = scratchMessages ((eventsOf parent.log).take n) ∧
        ∃ s'', s'.rollback = some s'' ∧ s''.live child.id = none ∧ s.Untouched s'') ∧
    s.Untouched (s.fork source boundary child now).1 ∧
    ∀ e, (s.fork source boundary child now).2 = .error e →
      (s.fork source boundary child now).1.sessions.length = s.sessions.length ∧
      (s.fork source boundary child now).1 = { s with sessions := (s.fork source boundary child now).1.sessions } := by
  obtain ⟨hinv, hsound⟩ := Sound.run hrun
  by_cases hresolved : child.Free ∧ ∃ ref parent, s.resolveForkSource source = .ok (ref, parent)
  · obtain ⟨hfree, ref, parent, hsource⟩ := hresolved
    have hkept := hsound.sessions ref parent (session_of_resolve hsource)
    have hread := Untouched.readEvents hkept (session_of_resolve hsource)
    have hlength : (s.readEvents ref parent).1.sessions.length = s.sessions.length := length_set
    have hinv' := hinv.readEvents (session_of_resolve hsource)
    refine ⟨⟨?_, ?_⟩, ?_, ?_, ?_⟩
    · rintro ⟨s', made, hfork⟩
      obtain ⟨n, -, hforkable, -⟩ := (fork_resolved_ok_iff hinv hsound hfree hsource).mp hfork
      exact ⟨hfree, ref, parent, n, hsource, hforkable⟩
    · rintro ⟨-, ref', parent', n, hsource', hforkable⟩
      cases Except.ok.inj (hsource.symm.trans hsource')
      obtain ⟨-, hstorable, state, rs, hfold⟩ := prefix_of_kept hkept n
      obtain ⟨session, hmade⟩ := (create_seedOfEvents_iff hfold hstorable child.id now).mpr hforkable.2.2
      exact ⟨_, _, (fork_resolved_ok_iff hinv hsound hfree hsource).mpr ⟨n, session, hforkable, hmade, rfl, rfl⟩⟩
    · intro s' made hfork
      obtain ⟨n, session, hforkable, hmade, rfl, rfl⟩ := (fork_resolved_ok_iff hinv hsound hfree hsource).mp hfork
      obtain ⟨hlog, hsurface, hmessages, hid⟩ := child_of_prefix hkept hmade
      have hlive := live_created (s.readEvents ref parent).1 session
      obtain ⟨s'', hrollback, hgone, hsessions, hattachment⟩ := rollback_created hinv' session
      rw [hid] at hlive hgone
      rw [hlength] at hlive
      exact ⟨ref, parent, n, session, hsource, hforkable, hlive, hlog, hsurface, hmessages, s'', hrollback,
        hgone, hread.trans hlength hsessions hattachment⟩
    · rw [fork_resolved hinv hsound boundary now hfree hsource]
      split
      · exact hread
      · split
        · exact hread
        · next session hmade =>
          exact hread.trans hlength rfl fun ref' href' => attachment_created hinv' session href'
    · intro e herror
      rw [fork_resolved hinv hsound boundary now hfree hsource] at herror ⊢
      split at herror
      · exact ⟨hlength, rfl⟩
      · split at herror
        · exact ⟨hlength, rfl⟩
        · cases herror
  · have hrefused : child.Free → ∀ ref parent, s.resolveForkSource source ≠ .ok (ref, parent) :=
      fun hfree ref parent hsource => hresolved ⟨hfree, ref, parent, hsource⟩
    obtain ⟨e, hfork⟩ := fork_unresolved hinv boundary now hrefused
    rw [hfork]
    refine ⟨⟨?_, ?_⟩, ?_, .refl s, fun _ _ => ⟨rfl, rfl⟩⟩
    · rintro ⟨s', made, h⟩
      cases h
    · rintro ⟨hfree, ref, parent, n, hsource, -⟩
      exact absurd hsource (hrefused hfree ref parent)
    · intro s' made h
      cases h

variable (messageId : String)

def oneMessage : List StoreAct :=
  [.prepare "parent" none ⟨0, isSafe_zero⟩, .enter 0, .announce 0, .unwind, .append 0 (userMessage messageId),
    .resolve, .unwind]

theorem oneMessage_run : ∃ s, Machine.exec step {} (oneMessage messageId) = some s ∧
    ∃ parent, s.resolveForkSource (.id "parent") = .ok (0, parent) ∧ s.store.lookup "child" = none ∧
      eventsOf parent.log = eventsOf (messageSession messageId).log :=
  ⟨_, rfl, _, rfl, rfl, rfl⟩

theorem message_closed : ¬ InOpenTurn ((eventsOf (messageSession messageId).log).take 1) := by
  rw [← lastTurnBoundary_isSome_iff]
  exact Bool.false_ne_true

/-- A session with an identified message is forked. -/
theorem fork_spec_identified : ∃ s, Machine.exec step {} (oneMessage "m1") = some s ∧
    ∃ s' made, s.fork (.id "parent") none (.given "child") ⟨0, by decide⟩ = (s', .ok made) := by
  obtain ⟨s, hrun, parent, hsource, hfree, hlog⟩ := oneMessage_run "m1"
  obtain ⟨hforks, -⟩ := fork_spec hrun (.id "parent") none (.given "child") ⟨0, by decide⟩
  refine ⟨s, hrun, hforks.mpr ⟨hfree, 0, parent, 1, hsource, ?_⟩⟩
  rw [hlog]
  refine ⟨rfl, message_closed "m1", fun i e he => ?_⟩
  cases i with
  | zero =>
    cases he
    exact ⟨by decide, rfl⟩
  | succ i => exact absurd he nofun

/-- **A prefix that cannot be forked**: it has a message with an empty id. -/
theorem malformed_prefix_refused : ¬ ∀ (acts : List StoreAct) (s : SessionStore), Machine.exec step {} acts = some s →
      ∀ (source : s.ForkSource) (boundary : Option JsNumber) (child : s.ChildId) (now : EpochMs)
        (ref : Nat) (parent : Session), child.Free → s.resolveForkSource source = .ok (ref, parent) →
      ((∃ s' made, s.fork source boundary child now = (s', .ok made)) ↔
        ∃ n, forkLength (eventsOf parent.log).length boundary = some n ∧
          ¬ InOpenTurn ((eventsOf parent.log).take n)) := by
  intro h
  obtain ⟨s, hrun, parent, hsource, hfree, hlog⟩ := oneMessage_run ""
  have hchild : ChildId.Free (.given "child" : s.ChildId) := hfree
  have hclosed : ¬ InOpenTurn ((eventsOf parent.log).take 1) := by
    rw [hlog]
    exact message_closed ""
  have hone : forkLength (eventsOf parent.log).length none = some 1 := by
    rw [hlog]
    rfl
  obtain ⟨s', made, hfork⟩ := (h _ s hrun (.id "parent") none (.given "child") ⟨0, by decide⟩ 0 parent hchild
    hsource).mpr ⟨1, hone, hclosed⟩
  obtain ⟨hinv, hsound⟩ := Sound.run hrun
  obtain ⟨n, -, ⟨hn, -, hshape⟩, -⟩ := (fork_resolved_ok_iff hinv hsound hchild hsource).mp hfork
  cases hn.symm.trans hone
  rw [hlog] at hshape
  obtain ⟨-, hrefused⟩ := hshape 0 _ rfl
  cases hrefused

end SessionStore

end CocoHarness.SessionLog
