/-
# CocoHarness.SessionLog.Store — the session store and its re-entrant dispatches.

The store holds at most one live entry per session id.  An entry is entered, announced once, published to on every
append of its session, and detached through a capability that works once; the disposal of an announced entry is
published in turn.  Each of these publications runs listeners, and a listener may call anything again.

The dispatches in progress are kept as a stack: an operation that runs listeners ends where they begin and pushes a
frame, whatever they do happens on top of it, and `unwind` ends the innermost dispatch, by return or by throw.
-/
import CocoHarness.Lib.InsertionMap
import CocoHarness.SessionLog.Live

namespace CocoHarness.SessionLog

open Lib

/-! ## Data -/

/-- One exact store entry: whose session it attaches under which id, and its lifecycle flags. -/
structure StoreEntry where
  id : String
  session : Nat
  flags : SessionEntry := {}

/-- A publication has committed its event once its listeners are resolved. -/
inductive Frame where
  | created (entry : Nat)
  | event (entry : Nat) (event : EventRef) (committed : Bool)
  | disposed (entry : Nat)

inductive Notice where
  | created (entry : Nat)
  | event (entry : Nat) (event : EventRef)
  | disposed (entry : Nat)

/-- The store, with the sessions and entries it has seen, named by position. -/
structure SessionStore where
  sessions : List Session := []
  entries : List StoreEntry := []
  /-- Live entries by session id. -/
  store : InsertionMap String Nat := ∅
  /-- The entry each session is attached through. -/
  attachments : InsertionMap Nat Nat := ∅
  /-- Dispatches in progress, innermost first. -/
  frames : List Frame := []
  /-- Everything published so far. -/
  notices : List Notice := []

variable (id : String)

def sessionExists : JsError := .error s!"session \"{id}\" already exists"

def alreadyAttached : JsError := .error s!"session \"{id}\" is already attached to a store"

def notLive : JsError := .error s!"session \"{id}\" is not live in this store"

def alreadyAnnounced : JsError := .error s!"session \"{id}\" was already announced"

namespace SessionStore

/-! ## Lookups -/

variable (s : SessionStore)

def get (id : String) : Option Nat :=
  (s.store.lookup id).bind fun e => s.entries[e]?.map (·.session)

def list : List Nat := s.store.entries.filterMap fun kv => s.entries[kv.2]?.map (·.session)

def attachment (ref : Nat) : Option SessionEntry :=
  (s.attachments.lookup ref).bind fun e => s.entries[e]?.map (·.flags)

def setFlags (e : Nat) (f : SessionEntry → SessionEntry) : SessionStore :=
  { s with entries := s.entries.modify e fun entry => { entry with flags := f entry.flags } }

/-- Write a session object; what it is attached through is the store's. -/
def setSession (ref : Nat) (session : Session) : SessionStore :=
  { s with sessions := s.sessions.set ref { session with entry := none } }

def push (frame : Frame) : SessionStore := { s with frames := frame :: s.frames }

def tell (notice : Notice) : SessionStore := { s with notices := s.notices ++ [notice] }

/-! ## Enter and detach -/

def prepare (id : String) (seed : Option (List JsValue)) (now : EpochMs) : SessionStore × Except JsError Nat :=
  if (s.store.lookup id).isSome then (s, .error (sessionExists id))
  else
    match Session.create id seed now with
    | .error e => (s, .error e)
    | .ok session => ({ s with sessions := s.sessions ++ [session] }, .ok s.sessions.length)

def add (ref : Nat) (id : String) : SessionStore :=
  { s with
    entries := s.entries ++ [{ id, session := ref }]
    store := s.store.set id s.entries.length
    attachments := s.attachments.set ref s.entries.length }

/-- Enter a prepared session; the caller gets the detach capability of the entry. -/
def enter (ref : Nat) (session : Session) : SessionStore × Except JsError Nat :=
  if (s.store.lookup session.id).isSome then (s, .error (sessionExists session.id))
  else if (s.attachments.lookup ref).isSome then (s, .error (alreadyAttached session.id))
  else (s.add ref session.id, .ok s.entries.length)

def remove (entry : StoreEntry) : SessionStore :=
  { s with store := s.store.erase entry.id, attachments := s.attachments.erase entry.session }

/-- Publish the paired teardown; its listeners are contained one by one. -/
def emitDisposed (e : Nat) : SessionStore := (s.push (.disposed e)).tell (.disposed e)

/-- Remove one exact entered session, and publish its disposal when it was announced. -/
def detachEntered (e : Nat) (entry : StoreEntry) : SessionStore :=
  let s := s.setFlags e fun flags => { flags with detachRequested := false }
  if s.store.lookup entry.id ≠ some e then s
  else
    let s := s.remove entry
    if entry.flags.announced then s.emitDisposed e else s

/-- The detach capability of an entry: it works once, and waits while the entry is being published. -/
def detach (e : Nat) (entry : StoreEntry) : SessionStore :=
  if ¬ entry.flags.entered then s
  else
    let s := s.setFlags e fun flags => { flags with entered := false }
    if entry.flags.announcing || entry.flags.appending then
      s.setFlags e fun flags => { flags with detachRequested := true }
    else s.detachEntered e entry

/-! ## Announce -/

def liveEntryFor (ref : Nat) (session : Session) : Except JsError (Nat × StoreEntry) :=
  match s.attachments.lookup ref with
  | none => .error (notLive session.id)
  | some e =>
    match s.entries[e]? with
    | none => .error (notLive session.id)
    | some entry => if s.store.lookup entry.id ≠ some e then .error (notLive session.id) else .ok (e, entry)

/-- Announce an entered session, up to its listeners; it counts from here on. -/
def announce (ref : Nat) (session : Session) : SessionStore × Except JsError Unit :=
  match s.liveEntryFor ref session with
  | .error e => (s, .error e)
  | .ok (e, entry) =>
    if entry.flags.announced || entry.flags.announcing then (s, .error (alreadyAnnounced entry.id))
    else
      (((s.setFlags e fun flags => { flags with announced := true, announcing := true }).push
        (.created e)).tell (.created e), .ok ())

def endAnnounce (e : Nat) (entry : StoreEntry) : SessionStore :=
  let s := s.setFlags e fun flags => { flags with announcing := false }
  if entry.flags.detachRequested && !entry.flags.appending then
    s.detachEntered e entry
  else s

/-! ## Append -/

/-- Append to a session, up to its listeners; one that no store holds commits at once. -/
def append (ref : Nat) (session : Session) (request : AppendRequest) : SessionStore × Except JsError EventRef :=
  match ({ session with entry := s.attachment ref } : Session).admitAppend request with
  | (session, .error e) => (s.setSession ref session, .error e)
  | (session, .ok event) =>
    match s.attachments.lookup ref with
    | none => (s.setSession ref (session.commit event), .ok event)
    | some e => (((s.setSession ref session).setFlags e openEntry).push (.event e event false), .ok event)

/-- The listeners are resolved: the event enters the log and its observers run. -/
def commitEvent (e : Nat) (ref : Nat) (session : Session) (event : EventRef) : SessionStore :=
  ((s.setSession ref (session.commit event)).push (.event e event true)).tell (.event e event)

def endAppend (e : Nat) (entry : StoreEntry) : SessionStore :=
  let s := s.setFlags e fun flags => { flags with appending := false }
  if entry.flags.detachRequested && !entry.flags.announcing then
    s.detachEntered e entry
  else s

/-! ## Steps -/

def unwind : Option SessionStore :=
  match s.frames with
  | [] => none
  | .created e :: frames => s.entries[e]?.map fun entry => { s with frames }.endAnnounce e entry
  | .event e _ _ :: frames => s.entries[e]?.map fun entry => { s with frames }.endAppend e entry
  | .disposed _ :: frames => some { s with frames }

/-- The innermost dispatch, a publication, has resolved its listeners. -/
def resolve : Option SessionStore :=
  match s.frames with
  | .event e event false :: frames => do
    let entry ← s.entries[e]?
    let session ← s.sessions[entry.session]?
    return { s with frames }.commitEvent e entry.session session event
  | _ => none

end SessionStore

inductive StoreAct where
  | prepare (id : String) (seed : Option (List JsValue)) (now : EpochMs)
  | enter (ref : Nat)
  | announce (ref : Nat)
  | append (ref : Nat) (request : AppendRequest)
  | resolve
  | detach (entry : Nat)
  | unwind

namespace SessionStore

/-- One action; `none` when it names no session, entry or dispatch. -/
def step (s : SessionStore) : StoreAct → Option SessionStore
  | .prepare id seed now => some (s.prepare id seed now).1
  | .enter ref => s.sessions[ref]?.map fun session => (s.enter ref session).1
  | .announce ref => s.sessions[ref]?.map fun session => (s.announce ref session).1
  | .append ref request => s.sessions[ref]?.map fun session => (s.append ref session request).1
  | .resolve => s.resolve
  | .detach e => s.entries[e]?.map fun entry => s.detach e entry
  | .unwind => s.unwind

end SessionStore

end CocoHarness.SessionLog
