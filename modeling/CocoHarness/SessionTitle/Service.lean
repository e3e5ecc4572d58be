/-
# CocoHarness.SessionTitle.Service — who may title a session.

A session is titled by the newest `session/title` event of its log.  A user names it; a fallback is derived from its
first message as long as it has no title; and a registered provider is called for a revision, which later messages, a
name given by the user and explicit refreshes supersede.

The service hears of the events of a session one after another, and its detached work runs in any order: a deferred
task, the promise of a fallback, each stretch of a provider call between two awaits.
-/
import Mathlib.Algebra.Ring.Nat
import Mathlib.Data.Option.Basic
import CocoHarness.Lib.Machine

namespace CocoHarness.SessionTitle

open Lib Function

/-! ## Titles -/

structure SessionTitleModelProvenance where
  provider : String
  model : String
  deriving DecidableEq, Repr

inductive SessionTitleSource where
  | fallback
  | provider (provider : String) (model : Option SessionTitleModelProvenance)
  | user
  deriving DecidableEq, Repr

structure SessionTitleEventData where
  title : String
  messageSeqs : List Nat
  source : SessionTitleSource
  deriving DecidableEq, Repr

/-- What the service reads of a session's log; the seq of an event is its place. -/
inductive SessionEvent where
  | userMessage (human : Bool) (text : String)
  | requestHeader (config : SessionTitleModelProvenance)
  | stepStart
  | stepEnd
  | title (data : SessionTitleEventData)
  | other
  deriving DecidableEq, Repr

structure Config where
  fallbackMaxWords : Nat
  fallbackMaxBytes : Nat
  maxTitleBytes : Nat
  normalizeSessionTitle : String → Nat → String
  fallbackSessionTitle : String → Nat → Nat → String

def maxSafeInteger : Nat := 2 ^ 53 - 1

structure SessionTitleUserMessage where
  seq : Nat
  text : String
  deriving DecidableEq, Repr

def foldSessionTitle (events : List SessionEvent) : Option SessionTitleEventData :=
  events.reverse.findSome? fun
    | .title data => some data
    | _ => none

def Config.eligible (config : Config) : SessionEvent → Option String
  | .userMessage true text => if config.normalizeSessionTitle text maxSafeInteger = "" then none else some text
  | _ => none

def Config.collect (config : Config) (events : List SessionEvent) (throughSeq : Option Nat := none) :
    List SessionTitleUserMessage :=
  ((events.zipIdx.takeWhile fun e => throughSeq.all (e.2 ≤ ·)).filterMap fun e =>
    (config.eligible e.1).map fun text => { seq := e.2, text })

/-! ## Work -/

inductive SessionTitleAutomaticMode where
  | firstPrompt
  | allPrompts
  deriving DecidableEq, Repr

structure ProviderRegistration where
  id : String
  automatic : SessionTitleAutomaticMode
  closing : Bool := false
  deriving DecidableEq, Repr

structure PendingAutomaticWork where
  registration : Nat
  revision : Nat
  throughSeq : Nat
  deriving DecidableEq, Repr

structure SessionTitleWorkState where
  revision : Nat := 0
  fallback : Option Nat := none
  pending : Option PendingAutomaticWork := none
  active : Option Nat := none
  deriving DecidableEq, Repr

inductive RunStage where
  | scheduled
  /-- In the `await` of `ensureFallback`, on a promise or on what it has returned at once. -/
  | awaitsFallback (fallback : Option Nat)
  | generating (messages : List SessionTitleUserMessage)
  | over
  deriving DecidableEq, Repr

/-- A provider call, for a session and the state object the session had. -/
structure ActiveProviderWork extends PendingAutomaticWork where
  session : Nat
  state : Nat
  route : Option SessionTitleModelProvenance
  /-- The signal is aborted. -/
  aborted : Bool := false
  stage : RunStage := .scheduled
  deriving DecidableEq, Repr

inductive Task where
  | fallback (session : Nat)
  | start (session state : Nat) (pending : PendingAutomaticWork) (route : SessionTitleModelProvenance)
  deriving DecidableEq, Repr

inductive FallbackStage where
  | scheduled
  | settled (ok : Bool)
  | forgotten
  deriving DecidableEq, Repr

/-- The promise of a fallback, kept by a state object until it is forgotten. -/
structure Fallback where
  session : Nat
  state : Nat
  title : String
  seq : Nat
  stage : FallbackStage := .scheduled
  deriving DecidableEq, Repr

structure SessionTitleService where
  log : Nat → List SessionEvent
  /-- The session is the one the store has under its id. -/
  live : Nat → Bool
  /-- How many events of a session the service has heard of. -/
  heard : Nat → Nat
  registration : Option Nat := none
  registrations : Nat → ProviderRegistration := fun _ => ⟨"", .firstPrompt, true⟩
  registered : Nat := 0
  /-- The state objects of the sessions. -/
  work : Nat → Option Nat := fun _ => none
  states : Nat → SessionTitleWorkState := fun _ => {}
  stateCount : Nat := 0
  tasks : Nat → Option Task := fun _ => none
  taskCount : Nat := 0
  runs : Nat → ActiveProviderWork := fun _ => ⟨⟨0, 0, 0⟩, 0, 0, none, true, .over⟩
  runCount : Nat := 0
  fallbacks : Nat → Fallback := fun _ => ⟨0, 0, "", 0, .forgotten⟩
  fallbackCount : Nat := 0
  /-- The plugin fiber is active. -/
  fiberActive : Bool := true
  /-- The lifetime of the service has been aborted. -/
  disposed : Bool := false
  /-- Ghost: the calls whose results were committed. -/
  committed : List Nat := []

namespace SessionTitleService

variable (config : Config)

variable (m : SessionTitleService)

def serviceActive : Bool := !m.disposed && m.fiberActive

def get (s : Nat) : Option SessionTitleEventData := foldSessionTitle (m.log s)

def appendTitle (s : Nat) (data : SessionTitleEventData) : SessionTitleService :=
  { m with log := update m.log s (m.log s ++ [.title data]) }

def modifyState (st : Nat) (f : SessionTitleWorkState → SessionTitleWorkState) : SessionTitleService :=
  { m with states := update m.states st (f (m.states st)) }

def modifyRun (w : Nat) (f : ActiveProviderWork → ActiveProviderWork) : SessionTitleService :=
  { m with runs := update m.runs w (f (m.runs w)) }

def abort (w : Nat) : SessionTitleService := m.modifyRun w fun run => { run with aborted := true }

/-- `stateFor`: the session's state object, made when there is none. -/
def stateFor (s : Nat) : SessionTitleService × Nat :=
  match m.work s with
  | some st => (m, st)
  | none =>
    ({ m with
      work := update m.work s (some m.stateCount)
      states := update m.states m.stateCount {}
      stateCount := m.stateCount + 1 }, m.stateCount)

def supersede (st : Nat) : SessionTitleService :=
  ((m.states st).active.elim m m.abort).modifyState st fun state =>
    { state with pending := none, revision := state.revision + 1 }

def defer (task : Task) : SessionTitleService :=
  { m with tasks := update m.tasks m.taskCount (some task), taskCount := m.taskCount + 1 }

/-- `activate` and `startProvider`: the call is the active one of the state, and is scheduled. -/
def activate (s st : Nat) (pending : PendingAutomaticWork)
    (route : Option SessionTitleModelProvenance) (aborted : Bool) : SessionTitleService :=
  { m.modifyState st fun state => { state with active := some m.runCount } with
    runs := update m.runs m.runCount { pending with session := s, state := st, route, aborted }
    runCount := m.runCount + 1 }

/-- `ensureFallback`, up to its await; it answers the promise it waits for, if any. -/
def ensureFallback (s : Nat) : Option (SessionTitleService × Option Nat) :=
  if ¬ m.serviceActive then none
  else if (m.get s).isSome then some (m, none)
  else
    match (config.collect (m.log s)).head? with
    | none => some (m, none)
    | some first =>
      let title := config.fallbackSessionTitle first.text config.fallbackMaxWords config.fallbackMaxBytes
      if title = "" then some (m, none)
      else
        let (m, st) := m.stateFor s
        match (m.states st).fallback with
        | some f => some (m, some f)
        | none =>
          some ({ m.modifyState st fun state => { state with fallback := some m.fallbackCount } with
            fallbacks := update m.fallbacks m.fallbackCount ⟨s, st, title, first.seq, .scheduled⟩
            fallbackCount := m.fallbackCount + 1 }, some m.fallbackCount)

/-! ## What the service hears -/

def onUserMessage (s seq : Nat) (event : SessionEvent) (forked : Bool) : SessionTitleService :=
  if ¬ m.serviceActive then m
  else if (config.eligible event).isNone then m
  else if (m.get s).any (·.source = .user) then m
  else
    let scheduled :=
      match m.registration with
      | none => m
      | some r =>
        if (m.registrations r).closing then m
        else if (m.registrations r).automatic = SessionTitleAutomaticMode.allPrompts
            ∨ (¬ forked ∧ (config.collect (m.log s) (some seq)).length = 1 ∧ (m.get s).isNone) then
          let (m, st) := m.stateFor s
          let m := m.supersede st
          m.modifyState st fun state =>
            { state with pending := some { registration := r, revision := state.revision, throughSeq := seq } }
        else m
    scheduled.defer (.fallback s)

def startPending (s st : Nat) (pending : PendingAutomaticWork)
    (route : SessionTitleModelProvenance) : SessionTitleService :=
  (m.modifyState st fun state => { state with pending := none }).defer (.start s st pending route)

def onRequestHeader (s seq : Nat) (route : SessionTitleModelProvenance) : SessionTitleService :=
  if ¬ m.serviceActive then m
  else
    match m.work s with
    | none => m
    | some st =>
      match (m.states st).pending with
      | none => m
      | some pending => if pending.throughSeq ≥ seq then m else m.startPending s st pending route

/-- The service hears of the next event of a session; `forked` when the session has a parent. -/
def hear (s : Nat) (forked : Bool) : Option SessionTitleService := do
  let event ← (m.log s)[m.heard s]?
  let seq := m.heard s
  let heard := { m with heard := update m.heard s (seq + 1) }
  match event with
  | .userMessage _ _ => return heard.onUserMessage config s seq event forked
  | .requestHeader route => return heard.onRequestHeader s seq route
  | _ => return heard

def requestHeader (s : Nat) : Option SessionTitleModelProvenance :=
  (m.log s).reverse.findSome? fun
    | .requestHeader config => some config
    | _ => none

def stepBoundary (s : Nat) : Option Nat :=
  ((m.log s).zipIdx.reverse.find? fun e => e.1 = .stepStart ∨ e.1 = .stepEnd).bind fun e =>
    if e.1 = .stepStart then some e.2 else none

def onMainRequest (s : Nat) (options : SessionTitleModelProvenance) : SessionTitleService :=
  if ¬ m.serviceActive ∨ ¬ m.live s then m
  else
    match m.work s with
    | none => m
    | some st =>
      match (m.states st).pending with
      | none => m
      | some pending =>
        if (m.stepBoundary s).any (pending.throughSeq < ·) ∧ m.requestHeader s = some options then
          m.startPending s st pending options
        else m

/-! ## Detached work -/

def runTask (i : Nat) : Option SessionTitleService := do
  let task ← m.tasks i
  let m := { m with tasks := update m.tasks i none }
  if ¬ m.serviceActive then return m
  match task with
  | .fallback s => return (m.ensureFallback config s).elim m (·.1)
  | .start s st pending route =>
    if m.registration ≠ some pending.registration ∨ (m.registrations pending.registration).closing ∨ m.work s ≠ some st
        ∨ (m.states st).revision ≠ pending.revision then return m
    else return m.activate s st pending (some route) false

def runFallback (f : Nat) : Option SessionTitleService := do
  let fallback := m.fallbacks f
  guard (fallback.stage = .scheduled)
  let settled (m : SessionTitleService) (ok : Bool) : SessionTitleService :=
    { m with fallbacks := update m.fallbacks f { fallback with stage := .settled ok } }
  if ¬ m.serviceActive ∨ ¬ m.live fallback.session then return settled m false
  else if (m.get fallback.session).isSome then return settled m true
  else
    return settled (m.appendTitle fallback.session
      { title := fallback.title, messageSeqs := [fallback.seq], source := .fallback }) true

def forgetFallback (f : Nat) : Option SessionTitleService := do
  let fallback := m.fallbacks f
  guard (fallback.stage = .settled true ∨ fallback.stage = .settled false)
  return { m.modifyState fallback.state fun state => { state with fallback := none } with
    fallbacks := update m.fallbacks f { fallback with stage := .forgotten } }

/-! ## Provider calls -/

def isCurrent (w : Nat) : Bool :=
  let run := m.runs w
  m.serviceActive && !run.aborted && m.registration = some run.registration
    && (m.work run.session).any (fun st => (m.states st).active = some w ∧ (m.states st).revision = run.revision)
    && m.live run.session

def endRun (w : Nat) : SessionTitleService :=
  let ended := m.modifyRun w fun run => { run with stage := .over }
  match m.work (m.runs w).session with
  | none => ended
  | some st =>
    if (m.states st).active = some w then ended.modifyState st fun state => { state with active := none } else ended

def beginRun (w : Nat) : Option SessionTitleService := do
  guard ((m.runs w).stage = .scheduled)
  if ¬ m.isCurrent w then return m.endRun w
  else
    match m.ensureFallback config (m.runs w).session with
    | none => return m.endRun w
    | some (m, fallback) => return m.modifyRun w fun run => { run with stage := .awaitsFallback fallback }

/-- A provider call goes on when its fallback has settled, and calls the provider. -/
def continueRun (w : Nat) : Option SessionTitleService := do
  let .awaitsFallback fallback := (m.runs w).stage | none
  guard (fallback.all fun f => (m.fallbacks f).stage ≠ .scheduled)
  if fallback.any fun f => (m.fallbacks f).stage = .settled false then return m.endRun w
  else if ¬ m.isCurrent w then return m.endRun w
  else
    let messages := config.collect (m.log (m.runs w).session) (some (m.runs w).throughSeq)
    return m.modifyRun w fun run => { run with stage := .generating messages }

structure SessionTitleProviderResult where
  title : String
  messageSeqs : List Nat
  model : Option SessionTitleModelProvenance := none
  deriving DecidableEq, Repr

/-- The places of the seqs that a result names; nothing when one is not of the request. -/
def resultOrder (messages : List SessionTitleUserMessage) (seqs : List Nat) : Option (List Nat) :=
  seqs.mapM fun seq => messages.findIdx? (·.seq = seq)

def validateResult (result : SessionTitleProviderResult) (messages : List SessionTitleUserMessage) :
    Option SessionTitleProviderResult := do
  let title := config.normalizeSessionTitle result.title config.maxTitleBytes
  guard (title ≠ "")
  guard (result.messageSeqs ≠ [])
  let places ← resultOrder messages result.messageSeqs
  guard (places.Pairwise (· < ·))
  guard (result.model.all fun model => model.provider ≠ "" ∧ model.model ≠ "")
  return { result with title }

def completeRun (w : Nat) (result : Option SessionTitleProviderResult) : Option SessionTitleService := do
  let .generating messages := (m.runs w).stage | none
  match result with
  | none => return m.endRun w
  | some result =>
    if ¬ m.isCurrent w then return m.endRun w
    else
      match validateResult config result messages with
      | none => return m.endRun w
      | some accepted =>
        let appended := m.appendTitle (m.runs w).session
          { accepted with
            source := .provider (m.registrations (m.runs w).registration).id accepted.model }
        return { appended.endRun w with committed := m.committed ++ [w] }

/-! ## Calls -/

def rename (s : Nat) (title : String) (appends : Bool) : SessionTitleService :=
  let normalized := config.normalizeSessionTitle title config.maxTitleBytes
  if ¬ m.serviceActive ∨ ¬ m.live s ∨ normalized = "" then m
  else
    let (m, st) := m.stateFor s
    let m := m.supersede st
    if appends then m.appendTitle s { title := normalized, messageSeqs := [], source := .user } else m

def appendFallback (s : Nat) (first : SessionTitleUserMessage) (appends : Bool) : SessionTitleService :=
  let title := config.fallbackSessionTitle first.text config.fallbackMaxWords config.fallbackMaxBytes
  if title = "" ∨ ¬ appends then m
  else m.appendTitle s { title, messageSeqs := [first.seq], source := .fallback }

/-- `refresh`, up to its first await; `aborted` when the caller's signal already is. -/
def refresh (s : Nat) (aborted appends : Bool) : SessionTitleService :=
  if aborted ∨ ¬ m.serviceActive ∨ ¬ m.live s then m
  else
    let messages := config.collect (m.log s)
    match m.registration.filter fun r => !(m.registrations r).closing, messages.getLast? with
    | some r, some latest =>
      let (m, st) := m.stateFor s
      let m := m.supersede st
      m.activate s st { registration := r, revision := (m.states st).revision, throughSeq := latest.seq }
        (m.requestHeader s) false
    | _, _ =>
      match messages.head? with
      | some first =>
        if (m.get s).any (·.source = .user) then m.appendFallback config s first appends
        else (m.ensureFallback config s).elim m (·.1)
      | none => (m.ensureFallback config s).elim m (·.1)

/-! ## Lifetimes -/

def register (id : String) (automatic : SessionTitleAutomaticMode) : Option SessionTitleService := do
  guard (id ≠ "" ∧ m.registration = none)
  return { m with
    registrations := update m.registrations m.registered { id, automatic }
    registered := m.registered + 1
    registration := some m.registered }

/-- The pending work of a registration is dropped, and its active calls are aborted. -/
def dropWork (r : Nat) : SessionTitleService :=
  { m with
    states := fun st =>
      { m.states st with pending := (m.states st).pending.filter fun pending => pending.registration ≠ r }
    runs := fun w =>
      if (m.runs w).registration = r ∧ m.work (m.runs w).session = some (m.runs w).state
          ∧ (m.states (m.runs w).state).active = some w then { m.runs w with aborted := true }
      else m.runs w }

def unregister (r : Nat) : Option SessionTitleService := do
  guard (r < m.registered)
  return { m with
    registrations := update m.registrations r { m.registrations r with closing := true } }.dropWork r

/-- The calls of a registration have all ended, and its disposer goes on. -/
def drained (r : Nat) : Option SessionTitleService := do
  guard ((m.registrations r).closing ∧ ∀ w < m.runCount, (m.runs w).registration = r → (m.runs w).stage = .over)
  return if m.registration = some r then { m with registration := none } else m

def dispose : SessionTitleService :=
  { m with
    disposed := true
    registrations := m.registration.elim m.registrations fun r =>
      update m.registrations r { m.registrations r with closing := true }
    registration := none
    states := fun st => { m.states st with pending := none }
    runs := fun w => { m.runs w with aborted := true } }

def clear : Option SessionTitleService := do
  guard m.disposed
  return { m with work := fun _ => none }

def disposeSession (s : Nat) : SessionTitleService :=
  match m.work s with
  | none => m
  | some st => { (m.states st).active.elim m m.abort with work := update m.work s none }

end SessionTitleService

/-! ## Interleavings -/

inductive Act where
  /-- An event of another origin is appended. -/
  | append (s : Nat) (event : SessionEvent)
  | hear (s : Nat) (forked : Bool)
  | mainRequest (s : Nat) (options : SessionTitleModelProvenance)
  | task (i : Nat)
  | fallback (f : Nat)
  | forget (f : Nat)
  | begins (w : Nat)
  | continues (w : Nat)
  | completes (w : Nat) (result : Option SessionTitleService.SessionTitleProviderResult)
  | rename (s : Nat) (title : String) (appends : Bool)
  | refresh (s : Nat) (aborted appends : Bool)
  /-- The caller of a refresh cancels it. -/
  | cancel (w : Nat)
  | register (id : String) (automatic : SessionTitleAutomaticMode)
  | unregister (r : Nat)
  | drained (r : Nat)
  | enters (s : Nat)
  | leaves (s : Nat)
  | sessionDisposed (s : Nat)
  | unloads
  | dispose
  | clear

namespace SessionTitleService

variable (config : Config)

def step (m : SessionTitleService) : Act → Option SessionTitleService
  | .append s event =>
    match event with
    | .title _ => none
    | event => some { m with log := update m.log s (m.log s ++ [event]) }
  | .hear s forked => m.hear config s forked
  | .mainRequest s options => some (m.onMainRequest s options)
  | .task i => m.runTask config i
  | .fallback f => m.runFallback f
  | .forget f => m.forgetFallback f
  | .begins w => m.beginRun config w
  | .continues w => m.continueRun config w
  | .completes w result => m.completeRun config w result
  | .rename s title appends => some (m.rename config s title appends)
  | .refresh s aborted appends => some (m.refresh config s aborted appends)
  | .cancel w => some (m.abort w)
  | .register id automatic => m.register id automatic
  | .unregister r => m.unregister r
  | .drained r => m.drained r
  | .enters s => some { m with live := update m.live s true }
  | .leaves s => some { m with live := update m.live s false }
  | .sessionDisposed s => some (m.disposeSession s)
  | .unloads => some { m with fiberActive := false }
  | .dispose => some m.dispose
  | .clear => m.clear

def initial (log : Nat → List SessionEvent) (live : Nat → Bool) : SessionTitleService :=
  { log, live, heard := fun s => (log s).length }

end SessionTitleService

end CocoHarness.SessionTitle
