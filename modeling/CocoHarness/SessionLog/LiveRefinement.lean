/-
# CocoHarness.SessionLog.LiveRefinement — a session is its log.

`ScratchSession` is what a session is for: a log of events and the lifecycle flags of its store entry, with nothing
cached, nothing pending, and no object identities.  Every read folds the log from scratch, and an append either
leaves the log as it was or adds one event to it.
-/
import CocoHarness.SessionLog.Live

namespace CocoHarness.SessionLog

open Lib List

/-! ## The scratch session -/

structure ScratchSession where
  id : String
  log : List SessionEvent
  entry : Option SessionEntry

/-- The messages of a log: fold the surface from scratch and project its nodes in order. -/
def scratchMessages (log : List SessionEvent) : Except JsError (List Json) := do
  let result ← foldSurface log
  match projectNodes log [] result.nodes with
  | (messages, .ok ()) => return messages
  | (_, .error e) => throw e

namespace ScratchSession

variable (a : ScratchSession)

def surface : Except JsError (List Int × Nat) :=
  (foldSurface a.log).map fun result => (result.nodes, result.replacements.length)

def admitAppend (request : AppendRequest) : Except JsError SessionEvent := do
  let event ← candidate a.log.length request
  if isAppending a.entry then throw reentrantAppend
  else
    let result ← foldSurface a.log
    let _ ← planSurfaceEvent ⟨result.nodes, result.replacements.length⟩ event a.log.length a.log 0
    return event

def commit (event : SessionEvent) : ScratchSession := { a with log := a.log ++ [event] }

def runCall : ListenerCall → ScratchSession × Except JsError Unit
  | .readSurface => (a, a.surface.map fun _ => ())
  | .deriveMessages => (a, (scratchMessages a.log).map fun _ => ())
  | .readEvents => (a, .ok ())
  | .append request =>
    match a.admitAppend request with
    | .error e => (a, .error e)
    | .ok event => (a.commit event, .ok ())
  | .detach => ({ a with entry := detachEntry a.entry }, .ok ())

def runListener (a : ScratchSession) : List ListenerAct → ScratchSession × Except JsError Unit
  | [] => (a, .ok ())
  | .throw e :: _ => (a, .error e)
  | .call call caught :: rest =>
    match a.runCall call with
    | (a, .ok ()) => a.runListener rest
    | (a, .error e) => if caught then a.runListener rest else (a, .error e)

def runObservers (observers : List (List ListenerAct)) : ScratchSession :=
  observers.foldl (fun a listener => (a.runListener listener).1) a

def settle : ScratchSession := { a with entry := settleEntry a.entry }

def append (request : AppendRequest) (listeners : Listeners) : ScratchSession × Except JsError SessionEvent :=
  match a.admitAppend request with
  | .error e => (a, .error e)
  | .ok event =>
    match a.entry with
    | none => (a.commit event, .ok event)
    | some entry =>
      let a := { a with entry := some (openEntry entry) }
      match a.runListener listeners.dispatch with
      | (a, .error e) => (a.settle, .error e)
      | (a, .ok ()) => (((a.commit event).runObservers listeners.observers).settle, .ok event)

end ScratchSession

def scratchSessionStep (a : ScratchSession) : SessionOp → ScratchSession × SessionReply
  | .append request listeners => (a.append request listeners).map id (.of .appended)
  | .readSurface => (a, .of (fun p => .surface p.1 p.2) a.surface)
  | .deriveMessages => (a, .of .messages (scratchMessages a.log))
  | .readEvents => (a, .events a.log)
  | .enter => ({ a with entry := (enterEntry a.id a.entry).1 }, .of (fun _ => .done) (enterEntry a.id a.entry).2)
  | .announceBegin =>
    ({ a with entry := (announceBeginEntry a.id a.entry).1 }, .of (fun _ => .done) (announceBeginEntry a.id a.entry).2)
  | .announceEnd => ({ a with entry := announceEndEntry a.entry }, .done)
  | .detach => ({ a with entry := detachEntry a.entry }, .done)

/-! ## Projecting nodes -/

theorem projectNodes_eq (log : List SessionEvent) (messages : List Json) (nodes : List Int) :
    projectNodes log messages nodes = (messages ++ (projectNodes log [] nodes).1, (projectNodes log [] nodes).2) := by
  induction nodes generalizing messages with
  | nil => simp [projectNodes]
  | cons seq nodes ih =>
    simp only [projectNodes]
    cases eventAt log seq with
    | none => simp
    | some event =>
      cases hmsg : deriveEventMessage event with
      | error e => simp [hmsg]
      | ok message =>
        simp only [hmsg]
        rw [ih, ih ([] ++ _)]
        simp

variable {log : List SessionEvent} {messages messages' : List Json} {nodes : List Int}

theorem projectNodes_append (h : projectNodes log messages nodes = (messages', .ok ())) (more : List Int) :
    projectNodes log messages (nodes ++ more) = projectNodes log messages' more := by
  induction nodes generalizing messages with
  | nil =>
    simp only [projectNodes, Prod.mk.injEq, and_true] at h
    rw [nil_append, h]
  | cons seq nodes ih =>
    rw [cons_append]
    rw [projectNodes] at h ⊢
    cases hat : eventAt log seq with
    | none => simp [hat] at h
    | some event =>
      cases hmsg : deriveEventMessage event with
      | error e => simp [hat, hmsg] at h
      | ok message =>
        simp only [hat, hmsg] at h ⊢
        exact ih h

variable {e : JsError}

theorem projectNodes_append_error (h : projectNodes log messages nodes = (messages', .error e)) (more : List Int) :
    projectNodes log messages (nodes ++ more) = (messages', .error e) := by
  induction nodes generalizing messages with
  | nil => simp [projectNodes] at h
  | cons seq nodes ih =>
    rw [cons_append]
    rw [projectNodes] at h ⊢
    cases hat : eventAt log seq with
    | none => simpa [hat] using h
    | some event =>
      cases hmsg : deriveEventMessage event with
      | error e => simpa [hat, hmsg] using h
      | ok message =>
        simp only [hat, hmsg] at h ⊢
        exact ih h

theorem projectNodes_congr {log' : List SessionEvent} (h : ∀ s ∈ nodes, eventAt log s = eventAt log' s)
    (messages : List Json) : projectNodes log messages nodes = projectNodes log' messages nodes := by
  induction nodes generalizing messages with
  | nil => rfl
  | cons seq nodes ih =>
    simp only [projectNodes, h seq (by simp)]
    simp only [ih fun s hs => h s (by simp [hs])]

theorem projectNodes_error (h : projectNodes log messages nodes = (messages', .error e))
    (derived : List Json) : ∃ derived', projectNodes log derived nodes = (derived', .error e) := by
  rw [projectNodes_eq, Prod.mk.injEq] at h
  exact ⟨_, by rw [projectNodes_eq, h.2]⟩

variable {state : SurfaceFoldState}

theorem scratchMessages_eq {rs : List SurfaceFoldReplacement} (hlog : surfaceAfter log = .ok (state, rs)) : scratchMessages log =
      match projectNodes log [] state.nodes with
      | (messages, .ok ()) => .ok messages
      | (_, .error e) => .error e := by
  rw [scratchMessages, foldSurface_of_surfaceAfter hlog]
  rfl

/-! ## The cache -/

/-- The cache holds the projection of the nodes it has seen, while of the generation of the surface. A projection that
threw stops every later call the same way. -/
structure CacheInv (derived : List Json) (derivedNodes derivedGeneration : Nat)
    (log : List SessionEvent) (state : SurfaceFoldState) : Prop where
  generation : derivedGeneration ≤ state.replaceGeneration
  seen : derivedGeneration = state.replaceGeneration → derivedNodes ≤ state.nodes.length ∧
    ∃ messages, projectNodes log [] (state.nodes.take derivedNodes) = (messages, .ok ()) ∧ (derived = messages ∨
        ∃ messages' e, projectNodes log messages (state.nodes.drop derivedNodes) = (messages', .error e))

theorem cacheInv_empty {generation : Nat} (h : generation ≤ state.replaceGeneration) :
    CacheInv [] 0 generation log state :=
  ⟨h, fun _ => ⟨Nat.zero_le _, [], rfl, .inl rfl⟩⟩

theorem eventAt_append {s : Int} (hs : 0 ≤ s ∧ s < log.length) (more : List SessionEvent) :
    eventAt (log ++ more) s = eventAt log s := by
  have hlt : s.toNat < log.length := by omega
  simp [eventAt, hs.1, getElem?_append_left hlt]

/-- One more event keeps the cache: an append adds behind it, a replacement starts a new generation. -/
theorem CacheInv.snoc {rs : List SurfaceFoldReplacement} {derived : List Json} {n g : Nat}
    {e : SessionEvent} {plan : Option SurfacePlan} (h : CacheInv derived n g log state)
    (hlog : surfaceAfter log = .ok (state, rs))
    (hplan : planSurfaceEvent state e log.length log 0 = .ok plan) :
    CacheInv derived n g (log ++ [e]) (applySurfacePlan state plan).1 := by
  have hbelow := surfaceAfter_below hlog
  have hsame : ∀ nodes : List Int, (∀ s ∈ nodes, s ∈ state.nodes) → ∀ messages,
      projectNodes (log ++ [e]) messages nodes = projectNodes log messages nodes :=
    fun nodes hsub messages => projectNodes_congr (fun s hs => eventAt_append (hbelow s (hsub s hs)) [e]) messages
  -- without a rewrite the nodes seen are still the first `n`, and an error ahead is still ahead
  have hgrow : ∀ more : List Int, CacheInv derived n g (log ++ [e]) { state with nodes := state.nodes ++ more } := by
    intro more
    refine ⟨h.generation, fun hg => ?_⟩
    obtain ⟨hn, messages, hseen, hcache⟩ := h.seen hg
    refine ⟨by simp; omega, messages, ?_, ?_⟩
    · rw [take_append_of_le_length hn, hsame _ fun s hs => mem_of_mem_take hs]
      exact hseen
    · refine hcache.imp_right ?_
      rintro ⟨messages', err, herr⟩
      refine ⟨messages', err, ?_⟩
      rw [drop_append_of_le_length hn]
      apply projectNodes_append_error
      rw [hsame _ fun s hs => mem_of_mem_drop hs]
      exact herr
  cases plan with
  | none => simpa [applySurfacePlan] using hgrow []
  | some plan =>
    cases plan with
    | append seq => exact hgrow [seq]
    | replace r i j =>
      have hgen := h.generation
      refine ⟨by simp only [applySurfacePlan]; omega, fun hg => ?_⟩
      simp only [applySurfacePlan] at hg
      omega

/-! ## The relation -/

/-- The session stands for the scratch session: same log, same entry, and every cache in order. -/
structure Session.Represents (s : Session) (a : ScratchSession) : Prop where
  id : s.id = a.id
  entry : s.entry = a.entry
  log : eventsOf s.log = a.log
  manager : s.surfaceManager.Represents s.log
  snapshot : ∀ events, s.eventsSnapshot = some events → events = s.log
  cache : ∃ state rs, surfaceAfter a.log = .ok (state, rs) ∧
    CacheInv s.derived s.derivedNodes s.derivedGeneration a.log state

namespace Session

variable {s : Session} {a : ScratchSession}

theorem Represents.log_length (h : s.Represents a) : s.log.length = a.log.length := by rw [← h.log, eventsOf_length]

theorem Represents.withManager (h : s.Represents a) {m : SurfaceManager} (n : Nat) (hm : m.Represents s.log) :
    Represents { s with surfaceManager := m, nextRef := n } a := by
  have hlog : m.log = s.log := hm.1
  refine ⟨h.id, h.entry, ?_, ?_, ?_, h.cache⟩
  · rw [← h.log, Session.log, hlog]
  · rw [Session.log, hlog]
    exact hm
  · intro events hevents
    rw [Session.log, hlog]
    exact h.snapshot events hevents

theorem Represents.surface (h : s.Represents a) : ∃ s', s.surface = (s', a.surface) ∧
    s'.Represents a ∧ s'.derived = s.derived ∧ s'.derivedNodes = s.derivedNodes ∧
    s'.derivedGeneration = s.derivedGeneration := by
  obtain ⟨state, rs, hlog, -⟩ := h.cache
  have hlog' : surfaceAfter (eventsOf s.log) = .ok (state, rs) := by rw [h.log, hlog]
  obtain ⟨m₁, hnodes, hm₁⟩ := h.manager.nodes hlog'
  obtain ⟨m₂, hgeneration, hm₂⟩ := hm₁.replaceGeneration hlog'
  refine ⟨{ s with surfaceManager := m₂ }, ?_, h.withManager s.nextRef hm₂, rfl, rfl, rfl⟩
  rw [Session.surface, hnodes]
  simp only [hgeneration]
  rw [ScratchSession.surface, foldSurface_of_surfaceAfter hlog, surfaceAfter_generation hlog]
  rfl

theorem Represents.events (h : s.Represents a) : eventsOf s.events.2 = a.log ∧ s.events.1.Represents a := by
  rw [Session.events]
  cases hsnap : s.eventsSnapshot with
  | some events =>
    have hevents := h.snapshot events hsnap
    subst hevents
    exact ⟨h.log, h⟩
  | none =>
    refine ⟨h.log, h.id, h.entry, h.log, h.manager, ?_, h.cache⟩
    intro events hevents
    exact (Option.some.inj hevents).symm

variable {state : SurfaceFoldState}

theorem refreshCache_cacheInv (h : CacheInv s.derived s.derivedNodes s.derivedGeneration log state) :
    CacheInv (s.refreshCache state.replaceGeneration).derived
        (s.refreshCache state.replaceGeneration).derivedNodes
        (s.refreshCache state.replaceGeneration).derivedGeneration log state ∧
      (s.refreshCache state.replaceGeneration).derivedGeneration = state.replaceGeneration := by
  rw [refreshCache]
  split
  · exact ⟨cacheInv_empty le_rfl, rfl⟩
  · next hne => exact ⟨h, (not_not.mp hne).symm⟩

variable {rs : List SurfaceFoldReplacement}

theorem Represents.withCache (h : s.Represents a) {derived : List Json} {n g : Nat}
    (hlog : surfaceAfter a.log = .ok (state, rs)) (hcache : CacheInv derived n g a.log state) :
    Represents { s with derived := derived, derivedNodes := n, derivedGeneration := g } a :=
  ⟨h.id, h.entry, h.log, h.manager, h.snapshot, state, rs, hlog, hcache⟩

theorem Represents.refreshCache (h : s.Represents a) (hlog : surfaceAfter a.log = .ok (state, rs)) :
    (s.refreshCache state.replaceGeneration).Represents a := by
  unfold Session.refreshCache
  split
  · exact h.withCache hlog (cacheInv_empty le_rfl)
  · exact h

/-- **The cache is invisible.**  A call derives, or throws, what projecting the whole log does. -/
theorem Represents.deriveMessages (h : s.Represents a) : ∃ s',
    s.deriveMessages = (s', scratchMessages a.log) ∧ s'.Represents a := by
  obtain ⟨s₁, hsurface, h₁, -⟩ := h.surface
  obtain ⟨state, rs, hlog, hcache₁⟩ := h₁.cache
  obtain ⟨hcache, hgeneration⟩ := refreshCache_cacheInv hcache₁
  have h₂ := h₁.refreshCache hlog
  have hvalue : a.surface = .ok (state.nodes, state.replaceGeneration) := by
    rw [ScratchSession.surface, foldSurface_of_surfaceAfter hlog, surfaceAfter_generation hlog]
    rfl
  rw [Session.deriveMessages, hsurface, hvalue]
  dsimp only
  generalize s₁.refreshCache state.replaceGeneration = s₂ at *
  obtain ⟨hn, messages, hseen, hcase⟩ := hcache.seen hgeneration
  have hall : projectNodes a.log [] state.nodes = projectNodes a.log messages (state.nodes.drop s₂.derivedNodes) := by
    conv_lhs => rw [← take_append_drop s₂.derivedNodes state.nodes]
    exact projectNodes_append hseen _
  rw [scratchMessages_eq hlog, hall, h₂.log]
  cases hrest : projectNodes a.log messages (state.nodes.drop s₂.derivedNodes) with
  | mk derived' result =>
    cases result with
    | ok _ =>
      -- nothing ahead throws, so the cache was in order
      have hderived : s₂.derived = messages := by
        rcases hcase with heq | ⟨messages', e, herr⟩
        · exact heq
        · rw [hrest] at herr; simp at herr
      rw [hderived, hrest]
      refine ⟨_, rfl, h₂.withCache hlog ⟨hcache.generation, fun _ => ⟨le_rfl, derived', ?_, .inl rfl⟩⟩⟩
      rw [take_length, hall, hrest]
    | error e =>
      obtain ⟨derived, hderived⟩ := projectNodes_error hrest s₂.derived
      rw [hderived]
      exact ⟨_, rfl, h₂.withCache hlog ⟨hcache.generation, fun _ => ⟨hn, messages, hseen, .inr ⟨derived', e, hrest⟩⟩⟩⟩

theorem Represents.commit (h : s.Represents a) (event : EventRef) {plan : Option SurfacePlan}
    (hlog : surfaceAfter a.log = .ok (state, rs))
    (hplan : planSurfaceEvent state event.event a.log.length a.log 0 = .ok plan) :
    (s.commit event).Represents (a.commit event.event) := by
  obtain ⟨state', rs', hlog', hcache⟩ := h.cache
  rw [hlog, Except.ok.injEq, Prod.mk.injEq] at hlog'
  obtain ⟨rfl, rfl⟩ := hlog'
  have hnew : (s.commit event).log = s.log ++ [event] := rfl
  refine ⟨h.id, h.entry, ?_, ?_, ?_, (applySurfacePlan state plan).1,
    rs ++ (applySurfacePlan state plan).2.toList, ?_, hcache.snoc hlog hplan⟩
  · rw [hnew, eventsOf_append, h.log]; rfl
  · rw [hnew]; exact h.manager.push event
  · intro events hevents
    exact absurd hevents nofun
  · rw [ScratchSession.commit, surfaceAfter_snoc, hlog]
    simp [applySurfaceEvent, hplan]

/-- What comes before the boundary decides as the scratch session does and changes nothing it knows of. -/
theorem Represents.admitAppend (h : s.Represents a) (request : AppendRequest) : ∃ s' result,
    s.admitAppend request = (s', result) ∧ s'.Represents a ∧ result.map (·.event) = a.admitAppend request ∧
      ∀ event, result = .ok event → ∃ state rs plan, surfaceAfter a.log = .ok (state, rs) ∧
        planSurfaceEvent state event.event a.log.length a.log 0 = .ok plan := by
  have hentry : isAppending s.entry = isAppending a.entry := by rw [h.entry]
  rw [Session.admitAppend, ScratchSession.admitAppend, h.log_length, hentry]
  cases hcand : candidate a.log.length request with
  | error e => exact ⟨s, .error e, rfl, h, rfl, nofun⟩
  | ok event =>
    simp only [ok_bind]
    by_cases happ : isAppending a.entry = true
    · exact ⟨s, .error reentrantAppend, by rw [if_pos happ], h, by rw [if_pos happ]; rfl, nofun⟩
    · obtain ⟨state, rs, hlog, -⟩ := h.cache
      have hlog' : surfaceAfter (eventsOf s.log) = .ok (state, rs) := by rw [h.log, hlog]
      obtain ⟨m, hvalid, hm⟩ := h.manager.validateNext hlog' ⟨s.nextRef, event⟩
      have hfold : (⟨state.nodes, rs.length⟩ : SurfaceFoldState) = state := by rw [← surfaceAfter_generation hlog]
      rw [h.log, h.log_length] at hvalid
      rw [if_neg happ, if_neg happ, hvalid, foldSurface_of_surfaceAfter hlog, ok_bind, hfold]
      cases hplan : planSurfaceEvent state event a.log.length a.log 0 with
      | error e => exact ⟨_, _, rfl, h.withManager _ hm, rfl, nofun⟩
      | ok plan =>
        refine ⟨_, _, rfl, h.withManager _ hm, rfl, ?_⟩
        rintro _ ⟨⟩
        exact ⟨state, rs, plan, hlog, hplan⟩

theorem Represents.withEntry (h : s.Represents a) (entry : Option SessionEntry) :
    Represents { s with entry := entry } { a with entry := entry } :=
  ⟨h.id, rfl, h.log, h.manager, h.snapshot, h.cache⟩

/-! ## Listeners -/

theorem Represents.runCall (h : s.Represents a) (call : ListenerCall) : (s.runCall call).2 = (a.runCall call).2 ∧
      (s.runCall call).1.Represents (a.runCall call).1 := by
  cases call with
  | readSurface =>
    obtain ⟨s', hsurface, h', -⟩ := h.surface
    rw [Session.runCall, hsurface]
    exact ⟨rfl, h'⟩
  | deriveMessages =>
    obtain ⟨s', hderive, h'⟩ := h.deriveMessages
    rw [Session.runCall, hderive]
    exact ⟨rfl, h'⟩
  | readEvents => exact ⟨rfl, h.events.2⟩
  | append request =>
    obtain ⟨s', result, hadmitted, h', hresult, hplan⟩ := h.admitAppend request
    rw [Session.runCall, ScratchSession.runCall, hadmitted, ← hresult]
    cases result with
    | error e => exact ⟨rfl, h'⟩
    | ok event =>
      obtain ⟨state, rs, plan, hlog, hplan⟩ := hplan event rfl
      exact ⟨rfl, h'.commit _ hlog hplan⟩
  | detach =>
    refine ⟨rfl, ?_⟩
    rw [Session.runCall, ScratchSession.runCall, Session.detach, h.entry]
    exact h.withEntry _

theorem Represents.runListener (h : s.Represents a) (acts : List ListenerAct) :
    (s.runListener acts).2 = (a.runListener acts).2 ∧ (s.runListener acts).1.Represents (a.runListener acts).1 := by
  induction acts generalizing s a with
  | nil => exact ⟨rfl, h⟩
  | cons act rest ih =>
    cases act with
    | throw e => exact ⟨rfl, h⟩
    | call call caught =>
      obtain ⟨hreply, hnext⟩ := h.runCall call
      rw [Session.runListener, ScratchSession.runListener]
      generalize s.runCall call = p at hreply hnext ⊢
      generalize a.runCall call = q at hreply hnext ⊢
      obtain ⟨s', result⟩ := p
      obtain ⟨a', result'⟩ := q
      dsimp only at hreply hnext
      subst hreply
      cases result with
      | ok _ => exact ih hnext
      | error e =>
        cases caught with
        | true => exact ih hnext
        | false => exact ⟨rfl, hnext⟩

theorem Represents.runObservers (h : s.Represents a) (observers : List (List ListenerAct)) :
    (s.runObservers observers).Represents (a.runObservers observers) := by
  induction observers generalizing s a with
  | nil => exact h
  | cons listener rest ih => exact ih (h.runListener listener).2

end Session

/-! ## Inside a publication the log stands still -/

namespace ScratchSession

variable {a : ScratchSession}

theorem isAppending_detachEntry {entry : Option SessionEntry} (h : isAppending entry = true) :
    isAppending (detachEntry entry) = true := by
  cases entry with
  | none => simp [isAppending] at h
  | some entry =>
    have happ : entry.appending = true := by simpa [isAppending] using h
    rw [detachEntry, Option.bind_some]
    split
    · exact h
    · rw [happ, Bool.or_true, if_pos rfl]
      simp [isAppending]

theorem admit_appending (h : isAppending a.entry = true) (request : AppendRequest) :
    ∃ e, a.admitAppend request = .error e := by
  rw [admitAppend]
  cases candidate a.log.length request with
  | error e => exact ⟨e, rfl⟩
  | ok event => exact ⟨reentrantAppend, by rw [ok_bind, if_pos h]; rfl⟩

theorem runCall_appending (h : isAppending a.entry = true) (call : ListenerCall) :
    (a.runCall call).1.log = a.log ∧ (a.runCall call).1.id = a.id ∧ isAppending (a.runCall call).1.entry = true := by
  cases call with
  | readSurface | deriveMessages | readEvents => exact ⟨rfl, rfl, h⟩
  | append request =>
    obtain ⟨e, he⟩ := admit_appending h request
    rw [runCall, he]
    exact ⟨rfl, rfl, h⟩
  | detach => exact ⟨rfl, rfl, isAppending_detachEntry h⟩

theorem runListener_appending (h : isAppending a.entry = true) (acts : List ListenerAct) :
    (a.runListener acts).1.log = a.log ∧ (a.runListener acts).1.id = a.id ∧
      isAppending (a.runListener acts).1.entry = true := by
  induction acts generalizing a with
  | nil => exact ⟨rfl, rfl, h⟩
  | cons act rest ih =>
    cases act with
    | throw e => exact ⟨rfl, rfl, h⟩
    | call call caught =>
      obtain ⟨hlog, hid, happ⟩ := runCall_appending h call
      obtain ⟨hlog', hid', happ'⟩ := ih happ
      rw [runListener]
      split
      · next hcall =>
        rw [hcall] at hlog hid hlog' hid' happ'
        exact ⟨hlog'.trans hlog, hid'.trans hid, happ'⟩
      · next hcall =>
        rw [hcall] at hlog hid happ hlog' hid' happ'
        split
        · exact ⟨hlog'.trans hlog, hid'.trans hid, happ'⟩
        · exact ⟨hlog, hid, happ⟩

theorem runObservers_appending (h : isAppending a.entry = true) (observers : List (List ListenerAct)) :
    (a.runObservers observers).log = a.log ∧ (a.runObservers observers).id = a.id := by
  induction observers generalizing a with
  | nil => exact ⟨rfl, rfl⟩
  | cons listener rest ih =>
    obtain ⟨hlog, hid, happ⟩ := runListener_appending h listener
    obtain ⟨hlog', hid'⟩ := ih happ
    exact ⟨hlog'.trans hlog, hid'.trans hid⟩

end ScratchSession

/-! ## Refinement -/

namespace Session

variable {s : Session} {a : ScratchSession}

theorem Represents.settle (h : s.Represents a) : s.settle.Represents a.settle := by
  rw [Session.settle, ScratchSession.settle, h.entry]
  exact h.withEntry _

theorem Represents.append (h : s.Represents a) (request : AppendRequest) (listeners : Listeners) :
    (s.append request listeners).2.map (·.event) = (a.append request listeners).2 ∧
      (s.append request listeners).1.Represents (a.append request listeners).1 := by
  obtain ⟨s₁, result, hadmitted, h₁, hresult, hplan⟩ := h.admitAppend request
  rw [Session.append, ScratchSession.append, hadmitted, ← hresult]
  cases result with
  | error e => exact ⟨rfl, h₁⟩
  | ok event =>
    obtain ⟨state, rs, plan, hlog, hplan⟩ := hplan event rfl
    simp only [Except.map, h₁.entry]
    cases hentry : a.entry with
    | none => exact ⟨rfl, h₁.commit _ hlog hplan⟩
    | some entry =>
      have hopen := h₁.withEntry (some (openEntry entry))
      obtain ⟨hreply, hdispatch⟩ := hopen.runListener listeners.dispatch
      have hsame := ScratchSession.runListener_appending
        (a := { a with entry := some (openEntry entry) }) rfl listeners.dispatch
      dsimp only
      generalize Session.runListener _ listeners.dispatch = p at hreply hdispatch ⊢
      generalize ScratchSession.runListener _ listeners.dispatch = q at hreply hdispatch hsame ⊢
      obtain ⟨s₂, result⟩ := p
      obtain ⟨a₂, result'⟩ := q
      dsimp only at hreply hdispatch hsame
      subst hreply
      cases result with
      | error e => exact ⟨rfl, hdispatch.settle⟩
      | ok _ =>
        rw [← hsame.1] at hlog hplan
        exact ⟨rfl, ((hdispatch.commit _ hlog hplan).runObservers listeners.observers).settle⟩

theorem Represents.step (h : s.Represents a) (op : SessionOp) : (sessionStep s op).2 = (scratchSessionStep a op).2 ∧
      (sessionStep s op).1.Represents (scratchSessionStep a op).1 := by
  cases op with
  | append request listeners =>
    obtain ⟨hreply, hnext⟩ := h.append request listeners
    refine ⟨?_, hnext⟩
    simp only [sessionStep, scratchSessionStep, Prod.map, ← hreply]
    cases (s.append request listeners).2 <;> rfl
  | readSurface =>
    obtain ⟨s', hsurface, h', -⟩ := h.surface
    simp only [sessionStep, hsurface]
    exact ⟨rfl, h'⟩
  | deriveMessages =>
    obtain ⟨s', hderive, h'⟩ := h.deriveMessages
    simp only [sessionStep, hderive]
    exact ⟨rfl, h'⟩
  | readEvents =>
    obtain ⟨hevents, h'⟩ := h.events
    refine ⟨?_, h'⟩
    simp only [sessionStep, scratchSessionStep, Prod.map, hevents]
  | enter =>
    have hentry : enterEntry s.id s.entry = enterEntry a.id a.entry := by rw [h.id, h.entry]
    simp only [sessionStep, scratchSessionStep, hentry]
    exact ⟨trivial, h.withEntry _⟩
  | announceBegin =>
    have hentry : announceBeginEntry s.id s.entry = announceBeginEntry a.id a.entry := by rw [h.id, h.entry]
    simp only [sessionStep, scratchSessionStep, hentry]
    exact ⟨trivial, h.withEntry _⟩
  | announceEnd =>
    simp only [sessionStep, scratchSessionStep, h.entry]
    exact ⟨trivial, h.withEntry _⟩
  | detach =>
    simp only [sessionStep, scratchSessionStep, Session.detach, h.entry]
    exact ⟨trivial, h.withEntry _⟩

/-- **A session is its log**, over every run. -/
theorem Represents.run (h : s.Represents a) (ops : List SessionOp) :
    (Machine.run sessionStep s ops).2 = (Machine.run scratchSessionStep a ops).2 ∧
      (Machine.run sessionStep s ops).1.Represents (Machine.run scratchSessionStep a ops).1 :=
  Machine.run_simulates (R := Session.Represents) (fun _ _ op h => h.step op) h ops

end Session

end CocoHarness.SessionLog
