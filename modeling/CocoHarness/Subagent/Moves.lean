/-
# CocoHarness.Subagent.Moves — the changes an action of the manager is made of.

An action is one span without an `await`, but it may change the manager in several ways: a disposal goes down through
a whole forest, a notice is admitted before ownership is released.  `Move` lists the single changes with the guard of
each, and `step_moves` takes every action apart into them, once.
-/
import CocoHarness.Subagent.Continuation

namespace CocoHarness.Subagent

open Lib Function

namespace Manager

variable {m m' : Manager} {e e' : EpochId} {a a' : Activation} {r r' : RequestId} {q q' : Request}

/-! ## Reading an updated table -/

theorem getElem?_modifyEpoch (m : Manager) (e : EpochId) (f : Activation → Activation) (e' : EpochId) :
    (m.modifyEpoch e f).epochs[e']? = m.epochs[e']?.map fun a => if e = e' then f a else a := by
  show (m.epochs.modify e f)[e']? = _
  rw [List.getElem?_modify]
  rfl

theorem getElem?_setPhase (m : Manager) (r : RequestId) (phase : Phase) (r' : RequestId) :
    (m.setPhase r phase).requests[r']? = m.requests[r']?.map fun q => if r = r' then { q with phase } else q := by
  show (m.requests.modify r _)[r']? = _
  rw [List.getElem?_modify]
  rfl

theorem getElem?_leaveInbox (m : Manager) (agent : AgentId) (gone : List MessageId) (e : EpochId) :
    (m.leaveInbox agent gone).epochs[e]? = m.epochs[e]?.map fun a => if a.agent = agent then a.forget gone else a := by
  show (m.epochs.map _)[e]? = _
  rw [List.getElem?_map]

theorem getElem?_releaseOwnership (m : Manager) (child : SessionId) (e : EpochId) :
    (m.releaseOwnership child).epochs[e]? = m.epochs[e]?.map fun a =>
      if child ∈ a.owned ∧ a.stage.live then
        { a with owned := a.owned.filter (· ≠ child), poke := a.poke + 1 } else a := by
  show (m.epochs.map _)[e]? = _
  rw [List.getElem?_map]

/-! ## Moves -/

/-- The end of a disposal: the Activation leaves the map, and then the set of its owner. -/
def finished (m : Manager) (e : EpochId) (child : SessionId) (failed : Bool) : Manager :=
  ({ m with activations := update m.activations child none }.releaseOwnership child).modifyEpoch e
    fun a => { a with stage := .ended failed }

inductive PhaseStep (m : Manager) (r : RequestId) (q : Request) : Phase → Prop where
  | queued (h : q.phase = .preparing) : PhaseStep m r q .waiting
  | refused (h : q.phase.lineage? = none) (accepted : Option MessageId) : PhaseStep m r q (.settled accepted)
  | failed (h : (∃ l, q.phase = .creating l) ∨ ∃ l agent, q.phase = .entered l agent) :
      PhaseStep m r q (.settled none)
  | inspects (h : q.phase = .waiting) (hfresh : q.fresh = false) (hlock : m.unlocked q.child)
      (habsent : m.activations q.child = none) : PhaseStep m r q .inspecting
  | creates (h : q.phase = .waiting ∧ q.fresh ∧ m.unlocked q.child ∨
        q.phase = .inspecting ∧ m.persisted q.child ∧ m.authorizes q.parent q.child)
      (hopen : m.closingTeardownFor q.parent = false) : PhaseStep m r q (.creating (m.liveLineage q.parent))
  | joins (h : q.phase = .waiting) (hfresh : q.fresh = false) (hlock : m.unlocked q.child) (e : EpochId) :
      PhaseStep m r q (.awaiting e true)
  | published (l : List AgentId) (e : EpochId) (h : q.phase = .handed l e) : PhaseStep m r q (.submitting e)
  | rolledBack (l : List AgentId) (e : EpochId) (h : q.phase = .rollingBack l e) (a : Activation)
      (he : m.epochs[e]? = some a) (hsettled : a.stage.settled) : PhaseStep m r q (.settled none)
  | rejected (e : EpochId) (h : q.phase = .submitting e) : PhaseStep m r q (.awaiting e false)
  | retries (e : EpochId) (h : q.phase = .awaiting e true) : PhaseStep m r q .waiting

structure Rules where
  /-- A message is admitted to this Activation. -/
  admits : EpochId → Activation → Prop := fun _ _ => True
  /-- A disposal begins. -/
  opens : Prop := True
  /-- `Agent.cancel` throws as the disposal of this Activation begins. -/
  throws : EpochId → Prop := fun _ => True
  /-- A teardown begins, or goes on. -/
  closes : Prop := True

inductive Move (rules : Rules) (m : Manager) : Manager → Prop where
  /-- Nothing that residency depends on. -/
  | book (running : AgentId → Bool) (nextMessage : MessageId) (notices : List Notice) :
      Move rules m { m with running, nextMessage, notices }
  | closes (closingScopes : List (AgentId × List AgentId)) (draining : Bool) (drains : List Drain)
      (hcloses : rules.closes) : Move rules m { m with closingScopes, draining, drains }
  /-- A watcher goes on, or the child is announced. -/
  | tend (e : EpochId) (f : Activation → Activation)
      (hf : ∀ a, f a = { a with announced := (f a).announced, watcher := (f a).watcher })
      (hannounced : ∀ a, a.announced → (f a).announced) :
      Move rules m (m.modifyEpoch e f)
  | enqueue (agent : AgentId) (message : MessageId) : Move rules m (m.enqueue agent message)
  | accepts (e : EpochId) (a : Activation) (message : MessageId) (he : m.epochs[e]? = some a)
      (hadmits : rules.admits e a) :
      Move rules m ((m.modifyEpoch e fun a =>
        { a with accepted := a.accepted ++ [message], poke := a.poke + 1 }).enqueue a.agent message)
  /-- The inbox of an Activation that is being disposed of is cleared. -/
  | clear (e : EpochId) (a : Activation) (he : m.epochs[e]? = some a) (hclosing : a.stage ≠ .resident) :
      Move rules m (m.clearInbox a.agent)
  | detach (agent : AgentId) : Move rules m (m.detach agent)
  | acquire (e : EpochId) (a : Activation) (child : SessionId) (he : m.epochs[e]? = some a)
      (hresident : a.stage = .resident) (hheader : m.header child = some a.childId)
      (hchild : (m.activations child).isSome) :
      Move rules m (m.modifyEpoch e fun a => { a with owned := insertChild child a.owned })
  /-- A disposal begins. -/
  | opens (e : EpochId) (a : Activation) (he : m.epochs[e]? = some a) (hresident : a.stage = .resident)
      (hopens : rules.opens) :
      Move rules m (m.modifyEpoch e fun a =>
        { a with stage := .children, waits := a.owned.filterMap m.activations, poke := a.poke + 1 })
  /-- A disposal begins, and its cancel throws. -/
  | sticks (e : EpochId) (a : Activation) (he : m.epochs[e]? = some a) (hresident : a.stage = .resident)
      (hopens : rules.opens) (hthrows : rules.throws e) :
      Move rules m (m.modifyEpoch e fun a => { a with stage := .stuck, poke := a.poke + 1 })
  /-- The children are disposed of. -/
  | quiets (e : EpochId) (a : Activation) (failed : Bool) (stage : Stage) (he : m.epochs[e]? = some a)
      (hstage : a.stage = .children)
      (hwaits : ∀ w ∈ a.waits, ∃ b, m.epochs[w]? = some b ∧ b.stage.settled ∧ (b.stage.rejected → failed))
      (hnext : stage = .releasing failed ∨ stage = .released true) :
      Move rules m (m.modifyEpoch e fun a => { a with stage })
  /-- The handle is disposed of. -/
  | releases (e : EpochId) (a : Activation) (failed failed' : Bool) (he : m.epochs[e]? = some a)
      (hstage : a.stage = .releasing failed) (hfailed : failed → failed') :
      Move rules m (m.modifyEpoch e fun a => { a with stage := .released failed' })
  | finishes (e : EpochId) (a : Activation) (failed : Bool) (he : m.epochs[e]? = some a)
      (hstage : a.stage = .released failed) : Move rules m (m.finished e a.childId failed)
  | installs (r : RequestId) (q : Request) (info : AgentInfo) (l : List AgentId) (agent : AgentId)
      (hr : m.requests[r]? = some q) (hparent : m.agents[q.parent]? = some info)
      (hphase : q.phase = .entered l agent) : Move rules m (m.install r q info.session l agent)
  /-- The Activation just installed is rolled back. -/
  | spoils (r : RequestId) (q : Request) (l : List AgentId) (e : EpochId) (a : Activation) (stage : Stage)
      (hr : m.requests[r]? = some q) (hphase : q.phase = .handed l e) (he : m.epochs[e]? = some a)
      (hresident : a.stage = .resident) (howned : a.owned = []) (hwaits : a.waits = [])
      (haccepted : a.accepted = []) (hannounced : a.announced = false)
      (hstage : stage = .releasing false ∨ stage = .released true) :
      Move rules m ((m.setPhase r (.rollingBack l e)).modifyEpoch e fun a =>
        { a with stage, published := false, watcher := .done })
  /-- A fresh child is asked for. -/
  | starts (parent : AgentId) (info : AgentInfo) (hparent : m.agents[parent]? = some info) :
      Move rules m { m with
        header := update m.header m.sessions (some info.session)
        sessions := m.sessions + 1
        requests := m.requests ++ [{ parent, child := m.sessions, fresh := true, phase := .preparing }] }
  | asks (parent : AgentId) (child : SessionId) :
      Move rules m { m with
        requests := m.requests ++ [{ parent, child, fresh := false, phase := .waiting }] }
  | goesOn (r : RequestId) (q : Request) (phase : Phase) (hr : m.requests[r]? = some q)
      (hphase : PhaseStep m r q phase) : Move rules m (m.setPhase r phase)
  /-- The Agent of a child enters the registry. -/
  | enters (r : RequestId) (q : Request) (l : List AgentId) (hr : m.requests[r]? = some q)
      (hphase : q.phase = .creating l) (hfree : m.registry q.child = none) :
      Move rules m { m.setPhase r (.entered l m.agents.length) with
        agents := m.agents ++ [{ session := q.child, parent := some q.parent }]
        registry := update m.registry q.child (some m.agents.length)
        persisted := update m.persisted q.child true }
  /-- A host's Agent enters the registry, on a new session. -/
  | hosts (parent : Option SessionId) (hparent : ∀ p, parent = some p → p < m.sessions) :
      Move rules m { m with
        header := update m.header m.sessions parent
        sessions := m.sessions + 1
        persisted := update m.persisted m.sessions true
        agents := m.agents ++ [{ session := m.sessions, parent := parent.bind m.registry }]
        registry := update m.registry m.sessions (some m.agents.length) }
  | resumes (session : SessionId) (hpersisted : m.persisted session) (hfree : m.registry session = none) :
      Move rules m { m with
        agents := m.agents ++ [{ session, parent := (m.header session).bind m.registry }]
        registry := update m.registry session (some m.agents.length) }

abbrev Moves (rules : Rules) : Manager → Manager → Prop := Relation.ReflTransGen (Move rules)

end Manager

end CocoHarness.Subagent
