/-
# CocoHarness.Subagent.Residency — the map holds exactly the live Activations.

Three things keep a child at one Activation.  The lock of the child is held from the inspection of its session until
its Activation is published or gone (`Residency.locked`); as long as a request is on its way to a materialization,
the map has no Activation of the child (`Request.Ok.absent`); and a fresh child id is no session yet, so that nothing
else can resume it (`Request.Ok.unborn`).
-/
import CocoHarness.Subagent.Moves

namespace CocoHarness.Subagent

open Lib Function Option Nat Activation

/-! ## Phases -/

namespace Phase

/-- The request holds the lock, and no Activation of its child is in the map. -/
def starting : Phase → Bool
  | .inspecting | .creating _ | .entered _ _ => true
  | _ => false

/-- The Activation that the request has materialized, and works on. -/
def epoch? : Phase → Option EpochId
  | .handed _ e | .rollingBack _ e | .submitting e => some e
  | _ => none

def unborn : Phase → Bool
  | .preparing | .waiting | .creating _ => true
  | _ => false

def begun : Phase → Bool
  | .creating _ | .entered _ _ | .handed _ _ => true
  | _ => false

def resuming : Phase → Bool
  | .inspecting | .awaiting _ true => true
  | _ => false

end Phase

def Activation.identity (a : Activation) : SessionId × AgentId × SessionId × List AgentId :=
  (a.childId, a.agent, a.parentSession, a.ancestry)

/-! ## The invariant -/

structure Request.Ok (m : Manager) (q : Request) : Prop where
  known : q.fresh → q.child < m.sessions
  unborn : q.fresh → q.phase.unborn → m.persisted q.child = false
  stored : q.fresh = false → q.phase.begun → m.persisted q.child
  begotten : q.fresh ∨ q.phase.begun → ∃ info, m.agents[q.parent]? = some info ∧ m.header q.child = some info.session
  resuming : q.phase.resuming → q.fresh = false
  absent : q.phase.starting → m.activations q.child = none
  named : ∀ e, q.phase.epoch? = some e → ∃ a, m.epochs[e]? = some a ∧ a.childId = q.child
  entered : ∀ l x, q.phase = .entered l x →
    m.agents[x]? = some { session := q.child, parent := some q.parent } ∧ m.persisted q.child

structure Activation.Ok (m : Manager) (e : EpochId) (a : Activation) : Prop where
  parented : m.header a.childId = some a.parentSession
  agent : ∃ info, m.agents[a.agent]? = some info ∧ info.session = a.childId
  inMap : a.stage.live → m.activations a.childId = some e

namespace Manager

structure Residency (m : Manager) : Prop where
  older : ∀ c p, m.header c = some p → c < m.sessions ∧ p < c
  known : ∀ c, m.persisted c → c < m.sessions
  seated : ∀ (x : AgentId) info, m.agents[x]? = some info → info.session < m.sessions
  registered : ∀ s x, m.registry s = some x → ∃ info, m.agents[x]? = some info ∧ info.session = s
  requests : ∀ (r : RequestId) q, m.requests[r]? = some q → q.Ok m
  once : ∀ (r r' : RequestId) q q', m.requests[r]? = some q → m.requests[r']? = some q' →
    q.fresh → q'.fresh → q.child = q'.child → r = r'
  locked : ∀ (r r' : RequestId) q q', m.requests[r]? = some q → m.requests[r']? = some q' →
    q.phase.locks → q'.phase.locks → q.child = q'.child → r = r'
  epochs : ∀ (e : EpochId) a, m.epochs[e]? = some a → a.Ok m e
  mapped : ∀ c e, m.activations c = some e → ∃ a, m.epochs[e]? = some a ∧ a.childId = c ∧ a.stage.live
  stored : ∀ c e, m.activations c = some e → m.persisted c
  sole : ∀ (e e' : EpochId) a a', m.epochs[e]? = some a → m.epochs[e']? = some a' → a.agent = a'.agent → e = e'
  apart : ∀ (r : RequestId) q l x (e : EpochId) a, m.requests[r]? = some q → q.phase = .entered l x →
    m.epochs[e]? = some a → a.agent ≠ x

variable {m m' : Manager} {rules : Rules} {e e' : EpochId} {a a' : Activation} {r r' : RequestId} {q q' : Request}

/-- Sessions, Agents and Activations are added, and stay what they are. -/
structure Grows (m m' : Manager) : Prop where
  sessions : m.sessions ≤ m'.sessions
  header : ∀ c p, m.header c = some p → m'.header c = some p
  persisted : ∀ c, m.persisted c → m'.persisted c
  agents : ∀ (x : AgentId) info, m.agents[x]? = some info → m'.agents[x]? = some info
  epochs : ∀ (e : EpochId) a, m.epochs[e]? = some a → ∃ a', m'.epochs[e]? = some a' ∧ a'.identity = a.identity

end Manager

theorem Request.Ok.grows {m m' : Manager} {q : Request} (h : q.Ok m) (hg : m.Grows m')
    (hpersisted : q.fresh → q.phase.unborn → m.persisted q.child = false → m'.persisted q.child = false)
    (habsent : q.phase.starting → m.activations q.child = none → m'.activations q.child = none) : q.Ok m' where
  known := fun hq => lt_of_lt_of_le (h.known hq) hg.sessions
  unborn := fun hq hphase => hpersisted hq hphase (h.unborn hq hphase)
  stored := fun hq hphase => hg.persisted _ (h.stored hq hphase)
  begotten := by
    intro hq
    obtain ⟨info, hparent, hheader⟩ := h.begotten hq
    exact ⟨info, hg.agents _ _ hparent, hg.header _ _ hheader⟩
  resuming := h.resuming
  absent := fun hq => habsent hq (h.absent hq)
  named := by
    intro e hq
    obtain ⟨a, ha, hchild⟩ := h.named e hq
    obtain ⟨a', ha', hid⟩ := hg.epochs e a ha
    exact ⟨a', ha', (congrArg Prod.fst hid).trans hchild⟩
  entered := fun l x hq => ⟨hg.agents _ _ (h.entered l x hq).1, hg.persisted _ (h.entered l x hq).2⟩

namespace Manager

variable {m m' : Manager} {rules : Rules} {e e' : EpochId} {a a' : Activation} {r r' : RequestId} {q q' : Request}

/-! ## Moves that keep what residency speaks of -/

/-- Only the insides of the Activations change, and Agents may leave the registry. -/
structure Same (m m' : Manager) : Prop where
  header : m'.header = m.header
  sessions : m'.sessions = m.sessions
  persisted : m'.persisted = m.persisted
  agents : m'.agents = m.agents
  registry : ∀ s x, m'.registry s = some x → m.registry s = some x
  activations : m'.activations = m.activations
  requests : m'.requests = m.requests
  epochs : ∀ e : EpochId, m'.epochs[e]?.map (fun a => (a.identity, a.stage.live))
    = m.epochs[e]?.map fun a => (a.identity, a.stage.live)

theorem Same.some (h : Same m m') (he : m.epochs[e]? = some a) :
    ∃ a', m'.epochs[e]? = some a' ∧ a'.identity = a.identity ∧ a'.stage.live = a.stage.live := by
  have := h.epochs e
  rw [he, map_some, map_eq_some_iff] at this
  obtain ⟨a', he', heq⟩ := this
  exact ⟨a', he', congrArg Prod.fst heq, congrArg Prod.snd heq⟩

theorem Same.of_some (h : Same m m') (he : m'.epochs[e]? = Option.some a') :
    ∃ a, m.epochs[e]? = Option.some a ∧ a'.identity = a.identity ∧ a'.stage.live = a.stage.live := by
  have := h.epochs e
  rw [he, map_some, eq_comm, map_eq_some_iff] at this
  obtain ⟨a, he, heq⟩ := this
  exact ⟨a, he, (congrArg Prod.fst heq).symm, (congrArg Prod.snd heq).symm⟩

theorem Same.grows (h : Same m m') : Grows m m' where
  sessions := le_of_eq h.sessions.symm
  header := by rw [h.header]; exact fun _ _ hc => hc
  persisted := by rw [h.persisted]; exact fun _ hc => hc
  agents := by rw [h.agents]; exact fun _ _ hx => hx
  epochs := by
    intro e a he
    obtain ⟨a', he', hid, -⟩ := h.some he
    exact ⟨a', he', hid⟩

theorem Residency.same (h : Residency m) (hs : Same m m') : Residency m' where
  older := by rw [hs.header, hs.sessions]; exact h.older
  known := by rw [hs.persisted, hs.sessions]; exact h.known
  seated := by rw [hs.agents, hs.sessions]; exact h.seated
  registered := by
    intro s x hx
    rw [hs.agents]
    exact h.registered s x (hs.registry s x hx)
  requests := by
    intro r q hr
    rw [hs.requests] at hr
    apply (h.requests r q hr).grows hs.grows
    · rw [hs.persisted]
      exact fun _ _ hq => hq
    · rw [hs.activations]
      exact fun _ hq => hq
  once := by rw [hs.requests]; exact h.once
  locked := by rw [hs.requests]; exact h.locked
  epochs := by
    intro e a' he'
    obtain ⟨a, he, hid, hlive⟩ := hs.of_some he'
    obtain ⟨hparented, hagent, hmap⟩ := h.epochs e a he
    simp only [identity, Prod.mk.injEq] at hid
    obtain ⟨hchild, hagent', hparent, -⟩ := hid
    refine ⟨?_, ?_, ?_⟩
    · rw [hs.header, hchild, hparent]
      exact hparented
    · rw [hs.agents, hagent', hchild]
      exact hagent
    · rw [hs.activations, hchild, hlive]
      exact hmap
  mapped := by
    intro c e hc
    rw [hs.activations] at hc
    obtain ⟨a, he, hchild, hlive⟩ := h.mapped c e hc
    obtain ⟨a', he', hid, hlive'⟩ := hs.some he
    exact ⟨a', he', (congrArg Prod.fst hid).trans hchild, hlive'.trans hlive⟩
  stored := by rw [hs.activations, hs.persisted]; exact h.stored
  sole := by
    intro e₁ e₂ b₁ b₂ h₁ h₂ hagent
    obtain ⟨a₁, h₁, hid₁, -⟩ := hs.of_some h₁
    obtain ⟨a₂, h₂, hid₂, -⟩ := hs.of_some h₂
    simp only [identity, Prod.mk.injEq] at hid₁ hid₂
    exact h.sole _ _ _ _ h₁ h₂ (hid₁.2.1.symm.trans (hagent.trans hid₂.2.1))
  apart := by
    intro r q l x e a' hr hphase he'
    rw [hs.requests] at hr
    obtain ⟨a, he, hid, -⟩ := hs.of_some he'
    simp only [identity, Prod.mk.injEq] at hid
    rw [hid.2.1]
    exact h.apart r q l x e a hr hphase he

theorem Same.modifyEpoch {f : Activation → Activation} (hf : ∀ a, m.epochs[e]? = Option.some a →
    (f a).identity = a.identity ∧ (f a).stage.live = a.stage.live) : Same m (m.modifyEpoch e f) := by
  refine ⟨rfl, rfl, rfl, rfl, fun _ _ h => h, rfl, rfl, fun e' => ?_⟩
  rw [getElem?_modifyEpoch, map_map]
  by_cases heq : e = e'
  · subst heq
    cases he : m.epochs[e]? with
    | none => rfl
    | some a => simp only [map_some, comp_apply, if_pos, (hf a he).1, (hf a he).2]
  · simp only [if_neg heq, comp_def]

theorem Same.leaveInbox (agent : AgentId) (gone : List MessageId) : Same m (m.leaveInbox agent gone) := by
  refine ⟨rfl, rfl, rfl, rfl, fun _ _ h => h, rfl, rfl, fun e => ?_⟩
  rw [getElem?_leaveInbox, map_map]
  congr 1
  funext a
  show ((ite _ _ _ : Activation).identity, (ite _ _ _ : Activation).stage.live) = _
  split <;> rfl

theorem Same.detach (agent : AgentId) : Same m (m.detach agent) where
  header := rfl
  sessions := rfl
  persisted := rfl
  agents := rfl
  registry := by
    intro s x hx
    simp only [Manager.detach] at hx
    split at hx
    · cases hx
    · exact hx
  activations := rfl
  requests := rfl
  epochs := fun _ => rfl

/-! ## Requests that go on -/

theorem setPhase_request {phase : Phase} (h : (m.setPhase r phase).requests[r']? = some q') :
    (r = r' ∧ ∃ q, m.requests[r]? = some q ∧ q' = { q with phase }) ∨ (r ≠ r' ∧ m.requests[r']? = some q') := by
  rw [getElem?_setPhase, map_eq_some_iff] at h
  obtain ⟨q, hq, rfl⟩ := h
  by_cases hr : r = r'
  · subst hr
    exact .inl ⟨rfl, q, hq, by rw [if_pos rfl]⟩
  · rw [if_neg hr]
    exact .inr ⟨hr, hq⟩

variable {c : SessionId}

theorem unlocked_iff : m.unlocked c ↔ ∀ (r : RequestId) q, m.requests[r]? = some q → q.phase.locks → q.child ≠ c := by
  simp only [unlocked, List.all_eq_true, List.mem_iff_getElem?, Bool.not_eq_true', Bool.and_eq_false_imp,
    decide_eq_false_iff_not]
  constructor
  · intro h r q hr
    exact h q ⟨r, hr⟩
  · rintro h q ⟨r, hr⟩
    exact h r q hr

theorem authorizes_spec {p : AgentId} (h : m.authorizes p c) :
    ∃ info, m.agents[p]? = some info ∧ m.header c = some info.session ∧ m.registry info.session = some p := by
  simp only [authorizes, isLive, Bool.and_eq_true, decide_eq_true_eq] at h
  obtain ⟨hlive, hheader⟩ := h
  cases hp : m.agents[p]? with
  | none => rw [hp] at hlive; cases hlive
  | some info =>
    rw [hp] at hlive hheader
    exact ⟨info, rfl, hheader, of_decide_eq_true hlive⟩

namespace PhaseStep

variable {phase : Phase}

theorem locks (h : PhaseStep m r q phase) (hlocks : phase.locks) : q.phase.locks ∨ m.unlocked q.child := by
  cases h with
  | creates h _ =>
    rcases h with ⟨-, -, h⟩ | ⟨h, -⟩
    · exact .inr h
    · exact .inl (by rw [h]; rfl)
  | inspects _ _ h _ | joins _ _ h _ => exact .inr h
  | published l e h | rejected e h => exact .inl (by rw [h]; rfl)
  | _ => cases hlocks

theorem ok (h : PhaseStep m r q phase) (hq : q.Ok m)
    (hstored : ∀ c e, m.activations c = some e → m.persisted c) : Request.Ok m { q with phase } := by
  have hidle : phase.begun = false → (q.fresh ∨ phase.begun) →
      ∃ info, m.agents[q.parent]? = some info ∧ m.header q.child = some info.session := fun hfalse hor =>
    hq.begotten (.inl (hor.resolve_right (by rw [hfalse]; exact Bool.false_ne_true)))
  cases h with
  | queued h =>
    exact ⟨hq.known, fun hf _ => hq.unborn hf (by rw [h]; rfl), nofun, hidle rfl, nofun, nofun, nofun, nofun⟩
  | refused h accepted | failed h | rolledBack l e h a he hsettled | rejected e h =>
    exact ⟨hq.known, nofun, nofun, hidle rfl, nofun, nofun, nofun, nofun⟩
  | inspects h hfresh hlock habsent =>
    exact ⟨hq.known, nofun, nofun, hidle rfl, fun _ => hfresh, fun _ => habsent, nofun, nofun⟩
  | creates h hopen =>
    rcases h with ⟨hwaiting, hfresh, -⟩ | ⟨hinspecting, hpersisted, hauth⟩
    · have hunborn : m.persisted q.child = false := hq.unborn hfresh (by rw [hwaiting]; rfl)
      refine ⟨hq.known, fun _ _ => hunborn, ?_, fun _ => hq.begotten (.inl hfresh), nofun, fun _ => ?_, nofun, nofun⟩
      · intro hnot
        rw [hfresh] at hnot
        cases hnot
      · -- what is in the map is persisted
        cases hc : m.activations q.child with
        | none => rfl
        | some e =>
          rw [hstored _ _ hc] at hunborn
          cases hunborn
    · obtain ⟨info, hparent, hheader, -⟩ := authorizes_spec hauth
      refine ⟨hq.known, ?_, fun _ _ => hpersisted, fun _ => ⟨info, hparent, hheader⟩, nofun,
        fun _ => hq.absent (by rw [hinspecting]; rfl), nofun, nofun⟩
      intro hfresh
      rw [hq.resuming (by rw [hinspecting]; rfl)] at hfresh
      cases hfresh
  | joins h hfresh hlock e => exact ⟨hq.known, nofun, nofun, hidle rfl, fun _ => hfresh, nofun, nofun, nofun⟩
  | published l e h =>
    refine ⟨hq.known, nofun, nofun, hidle rfl, nofun, nofun, fun e' he' => hq.named e' ?_, nofun⟩
    rw [h]
    exact he'
  | retries e h =>
    refine ⟨hq.known, ?_, nofun, hidle rfl, nofun, nofun, nofun, nofun⟩
    intro hfresh
    rw [hq.resuming (by rw [h]; rfl)] at hfresh
    cases hfresh

end PhaseStep

theorem Residency.setPhase {phase : Phase} (h : Residency m) (hr : m.requests[r]? = some q)
    (hlocks : phase.locks → q.phase.locks ∨ m.unlocked q.child) (hok : Request.Ok m { q with phase })
    (hentered : ∀ l x, phase ≠ .entered l x) : Residency (m.setPhase r phase) := by
  have hsame : ∀ q, Request.Ok m q → Request.Ok (m.setPhase r phase) q := fun q hq =>
    ⟨hq.known, hq.unborn, hq.stored, hq.begotten, hq.resuming, hq.absent, hq.named, hq.entered⟩
  rw [unlocked_iff] at hlocks
  refine { h with
    requests := ?_
    once := ?_
    locked := ?_
    epochs := fun e a he => ⟨(h.epochs e a he).1, (h.epochs e a he).2, (h.epochs e a he).3⟩
    apart := ?_ }
  · intro r' q' hq'
    obtain ⟨rfl, q₀, hq, rfl⟩ | ⟨-, hq⟩ := setPhase_request hq'
    · cases hr.symm.trans hq
      exact hsame _ hok
    · exact hsame _ (h.requests _ _ hq)
  · intro r₁ r₂ q₁ q₂ h₁ h₂
    have := h.once
    obtain ⟨rfl, q₁, hq₁, rfl⟩ | ⟨-, hq₁⟩ := setPhase_request h₁ <;>
      obtain ⟨hr₂, q₂, hq₂, rfl⟩ | ⟨-, hq₂⟩ := setPhase_request h₂ <;> grind
  · intro r₁ r₂ q₁ q₂ h₁ h₂
    have := h.locked
    obtain ⟨rfl, q₁, hq₁, rfl⟩ | ⟨-, hq₁⟩ := setPhase_request h₁ <;>
      obtain ⟨hr₂, q₂, hq₂, rfl⟩ | ⟨-, hq₂⟩ := setPhase_request h₂ <;> grind
  · intro r' q' l x e a hq' hx he
    obtain ⟨rfl, q₀, hq, rfl⟩ | ⟨-, hq⟩ := setPhase_request hq'
    · exact absurd hx (hentered l x)
    · exact h.apart _ _ _ _ _ _ hq hx he

theorem Residency.goesOn {phase : Phase} (h : Residency m) (hr : m.requests[r]? = some q)
    (hphase : PhaseStep m r q phase) : Residency (m.setPhase r phase) :=
  h.setPhase hr hphase.locks (hphase.ok (h.requests _ _ hr) h.stored) (by cases hphase <;> nofun)

variable {α : Type} {x y : α} {i : Nat}

theorem getElem?_snoc {l : List α} (h : (l ++ [x])[i]? = some y) : l[i]? = some y ∨ i = l.length ∧ y = x := by
  rw [List.getElem?_append] at h
  split at h
  · exact .inl h
  · rename_i hlt
    obtain ⟨hlt', heq⟩ := List.getElem?_eq_some_iff.mp h
    rw [List.length_singleton] at hlt'
    exact .inr ⟨by omega, by simpa using heq.symm⟩

theorem getElem?_snoc_of {l : List α} (x : α) (h : l[i]? = some y) : (l ++ [x])[i]? = some y := by
  rw [List.getElem?_append_left (List.getElem?_eq_some_iff.mp h).1]
  exact h

theorem length_ne {l : List α} (h : l[i]? = some x) : i ≠ l.length := Nat.ne_of_lt (List.getElem?_eq_some_iff.mp h).1

/-! ## Activations that come and go -/

variable {l : List AgentId}

theorem Residency.spoils (h : Residency m) {f : Activation → Activation} (hr : m.requests[r]? = some q)
    (hphase : q.phase = .handed l e)
    (hf : ∀ a, m.epochs[e]? = some a → (f a).identity = a.identity ∧ (f a).stage.live = a.stage.live) :
    Residency ((m.setPhase r (.rollingBack l e)).modifyEpoch e f) := by
  have hq := h.requests r q hr
  have hlater : Residency (m.setPhase r (.rollingBack l e)) := by
    apply h.setPhase hr
    · rw [hphase]
      exact fun _ => .inl rfl
    · have := hq.named
      rw [hphase] at this
      exact ⟨hq.known, nofun, nofun, fun hfresh => hq.begotten (.inl (hfresh.resolve_right nofun)), nofun, nofun,
        this, nofun⟩
    · exact nofun
  exact hlater.same (Same.modifyEpoch hf)

theorem Residency.sole_child (h : Residency m) (he : m.epochs[e]? = some a) (he' : m.epochs[e']? = some a')
    (hlive : a.stage.live) (hlive' : a'.stage.live) (hchild : a.childId = a'.childId) : e = e' := by
  have hmap := (h.epochs e a he).inMap hlive
  rw [hchild, (h.epochs e' a' he').inMap hlive'] at hmap
  exact (Option.some.inj hmap).symm

theorem getElem?_finished (m : Manager) (e : EpochId) (child : SessionId) (failed : Bool) (e' : EpochId) :
    (m.finished e child failed).epochs[e']? = m.epochs[e']?.map fun b =>
      let b := if child ∈ b.owned ∧ b.stage.live then
        { b with owned := b.owned.filter (· ≠ child), poke := b.poke + 1 } else b
      if e = e' then { b with stage := .ended failed } else b := by
  rw [finished, getElem?_modifyEpoch, getElem?_releaseOwnership, map_map]
  rfl

variable {child : SessionId} {failed : Bool}

theorem finished_of_some {b' : Activation} (h : (m.finished e child failed).epochs[e']? = some b') :
    ∃ b, m.epochs[e']? = some b ∧ b'.identity = b.identity
      ∧ (e = e' ∧ b'.stage = .ended failed ∨ e ≠ e' ∧ b'.stage = b.stage) := by
  rw [getElem?_finished, map_eq_some_iff] at h
  obtain ⟨b, hb, rfl⟩ := h
  refine ⟨b, hb, ?_, ?_⟩
  · dsimp only
    split <;> split <;> rfl
  · dsimp only
    by_cases he : e = e'
    · rw [if_pos he]
      exact .inl ⟨he, rfl⟩
    · rw [if_neg he]
      refine .inr ⟨he, ?_⟩
      split <;> rfl

theorem finished_some {b : Activation} (h : m.epochs[e']? = some b) :
    ∃ b', (m.finished e child failed).epochs[e']? = some b' ∧ b'.identity = b.identity
      ∧ (e ≠ e' → b'.stage = b.stage) := by
  have hget := getElem?_finished m e child failed e'
  rw [h, map_some] at hget
  refine ⟨_, hget, ?_, fun hne => ?_⟩
  · dsimp only
    split <;> split <;> rfl
  · dsimp only
    rw [if_neg hne]
    split <;> rfl

theorem Grows.finished (e : EpochId) (child : SessionId) (failed : Bool) : Grows m (m.finished e child failed) where
  sessions := le_refl _
  header := fun _ _ hc => hc
  persisted := fun _ hc => hc
  agents := fun _ _ hx => hx
  epochs := by
    intro e' b hb
    obtain ⟨b', hb', hid, -⟩ := finished_some hb
    exact ⟨b', hb', hid⟩

theorem Residency.finishes (h : Residency m) (he : m.epochs[e]? = some a) (hlive : a.stage.live) :
    Residency (m.finished e a.childId failed) where
  older := h.older
  known := h.known
  seated := h.seated
  registered := h.registered
  requests := by
    intro r q hr
    apply (h.requests r q hr).grows (Grows.finished e a.childId failed)
    · exact fun _ _ hq => hq
    · intro _ hq
      show update m.activations a.childId none q.child = none
      rw [update_apply]
      split
      · rfl
      · exact hq
  once := h.once
  locked := h.locked
  epochs := by
    intro e' b' hb'
    obtain ⟨b, hb, hid, hstage⟩ := finished_of_some hb'
    obtain ⟨hparented, hagent, hmap⟩ := h.epochs e' b hb
    simp only [identity, Prod.mk.injEq] at hid
    obtain ⟨hchild, hagent', hparent, -⟩ := hid
    refine ⟨?_, ?_, fun hlive' => ?_⟩
    · rw [hchild, hparent]
      exact hparented
    · rw [hagent', hchild]
      exact hagent
    · obtain ⟨-, hended⟩ | ⟨hne, hsame⟩ := hstage
      · rw [hended] at hlive'
        cases hlive'
      · rw [hsame] at hlive'
        -- another live Activation is of another child
        have hother : b.childId ≠ a.childId := fun heq => hne (h.sole_child he hb hlive hlive' heq.symm)
        show update m.activations a.childId none b'.childId = _
        rw [hchild, update_of_ne hother]
        exact hmap hlive'
  mapped := by
    intro c e' hc
    change update m.activations a.childId none c = some e' at hc
    rw [update_apply] at hc
    split at hc
    · cases hc
    · rename_i hother
      obtain ⟨b, hb, rfl, hlive'⟩ := h.mapped c e' hc
      have hne : e ≠ e' := by
        rintro rfl
        exact hother (congrArg childId (Option.some.inj (hb.symm.trans he)))
      obtain ⟨b', hb', hid, hstage⟩ := finished_some hb
      exact ⟨b', hb', congrArg Prod.fst hid, (congrArg Stage.live (hstage hne)).trans hlive'⟩
  stored := by
    intro c e' hc
    change update m.activations a.childId none c = some e' at hc
    rw [update_apply] at hc
    split at hc
    · cases hc
    · exact h.stored c e' hc
  sole := by
    intro e₁ e₂ b₁ b₂ h₁ h₂ hagent
    obtain ⟨a₁, h₁, hid₁, -⟩ := finished_of_some h₁
    obtain ⟨a₂, h₂, hid₂, -⟩ := finished_of_some h₂
    simp only [identity, Prod.mk.injEq] at hid₁ hid₂
    exact h.sole _ _ _ _ h₁ h₂ (hid₁.2.1.symm.trans (hagent.trans hid₂.2.1))
  apart := by
    intro r q l x e' b' hr hphase hb'
    obtain ⟨b, hb, hid, -⟩ := finished_of_some hb'
    simp only [identity, Prod.mk.injEq] at hid
    rw [hid.2.1]
    exact h.apart r q l x e' b hr hphase hb

theorem install_request {parentSession : SessionId} {x : AgentId}
    (h : (m.install r q parentSession l x).requests[r']? = some q') :
    (r = r' ∧ ∃ q₀, m.requests[r]? = some q₀
        ∧ q' = { q₀ with phase := .handed l m.epochs.length, made := some m.epochs.length })
      ∨ (r ≠ r' ∧ m.requests[r']? = some q') := by
  change (m.requests.modify r _)[r']? = some q' at h
  rw [List.getElem?_modify, map_eq_map, map_eq_some_iff] at h
  obtain ⟨q, hq, rfl⟩ := h
  by_cases hr : r = r'
  · subst hr
    exact .inl ⟨rfl, q, hq, by rw [if_pos rfl]⟩
  · rw [if_neg hr]
    exact .inr ⟨hr, hq⟩

theorem Grows.install (parentSession : SessionId) (l : List AgentId) (x : AgentId) :
    Grows m (m.install r q parentSession l x) where
  sessions := le_refl _
  header := fun _ _ hc => hc
  persisted := fun _ hc => hc
  agents := fun _ _ hx => hx
  epochs := fun _ a he => ⟨a, getElem?_snoc_of _ he, rfl⟩

variable {info : AgentInfo}

theorem Residency.installs (h : Residency m) {x : AgentId}
    (hr : m.requests[r]? = some q) (hparent : m.agents[q.parent]? = some info)
    (hphase : q.phase = .entered l x) : Residency (m.install r q info.session l x) := by
  have hq := h.requests r q hr
  obtain ⟨hx, hstored⟩ := hq.entered l x hphase
  have habsent : m.activations q.child = none := hq.absent (by rw [hphase]; rfl)
  have hlocks : q.phase.locks := by rw [hphase]; rfl
  have hheader : m.header q.child = some info.session := by
    obtain ⟨info', hparent', hheader⟩ := hq.begotten (.inr (by rw [hphase]; rfl))
    cases hparent.symm.trans hparent'
    exact hheader
  have hnew : (m.install r q info.session l x).epochs[m.epochs.length]?
      = some { childId := q.child, agent := x, parentSession := info.session, ancestry := x :: l } :=
    List.getElem?_concat_length
  refine { h with
    requests := ?_
    once := ?_
    locked := ?_
    epochs := ?_
    mapped := ?_
    stored := ?_
    sole := ?_
    apart := ?_ }
  · intro r' q' hq'
    obtain ⟨rfl, q₀, hq₀, rfl⟩ | ⟨hne, hq'⟩ := install_request hq'
    · cases hr.symm.trans hq₀
      refine ⟨hq.known, nofun, fun _ _ => hstored, fun _ => ⟨info, hparent, hheader⟩, nofun, nofun, ?_, nofun⟩
      intro e he
      cases he
      exact ⟨_, hnew, rfl⟩
    · apply (h.requests _ _ hq').grows (Grows.install _ _ _)
      · exact fun _ _ hunborn => hunborn
      · intro hstarting hnone
        -- its child is another one, since both hold their locks
        have hother : q'.child ≠ q.child := by
          intro heq
          have hlocks' : q'.phase.locks := by
            revert hstarting
            cases q'.phase <;> simp [Phase.starting, Phase.locks]
          exact hne (h.locked _ _ _ _ hr hq' hlocks hlocks' heq.symm)
        show update m.activations q.child _ q'.child = none
        rw [update_of_ne hother]
        exact hnone
  · intro r₁ r₂ q₁ q₂ h₁ h₂
    have := h.once
    obtain ⟨rfl, q₁, hq₁, rfl⟩ | ⟨-, hq₁⟩ := install_request h₁ <;>
      obtain ⟨hr₂, q₂, hq₂, rfl⟩ | ⟨-, hq₂⟩ := install_request h₂ <;> grind
  · intro r₁ r₂ q₁ q₂ h₁ h₂
    have := h.locked
    obtain ⟨rfl, q₁, hq₁, rfl⟩ | ⟨-, hq₁⟩ := install_request h₁ <;>
      obtain ⟨hr₂, q₂, hq₂, rfl⟩ | ⟨-, hq₂⟩ := install_request h₂ <;> grind
  · intro e a he
    obtain he | ⟨rfl, rfl⟩ := getElem?_snoc he
    · obtain ⟨hparented, hagent, hmap⟩ := h.epochs e a he
      refine ⟨hparented, hagent, fun hlive => ?_⟩
      have hother : a.childId ≠ q.child := by
        intro heq
        rw [heq, habsent] at hmap
        cases hmap hlive
      show update m.activations q.child _ a.childId = _
      rw [update_of_ne hother]
      exact hmap hlive
    · exact ⟨hheader, ⟨_, hx, rfl⟩, fun _ => update_self ..⟩
  · intro c e hc
    change update m.activations q.child _ c = some e at hc
    rw [update_apply] at hc
    split at hc
    · rename_i heq
      cases hc
      exact ⟨_, hnew, heq.symm, rfl⟩
    · obtain ⟨a, he, hchild, hlive⟩ := h.mapped c e hc
      exact ⟨a, getElem?_snoc_of _ he, hchild, hlive⟩
  · intro c e hc
    change update m.activations q.child _ c = some e at hc
    rw [update_apply] at hc
    split at hc
    · rename_i heq
      rw [heq]
      exact hstored
    · exact h.stored c e hc
  · intro e₁ e₂ a₁ a₂ h₁ h₂ hagent
    obtain h₁ | ⟨rfl, rfl⟩ := getElem?_snoc h₁
    · obtain h₂ | ⟨rfl, rfl⟩ := getElem?_snoc h₂
      · exact h.sole _ _ _ _ h₁ h₂ hagent
      · exact absurd hagent (h.apart r q l x _ _ hr hphase h₁)
    · obtain h₂ | ⟨rfl, rfl⟩ := getElem?_snoc h₂
      · exact absurd hagent.symm (h.apart r q l x _ _ hr hphase h₂)
      · rfl
  · intro r' q' l' x' e a hq' hphase' he
    obtain ⟨rfl, q₀, hq₀, rfl⟩ | ⟨hne, hq'⟩ := install_request hq'
    · cases hphase'
    obtain he | ⟨rfl, rfl⟩ := getElem?_snoc he
    · exact h.apart r' q' l' x' e a hq' hphase' he
    · -- two requests that have entered the same Agent would be for the same child
      rintro rfl
      have hx' := ((h.requests _ _ hq').entered l' _ hphase').1
      rw [hx] at hx'
      have hchild : q.child = q'.child := congrArg AgentInfo.session (Option.some.inj hx')
      exact hne (h.locked _ _ _ _ hr hq' hlocks (by rw [hphase']; rfl) hchild)

/-! ## Sessions, Agents and requests that are added -/

theorem Grows.starts (h : Residency m) (parent : Option SessionId) (qs : List Request) : Grows m { m with
      header := update m.header m.sessions parent
      sessions := m.sessions + 1
      requests := qs } where
  sessions := Nat.le_succ _
  header := by
    intro c p hc
    show update m.header m.sessions parent c = some p
    rw [update_of_ne (Nat.ne_of_lt (h.older c p hc).1)]
    exact hc
  persisted := fun _ hc => hc
  agents := fun _ _ hx => hx
  epochs := fun _ a he => ⟨a, he, rfl⟩

variable {parent : Option SessionId}

theorem older_update (h : Residency m) (hparent : ∀ p, parent = some p → p < m.sessions) :
    ∀ c p, update m.header m.sessions parent c = some p → c < m.sessions + 1 ∧ p < c := by
  intro c p hc
  rw [update_apply] at hc
  split at hc
  · rename_i heq
    rw [heq]
    exact ⟨lt_succ_self _, hparent p hc⟩
  · obtain ⟨hlt, holder⟩ := h.older c p hc
    exact ⟨lt_succ_of_lt hlt, holder⟩

theorem Residency.starts (h : Residency m) {parent : AgentId}
    (hparent : m.agents[parent]? = some info) : Residency { m with
      header := update m.header m.sessions (some info.session)
      sessions := m.sessions + 1
      requests := m.requests ++ [{ parent, child := m.sessions, fresh := true, phase := .preparing }] } where
  older := older_update h fun p hp => Option.some.inj hp ▸ h.seated _ _ hparent
  known := fun c hc => lt_succ_of_lt (h.known c hc)
  seated := fun x info hx => lt_succ_of_lt (h.seated x info hx)
  registered := h.registered
  requests := by
    intro r q hr
    obtain hr | ⟨rfl, rfl⟩ := getElem?_snoc hr
    · exact (h.requests r q hr).grows (Grows.starts h _ _) (fun _ _ hq => hq) fun _ hq => hq
    · refine ⟨fun _ => lt_succ_self _, fun _ _ => ?_, nofun, fun _ => ⟨info, hparent, update_self ..⟩,
        nofun, nofun, nofun, nofun⟩
      cases hp : m.persisted m.sessions with
      | false => rfl
      | true => exact absurd (h.known _ hp) (lt_irrefl _)
  once := by
    intro r₁ r₂ q₁ q₂ h₁ h₂ hf₁ hf₂ hchild
    obtain h₁ | ⟨rfl, rfl⟩ := getElem?_snoc h₁
    · obtain h₂ | ⟨rfl, rfl⟩ := getElem?_snoc h₂
      · exact h.once _ _ _ _ h₁ h₂ hf₁ hf₂ hchild
      · exact absurd hchild (Nat.ne_of_lt ((h.requests _ _ h₁).known hf₁))
    · obtain h₂ | ⟨rfl, rfl⟩ := getElem?_snoc h₂
      · exact absurd hchild.symm (Nat.ne_of_lt ((h.requests _ _ h₂).known hf₂))
      · rfl
  locked := by
    intro r₁ r₂ q₁ q₂ h₁ h₂ hl₁ hl₂
    obtain h₁ | ⟨rfl, rfl⟩ := getElem?_snoc h₁
    · obtain h₂ | ⟨rfl, rfl⟩ := getElem?_snoc h₂
      · exact h.locked _ _ _ _ h₁ h₂ hl₁ hl₂
      · cases hl₂
    · cases hl₁
  epochs := by
    intro e a he
    obtain ⟨hparented, hagent, hmap⟩ := h.epochs e a he
    exact ⟨(Grows.starts h _ []).header _ _ hparented, hagent, hmap⟩
  mapped := h.mapped
  stored := h.stored
  sole := h.sole
  apart := by
    intro r q l x e a hr hphase he
    obtain hr | ⟨rfl, rfl⟩ := getElem?_snoc hr
    · exact h.apart r q l x e a hr hphase he
    · cases hphase

theorem Residency.asks (h : Residency m) (parent : AgentId) (child : SessionId) : Residency { m with
    requests := m.requests ++ [{ parent, child, fresh := false, phase := .waiting }] } := by
  have hgrows : Grows m { m with
      requests := m.requests ++ [{ parent, child, fresh := false, phase := .waiting }] } :=
    ⟨le_refl _, fun _ _ hc => hc, fun _ hc => hc, fun _ _ hx => hx, fun _ a he => ⟨a, he, rfl⟩⟩
  refine { h with
    requests := ?_
    once := ?_
    locked := ?_
    epochs := fun e a he => ⟨(h.epochs e a he).1, (h.epochs e a he).2, (h.epochs e a he).3⟩
    apart := ?_ }
  · intro r q hr
    obtain hr | ⟨rfl, rfl⟩ := getElem?_snoc hr
    · exact (h.requests r q hr).grows hgrows (fun _ _ hq => hq) fun _ hq => hq
    · exact ⟨nofun, nofun, nofun, nofun, nofun, nofun, nofun, nofun⟩
  · intro r₁ r₂ q₁ q₂ h₁ h₂ hf₁ hf₂
    obtain h₁ | ⟨rfl, rfl⟩ := getElem?_snoc h₁
    · obtain h₂ | ⟨rfl, rfl⟩ := getElem?_snoc h₂
      · exact h.once _ _ _ _ h₁ h₂ hf₁ hf₂
      · cases hf₂
    · cases hf₁
  · intro r₁ r₂ q₁ q₂ h₁ h₂ hl₁ hl₂
    obtain h₁ | ⟨rfl, rfl⟩ := getElem?_snoc h₁
    · obtain h₂ | ⟨rfl, rfl⟩ := getElem?_snoc h₂
      · exact h.locked _ _ _ _ h₁ h₂ hl₁ hl₂
      · cases hl₂
    · cases hl₁
  · intro r q l x e a hr hphase he
    obtain hr | ⟨rfl, rfl⟩ := getElem?_snoc hr
    · exact h.apart r q l x e a hr hphase he
    · cases hphase

theorem registered_update (h : Residency m) (info : AgentInfo) :
    ∀ s x, update m.registry info.session (some m.agents.length) s = some x →
      ∃ info', (m.agents ++ [info])[x]? = some info' ∧ info'.session = s := by
  intro s x hx
  rw [update_apply] at hx
  split at hx
  · rename_i heq
    cases hx
    exact ⟨info, List.getElem?_concat_length, heq.symm⟩
  · obtain ⟨info', hinfo, hs⟩ := h.registered s x hx
    exact ⟨info', getElem?_snoc_of _ hinfo, hs⟩

theorem Residency.enters (h : Residency m) (hr : m.requests[r]? = some q)
    (hphase : q.phase = .creating l) : Residency { m.setPhase r (.entered l m.agents.length) with
      agents := m.agents ++ [{ session := q.child, parent := some q.parent }]
      registry := update m.registry q.child (some m.agents.length)
      persisted := update m.persisted q.child true } := by
  have hq := h.requests r q hr
  have habsent : m.activations q.child = none := hq.absent (by rw [hphase]; rfl)
  have hlocks : q.phase.locks := by rw [hphase]; rfl
  obtain ⟨info, hparent, hheader⟩ := hq.begotten (.inr (by rw [hphase]; rfl))
  have hknown : q.child < m.sessions := (h.older _ _ hheader).1
  have hgrows : Grows m { m.setPhase r (.entered l m.agents.length) with
      agents := m.agents ++ [{ session := q.child, parent := some q.parent }]
      registry := update m.registry q.child (some m.agents.length)
      persisted := update m.persisted q.child true } := by
    refine ⟨le_refl _, fun _ _ hc => hc, fun c hc => ?_, fun _ _ hx => getElem?_snoc_of _ hx, fun _ a he => ⟨a, he, rfl⟩⟩
    show update m.persisted q.child true c = true
    rw [update_apply]
    split
    · rfl
    · exact hc
  refine { h with
    known := ?_
    seated := ?_
    registered := registered_update h { session := q.child, parent := some q.parent }
    requests := ?_
    once := ?_
    locked := ?_
    epochs := ?_
    stored := fun c e hc => hgrows.persisted c (h.stored c e hc)
    apart := ?_ }
  · intro c hc
    change update m.persisted q.child true c = true at hc
    rw [update_apply] at hc
    split at hc
    · rename_i heq
      rw [heq]
      exact hknown
    · exact h.known c hc
  · intro x info hx
    obtain hx | ⟨-, rfl⟩ := getElem?_snoc hx
    · exact h.seated x info hx
    · exact hknown
  · intro r' q' hq'
    obtain ⟨rfl, q₀, hq₀, rfl⟩ | ⟨hne, hq'⟩ := setPhase_request hq'
    · cases hr.symm.trans hq₀
      refine ⟨hq.known, nofun, fun _ _ => update_self .., fun _ => ⟨info, getElem?_snoc_of _ hparent, hheader⟩,
        nofun, fun _ => habsent, nofun, ?_⟩
      intro l' x hx
      cases hx
      exact ⟨List.getElem?_concat_length, update_self ..⟩
    · apply (h.requests _ _ hq').grows hgrows
      · intro hfresh hunborn hnone
        -- the child of another fresh request that has not begun is no session yet
        have hother : q'.child ≠ q.child := by
          intro heq
          cases hf : q.fresh with
          | true => exact hne (h.once _ _ _ _ hr hq' hf hfresh heq.symm)
          | false =>
            have := hq.stored hf (by rw [hphase]; rfl)
            rw [heq, this] at hnone
            cases hnone
        show update m.persisted q.child true q'.child = false
        rw [update_of_ne hother]
        exact hnone
      · exact fun _ hnone => hnone
  · intro r₁ r₂ q₁ q₂ h₁ h₂
    have := h.once
    obtain ⟨rfl, q₁, hq₁, rfl⟩ | ⟨-, hq₁⟩ := setPhase_request h₁ <;>
      obtain ⟨hr₂, q₂, hq₂, rfl⟩ | ⟨-, hq₂⟩ := setPhase_request h₂ <;> grind
  · intro r₁ r₂ q₁ q₂ h₁ h₂
    have := h.locked
    obtain ⟨rfl, q₁, hq₁, rfl⟩ | ⟨-, hq₁⟩ := setPhase_request h₁ <;>
      obtain ⟨hr₂, q₂, hq₂, rfl⟩ | ⟨-, hq₂⟩ := setPhase_request h₂ <;> grind
  · intro e a he
    obtain ⟨hparented, ⟨info, hagent, hs⟩, hmap⟩ := h.epochs e a he
    exact ⟨hparented, ⟨info, getElem?_snoc_of _ hagent, hs⟩, hmap⟩
  · intro r' q' l' x e a hq' hphase' he
    obtain ⟨rfl, q₀, hq₀, rfl⟩ | ⟨-, hq'⟩ := setPhase_request hq'
    · obtain ⟨info, hagent, -⟩ := (h.epochs e a he).agent
      cases hphase'
      exact length_ne hagent
    · exact h.apart r' q' l' x e a hq' hphase' he

theorem Residency.resumes (h : Residency m) {session : SessionId} (parent : Option AgentId)
    (hknown : session < m.sessions) : Residency { m with
      agents := m.agents ++ [{ session, parent }]
      registry := update m.registry session (some m.agents.length) } := by
  have hgrows : Grows m { m with
      agents := m.agents ++ [{ session, parent }]
      registry := update m.registry session (some m.agents.length) } :=
    ⟨le_refl _, fun _ _ hc => hc, fun _ hc => hc, fun _ _ hx => getElem?_snoc_of _ hx, fun _ a he => ⟨a, he, rfl⟩⟩
  refine { h with
    seated := ?_
    registered := registered_update h { session, parent }
    requests := fun r q hr => (h.requests r q hr).grows hgrows (fun _ _ hq => hq) fun _ hq => hq
    epochs := ?_ }
  · intro x info hx
    obtain hx | ⟨-, rfl⟩ := getElem?_snoc hx
    · exact h.seated x info hx
    · exact hknown
  · intro e a he
    obtain ⟨hparented, ⟨info, hagent, hs⟩, hmap⟩ := h.epochs e a he
    exact ⟨hparented, ⟨info, getElem?_snoc_of _ hagent, hs⟩, hmap⟩

theorem Residency.sessions (h : Residency m) (hparent : ∀ p, parent = some p → p < m.sessions) : Residency { m with
      header := update m.header m.sessions parent
      sessions := m.sessions + 1
      persisted := update m.persisted m.sessions true } := by
  have hheader : ∀ c p, m.header c = some p → update m.header m.sessions parent c = some p :=
    (Grows.starts h parent []).header
  have hpersisted : ∀ c, m.persisted c → update m.persisted m.sessions true c = true := by
    intro c hc
    rw [update_of_ne (Nat.ne_of_lt (h.known c hc))]
    exact hc
  have hgrows : Grows m { m with
      header := update m.header m.sessions parent
      sessions := m.sessions + 1
      persisted := update m.persisted m.sessions true } :=
    ⟨Nat.le_succ _, hheader, hpersisted, fun _ _ hx => hx, fun _ a he => ⟨a, he, rfl⟩⟩
  refine { h with
    older := older_update h hparent
    known := ?_
    seated := fun x info hx => lt_succ_of_lt (h.seated x info hx)
    requests := ?_
    epochs := fun e a he => ⟨hheader _ _ (h.epochs e a he).1, (h.epochs e a he).2, (h.epochs e a he).3⟩
    stored := fun c e hc => hpersisted c (h.stored c e hc) }
  · intro c hc
    change update m.persisted m.sessions true c = true at hc
    rw [update_apply] at hc
    split at hc
    · rename_i heq
      rw [heq]
      exact lt_succ_self _
    · exact lt_succ_of_lt (h.known c hc)
  · intro r q hr
    have hq := h.requests r q hr
    apply hq.grows hgrows
    · intro hfresh _ hnone
      show update m.persisted m.sessions true q.child = false
      rw [update_of_ne (Nat.ne_of_lt (hq.known hfresh))]
      exact hnone
    · exact fun _ hnone => hnone

/-- **Every move keeps residency.** -/
theorem Residency.move (h : Residency m) (hmove : Move rules m m') : Residency m' := by
  cases hmove with
  | book | closes | enqueue agent message =>
    exact h.same ⟨rfl, rfl, rfl, rfl, fun _ _ hx => hx, rfl, rfl, fun _ => rfl⟩
  | tend e f hf hannounced =>
    apply h.same
    apply Same.modifyEpoch
    intro a _
    rw [hf a]
    exact ⟨rfl, rfl⟩
  | accepts e a message he hadmits =>
    have hadmitted : Residency (m.modifyEpoch e fun a =>
        { a with accepted := a.accepted ++ [message], poke := a.poke + 1 }) :=
      h.same (Same.modifyEpoch fun _ _ => ⟨rfl, rfl⟩)
    exact hadmitted.same ⟨rfl, rfl, rfl, rfl, fun _ _ hx => hx, rfl, rfl, fun _ => rfl⟩
  | clear e a he hclosing => exact h.same (Same.leaveInbox _ _)
  | detach agent => exact h.same (Same.detach agent)
  | acquire e a child he hresident hheader hchild => exact h.same (Same.modifyEpoch fun _ _ => ⟨rfl, rfl⟩)
  | opens e a he hresident hopens | sticks e a he hresident hopens hthrows
  | releases e a failed failed' he hresident hfailed =>
    apply h.same
    apply Same.modifyEpoch
    intro b hb
    cases he.symm.trans hb
    rw [hresident]
    exact ⟨rfl, rfl⟩
  | quiets e a failed stage he hstage hwaits hnext =>
    apply h.same
    apply Same.modifyEpoch
    intro b hb
    cases he.symm.trans hb
    rw [hstage]
    rcases hnext with rfl | rfl <;> exact ⟨rfl, rfl⟩
  | finishes e a failed he hstage => exact h.finishes he (by rw [hstage]; rfl)
  | installs r q info l agent hr hparent hphase => exact h.installs hr hparent hphase
  | spoils r q l e a stage hr hphase he hresident howned hwaits haccepted hannounced hstage =>
    apply h.spoils hr hphase
    intro b hb
    cases he.symm.trans hb
    rw [hresident]
    rcases hstage with rfl | rfl <;> exact ⟨rfl, rfl⟩
  | starts parent info hparent => exact h.starts hparent
  | asks parent child => exact h.asks parent child
  | goesOn r q phase hr hphase => exact h.goesOn hr hphase
  | enters r q l hr hphase hfree => exact h.enters hr hphase
  | hosts parent hparent => exact (h.sessions hparent).resumes _ (lt_succ_self _)
  | resumes session hpersisted hfree => exact h.resumes _ (h.known _ hpersisted)

theorem Residency.moves (h : Residency m) (hmoves : Moves rules m m') : Residency m' := by
  induction hmoves with
  | refl => exact h
  | tail _ hmove ih => exact ih.move hmove

end Manager

end CocoHarness.Subagent
