/-
# CocoHarness.Client.WindowDelivery — when no delivered event is stranded in the live buffer.

An event waits in the buffer for a page, so while events wait a page of the current generation is to be on its way.
Two things break that.  A repair that a resync has superseded keeps diverting the live events of the new window, and
installs nothing when its page lands (`Diverted`).  And the second page of an open, or a repair, may fail while
events wait for it (`FailsWaiting`).
-/
import CocoHarness.Client.WindowContiguity

namespace CocoHarness.Client

open Lib SessionWindow

variable {ε : Type}

namespace SessionWindow

open ClientSession

variable {s s' : SessionWindow ε}

/-- The request is one for the window of the current generation. -/
def Current (c : ClientSession ε) : RequestKind → Prop
  | .firstPage generation | .secondPage generation | .repair generation => generation = c.openGeneration
  | .older _ => False

instance (c : ClientSession ε) (kind : RequestKind) : Decidable (Current c kind) :=
  match kind with
  | .firstPage _ | .secondPage _ | .repair _ => inferInstanceAs (Decidable (_ = _))
  | .older _ => inferInstanceAs (Decidable False)

/-- No request for the window of the current generation is in flight. -/
def Idle (s : SessionWindow ε) : Prop := ∀ request ∈ s.requests, ¬ Current s.client request.kind

instance (s : SessionWindow ε) : Decidable s.Idle :=
  inferInstanceAs (Decidable (∀ request ∈ s.requests, ¬ Current s.client request.kind))

def Repairing (s : SessionWindow ε) : Prop := ∃ request ∈ s.requests, request.kind = .repair s.client.openGeneration

instance (s : SessionWindow ε) : Decidable s.Repairing :=
  inferInstanceAs (Decidable (∃ request ∈ s.requests, request.kind = .repair s.client.openGeneration))

/-- A live event meets an open window whose repair is one of an earlier generation. -/
def Diverted (s : SessionWindow ε) : Action ε → Prop
  | .event => s.client.openState = .«open» ∧ s.client.stitching = true ∧ ¬ s.Repairing
  | _ => False

def AwaitedBy (c : ClientSession ε) : RequestKind → Prop
  | .secondPage generation | .repair generation => generation = c.openGeneration
  | .firstPage _ | .older _ => False

instance (c : ClientSession ε) (kind : RequestKind) : Decidable (AwaitedBy c kind) :=
  match kind with
  | .secondPage _ | .repair _ => inferInstanceAs (Decidable (_ = _))
  | .firstPage _ | .older _ => inferInstanceAs (Decidable False)

/-- The second page of the open, or a repair, fails while events wait for it. -/
def FailsWaiting (s : SessionWindow ε) : Action ε → Prop
  | .respond i answer => s.client.liveBuffer ≠ [] ∧ (answer = .refused ∨ answer = .thrown)
      ∧ ∃ request ∈ s.requests[i]?, AwaitedBy s.client request.kind
  | _ => False

def Lands (s : SessionWindow ε) (a : Action ε) : Prop := ¬ s.Diverted a ∧ ¬ s.FailsWaiting a

instance [DecidableEq ε] (s : SessionWindow ε) (a : Action ε) : Decidable (s.Lands a) :=
  match a with
  | .event => inferInstanceAs (Decidable (¬ (_ ∧ _ ∧ ¬ _) ∧ ¬ False))
  | .respond _ _ => inferInstanceAs (Decidable (¬ False ∧ ¬ (_ ≠ _ ∧ (_ ∨ _) ∧ ∃ request ∈ _, _)))
  | .grow _ | .subscribed _ | .«open» | .loadOlder | .resync => inferInstanceAs (Decidable (¬ False ∧ ¬ False))

/-- Events wait in an open session only for a repair of its generation. -/
def Landing (s : SessionWindow ε) : Prop := s.client.openState = .«open» → s.client.liveBuffer ≠ [] → s.Repairing

theorem Landing.of_not (h : ¬ (s.client.openState = .«open» ∧ s.client.liveBuffer ≠ [])) : s.Landing :=
  fun hopen hbuffer => absurd ⟨hopen, hbuffer⟩ h

theorem Landing.erase (h : s.Landing) {i : Nat} {request : Request} (hrequest : s.requests[i]? = some request)
    (hother : request.kind ≠ .repair s.client.openGeneration)
    (hrequests : s'.requests = s.requests.eraseIdx i)
    (hopen : s'.client.openState = s.client.openState)
    (hbuffer : s'.client.liveBuffer = s.client.liveBuffer)
    (hgeneration : s'.client.openGeneration = s.client.openGeneration) : s'.Landing := by
  intro hopen' hbuffer'
  rw [hopen] at hopen'
  rw [hbuffer] at hbuffer'
  obtain ⟨repair, hrepair, hkind⟩ := h hopen' hbuffer'
  refine ⟨repair, ?_, by rw [hgeneration]; exact hkind⟩
  rw [hrequests, List.mem_eraseIdx_iff_getElem?]
  obtain ⟨j, hj⟩ := List.getElem?_of_mem hrepair
  refine ⟨j, ?_, hj⟩
  rintro rfl
  cases hrequest.symm.trans hj
  exact hother hkind

/-- **A live event.** -/
theorem Landing.accept (h : s.Landing) (hlands : ¬ s.Diverted .event) (next : Option Nat) (e : LogEvent ε) :
    (acceptLiveEvent { s with next } e).Landing := by
  unfold acceptLiveEvent
  dsimp only
  split
  · next hawaits =>
    intro hopen hbuffer
    -- an open session that buffers is stitching, for a repair of its own
    have hstitching : s.client.stitching = true := by
      rcases hawaits with hloading | hstitching
      · rw [show s.client.openState = .«open» from hopen] at hloading
        cases hloading
      · exact hstitching
    by_contra hnone
    exact hlands ⟨hopen, hstitching, hnone⟩
  · split
    · next hnot => exact .of_not fun hboth => hnot hboth.1
    · split
      · intro _ _
        exact ⟨_, List.mem_append_right _ (List.mem_singleton.mpr rfl), rfl⟩
      · rw [appendLive_eq]
        exact h

/-- **The step lemma.** -/
theorem Landing.step (h : s.Landing) {a : Action ε} (hlands : s.Lands a)
    (hstep : s.step a = some s') : s'.Landing := by
  obtain ⟨hdiverted, hfails⟩ := hlands
  cases a with
  | grow body =>
    cases hstep
    exact h
  | subscribed length =>
    rw [SessionWindow.step] at hstep
    split at hstep
    · cases hstep
      exact h
    · cases hstep
  | event =>
    obtain ⟨seq, -, hdeliver⟩ := Option.bind_eq_some_iff.mp hstep
    obtain ⟨body, -, rfl⟩ := Option.map_eq_some_iff.mp hdeliver
    exact h.accept hdiverted _ _
  | «open» =>
    cases hstep
    unfold SessionWindow.«open»
    split
    · exact h
    · exact .of_not fun hboth => by cases hboth.1
  | loadOlder =>
    cases hstep
    unfold loadOlder
    split
    · exact h
    · intro hopen hbuffer
      obtain ⟨request, hrequest, hkind⟩ := h hopen hbuffer
      exact ⟨request, List.mem_append_left _ hrequest, hkind⟩
  | resync =>
    cases hstep
    unfold resync
    split
    · exact h
    · unfold SessionWindow.«open»
      split <;> exact .of_not fun hboth => hboth.2 rfl
  | respond i answer =>
    obtain ⟨⟨kind, since⟩, hrequest, hanswer⟩ := Option.bind_eq_some_iff.mp hstep
    split at hanswer
    · cases hanswer
      have hwaits : answer = .refused ∨ answer = .thrown → AwaitedBy s.client kind → s.client.liveBuffer = [] := by
        intro hfailed hawaited
        by_contra hne
        exact hfails ⟨hne, hfailed, _, hrequest, hawaited⟩
      have hinstalled : ∀ page hasMore, (s.client.installWindow page hasMore).liveBuffer = [] :=
        fun page hasMore => congrArg liveBuffer (installWindow_eq s.client page hasMore)
      cases kind with
      | firstPage generation =>
        dsimp only [answered]
        split
        · exact h.erase hrequest (fun hno => by cases hno) rfl rfl rfl rfl
        · cases answer with
          | refused | thrown => exact .of_not fun hboth => by cases hboth.1
          | page shown cut =>
            dsimp only [firstPage]
            split
            · exact .of_not fun hboth => hboth.2 (hinstalled _ _)
            · exact .of_not fun hboth => hboth.2 (hinstalled _ _)
      | secondPage generation =>
        dsimp only [answered]
        split
        · exact h.erase hrequest (fun hno => by cases hno) rfl rfl rfl rfl
        · next hcurrent =>
          cases answer with
          | refused => exact .of_not fun hboth => hboth.2 (hwaits (Or.inl rfl) (not_not.mp hcurrent))
          | thrown => exact .of_not fun hboth => by cases hboth.1
          | page shown cut => exact .of_not fun hboth => hboth.2 (hinstalled _ _)
      | repair generation =>
        by_cases hcurrent : generation = s.client.openGeneration
        · cases answer with
          | refused => exact .of_not fun hboth => hboth.2 (hwaits (Or.inl rfl) hcurrent)
          | thrown => exact .of_not fun hboth => hboth.2 (hwaits (Or.inr rfl) hcurrent)
          | page shown cut =>
            dsimp only [answered, repaired]
            split
            · exact .of_not fun hboth => hboth.2 (hinstalled _ _)
            · next hnot => exact .of_not fun hboth => hnot ⟨hcurrent, hboth.1⟩
        · have hother : RequestKind.repair generation ≠ .repair s.client.openGeneration :=
            fun heq => hcurrent (RequestKind.repair.inj heq)
          cases answer with
          | refused | thrown => exact h.erase hrequest hother rfl rfl rfl rfl
          | page shown cut =>
            dsimp only [answered, repaired]
            split
            · next hboth => exact absurd hboth.1 hcurrent
            · exact h.erase hrequest hother rfl rfl rfl rfl
      | older beforeSeq =>
        have hother : RequestKind.older beforeSeq ≠ .repair s.client.openGeneration := fun hno => by cases hno
        cases answer with
        | refused | thrown => exact h.erase hrequest hother rfl rfl rfl rfl
        | page shown cut =>
          dsimp only [answered, older]
          split
          · exact h.erase hrequest hother rfl rfl rfl rfl
          · split
            · exact h.erase hrequest hother rfl rfl rfl rfl
            · exact h.erase hrequest hother rfl rfl rfl rfl
    · cases hanswer

/-- **No delivered event is stranded where repairs land.**  If no live event is diverted by a superseded repair, and
no page that events wait for fails, the buffer of an open session with no request in flight is empty. -/
theorem nothing_stranded {actions : List (Action ε)} (hrun : Machine.exec SessionWindow.step {} actions = some s)
    (hlands : Machine.Along SessionWindow.step Lands {} actions)
    (hopen : s.client.openState = .«open») (hidle : s.Idle) : s.client.liveBuffer = [] := by
  have hlanding := Machine.exec_invariant_along
    (fun s a s' h hland hstep => Landing.step (s := s) h hland hstep)
    (.of_not fun hboth => by cases hboth.1) hrun hlands
  by_contra hne
  obtain ⟨request, hrequest, hkind⟩ := hlanding hopen hne
  refine hidle request hrequest ?_
  rw [hkind]
  rfl

/-- A resync overtakes a repair, and the new window opens before the repair's page lands. -/
def superseded : List (Action Char) :=
  [.grow 'a', .«open», .respond 0 (.page 1 0), .grow 'b', .subscribed 2, .grow 'c', .event, .resync,
    .respond 1 (.page 3 0), .grow 'd', .event, .respond 0 (.page 3 0)]

/-- The session is open, nothing is in flight, and the event is in the buffer. -/
theorem superseded_repair_strands : ¬ ∀ s : SessionWindow Char, Reachable s → s.client.openState = .«open» → s.Idle →
      s.client.liveBuffer = [] := by
  intro hall
  obtain ⟨s, hs⟩ := Option.isSome_iff_exists.mp
    (show (Machine.exec SessionWindow.step {} superseded).isSome = true by decide)
  have hstate : (Machine.exec SessionWindow.step {} superseded).map
      (fun s => (s.client.openState, s.requests, s.client.liveBuffer))
      = some (.«open», [], [⟨3, 'd'⟩]) := by decide
  have hreached : Reachable s := Machine.exec_invariant (fun a _ _ _ hs hstep => .step a hs hstep) .start hs
  rw [hs, Option.map_some, Option.some.injEq, Prod.mk.injEq, Prod.mk.injEq] at hstate
  have hempty := hall s hreached hstate.1 (by rw [Idle, hstate.2.1]; exact List.forall_mem_nil _)
  rw [hstate.2.2] at hempty
  cases hempty

theorem nothing_stranded_inTime :
    ∃ s, Machine.exec SessionWindow.step {} inTime = some s ∧ s.client.openState = .«open»
      ∧ s.client.liveBuffer = [] := by
  obtain ⟨s, hs⟩ := Option.isSome_iff_exists.mp
    (show (Machine.exec SessionWindow.step {} inTime).isSome = true by decide)
  have hstate : (Machine.exec SessionWindow.step {} inTime).map
      (fun s => (s.client.openState, s.requests)) = some (.«open», []) := by decide
  rw [hs, Option.map_some, Option.some.injEq, Prod.mk.injEq] at hstate
  refine ⟨s, hs, hstate.1, nothing_stranded hs (by decide) hstate.1 ?_⟩
  rw [Idle, hstate.2]
  exact List.forall_mem_nil _

end SessionWindow

end CocoHarness.Client
