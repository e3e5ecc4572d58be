/-
# CocoHarness.Terminal.SendSlot — the send slot is never shared, and never stuck.

A send keeps the slot while a write or an interrupt issued for it is in flight, so that no interrupt reaches the
command of a later one.  This holds as long as no send is cancelled twice while its first interrupt is in flight: the
first interrupt to end then gives the slot away, with the second still to come.
-/
import CocoHarness.Terminal.Session

namespace CocoHarness.Terminal

open Lib Function Option LocalPtySession Interrupt

def Interrupt.inFlight (interrupt : Interrupt) : Bool :=
  match interrupt.stage with
  | .awaitsWrite | .resumes true | .signals => true
  | .resumes false | .over => false

theorem Interrupt.written_operation (interrupt : Interrupt) (ok : Bool) :
    (interrupt.written ok).operation = interrupt.operation := by
  rw [written]
  split <;> rfl

/-- An interrupt that has waited for the write still signals when the write has succeeded. -/
theorem Interrupt.written_inFlight (interrupt : Interrupt) (ok : Bool) : (interrupt.written ok).inFlight
      = (interrupt.inFlight && (ok || decide (interrupt.stage ≠ .awaitsWrite))) := by
  rw [written]
  split
  · next hawaits => cases ok <;> simp [inFlight, hawaits]
  · next hawaits => simp [hawaits]

namespace LocalPtySession

variable {m m' : LocalPtySession} {op : OpId} {act : Act}

def refuses (m : LocalPtySession) : Bool := m.exited || m.closing

/-! ## What holds of every session -/

structure Core (m : LocalPtySession) : Prop where
  live : ∀ op, m.active = some op → op < m.started
  unsettled : ∀ op, op < m.started → m.finished op = false → m.active = some op
  running : m.exited = true → m.active = none
  deadline : ∀ op, m.active = some op → m.finished op = false → m.closing = false → m.activeDeadlineTimer = some op
  closes : ∀ op, m.active = some op → m.closing = true → m.closePromise = .terminating
  closing : m.closePromise ≠ .none → m.closing = true
  -- The write of the slot.
  writing : ∀ op, (m.operations op).stage = .writing ↔ m.activeWrite = some op
  written : ∀ op, m.activeWrite = some op →
    op < m.started ∧ (m.active = some op ∨ (m.active = none ∧ m.refuses = true))
  -- The interrupts of the slot: one at a time, and none that could reach another send.
  flight : ∀ i, (m.interrupts i).inFlight = true → (m.interrupts i).operation < m.started ∧
    (m.operations (m.interrupts i).operation).cancellationRequested = true ∧
    ((m.active = some (m.interrupts i).operation ∧ m.interrupting = some (m.interrupts i).operation) ∨ m.refuses = true)
  sole : ∀ i j, (m.interrupts i).inFlight = true → (m.interrupts j).inFlight = true →
    (m.interrupts i).operation = (m.interrupts j).operation → i = j ∨ m.refuses = true
  reaches : ∀ i op, (m.interrupts i).inFlight = true → m.active = some op → (m.interrupts i).operation = op
  awaits : ∀ i, (m.interrupts i).stage = .awaitsWrite → m.activeWrite = some (m.interrupts i).operation
  signals : ∀ i, (m.interrupts i).inFlight = true → (m.interrupts i).stage ≠ .awaitsWrite →
    m.activeWrite ≠ some (m.interrupts i).operation
  issues : ∀ i, (m.interrupts i).stage ≠ .over → i < m.issued ∧ (m.interrupts i).operation < m.started
  interrupting : ∀ op, m.interrupting = some op → m.active = some op
  -- A poll comes after the write.
  polls : ∀ op, m.polling = some op ∨ m.activeTimer = some op ∨ m.pollingReady = some op →
    op < m.started ∧ m.activeWrite ≠ some op ∧
      ((m.operations op).stage = .inspecting → (m.operations op).cancellationRequested = true)

structure Inv (m : LocalPtySession) : Prop extends Core m where
  retained : ∀ op, m.active = some op → m.finished op = true → m.closing = false →
    m.activeWrite = some op ∨ ∃ i, (m.interrupts i).inFlight = true ∧ (m.interrupts i).operation = op
  held : ∀ op, m.interrupting = some op → m.closing = false →
    ∃ i, (m.interrupts i).inFlight = true ∧ (m.interrupts i).operation = op
  cancelled : ∀ op, m.activeWrite = some op → (m.operations op).cancellationRequested = true → m.active = some op →
    ∃ i, (m.interrupts i).inFlight = true ∧ (m.interrupts i).operation = op
  fails : ∀ i, (m.interrupts i).stage = .resumes false → m.active = some (m.interrupts i).operation → m.closing = true

def Free (m : LocalPtySession) (op : OpId) : Prop :=
  m.activeWrite ≠ some op ∧ ∀ i, (m.interrupts i).inFlight = true → (m.interrupts i).operation ≠ op

/-! ## Settling -/

@[simp] theorem modify_operations (f : LocalSendOperation → LocalSendOperation) :
    (m.modify op f).operations = update m.operations op (f (m.operations op)) := rfl

@[simp] theorem settle_stage (outcome : Outcome) (other : OpId) :
    ((m.settle op outcome).operations other).stage = (m.operations other).stage := by
  by_cases hother : other = op
  · subst hother; simp [settle]
  · simp [settle, hother]

@[simp] theorem settle_cancellationRequested (outcome : Outcome) (other : OpId) :
    ((m.settle op outcome).operations other).cancellationRequested = (m.operations other).cancellationRequested := by
  by_cases hother : other = op
  · subst hother; simp [settle]
  · simp [settle, hother]

@[simp] theorem finished_settle (outcome : Outcome) (other : OpId) :
    (m.settle op outcome).finished other = (decide (other = op) || m.finished other) := by
  by_cases hother : other = op
  · subst hother; simp [settle, finished]
  · simp [settle, finished, hother]

theorem settle_of_finished (outcome : Outcome) (h : m.finished op = true) : m.settle op outcome = m := by
  obtain ⟨first, hfirst⟩ := isSome_iff_exists.mp h
  have hsame : { m.operations op with outcome := some ((m.operations op).outcome.getD outcome) } = m.operations op := by
    simp only [hfirst, getD_some]
    rw [← hfirst]
  simp [settle, modify, hsame]

/-- **The slot is given up** when nothing of its send is in flight, or no other send can take it. -/
theorem Core.release (h : Core m) (hactive : m.active = some op) (outcome : Outcome) (exited transportFailure : Bool)
    (closePromise : CloseStage) (hexited : m.exited = true → exited = true)
    (hclosing : closePromise ≠ .none → m.closing = true)
    (hfree : m.Free op ∨ exited = true ∨ m.closing = true) :
    Inv (({ m with exited, transportFailure, closePromise } : LocalPtySession).clearActive.settle op outcome) := by
  have hfinished : ∀ other, other < m.started → other ≠ op → m.finished other = true := by
    intro other hother hne
    by_contra hopen
    have := h.unsettled other hother (by simpa using hopen)
    grind
  have hidle : (if m.interrupting = some op then none else m.interrupting) = none := by
    split
    · rfl
    · cases hi : m.interrupting with
      | none => rfl
      | some other => have := h.interrupting other hi; grind
  simp only [clearActive, stopPolling, hactive, hidle]
  have hrefuses : m.refuses = true → (exited || m.closing) = true := by
    simp only [refuses, Bool.or_eq_true]
    exact Or.imp_left hexited
  -- With a write or an interrupt of the send in flight the session refuses every later one.
  have hwrite : m.activeWrite = some op → (exited || m.closing) = true := by
    intro hw
    rcases hfree with hfree | hfree | hfree
    · exact absurd hw hfree.1
    · simp [hfree]
    · simp [hfree]
  have hflight : ∀ i, (m.interrupts i).inFlight = true → (m.interrupts i).operation = op →
      (exited || m.closing) = true := by
    intro i hi ho
    rcases hfree with hfree | hfree | hfree
    · exact absurd ho (hfree.2 i hi)
    · simp [hfree]
    · simp [hfree]
  refine
    { h with
      live := nofun
      unsettled := ?_
      running := fun _ => rfl
      deadline := nofun
      closes := nofun
      closing := hclosing
      writing := fun other => by rw [settle_stage]; exact h.writing other
      written := fun other hother => ⟨(h.written other hother).1, .inr ⟨rfl, ?_⟩⟩
      flight := fun i hi => ?_
      sole := fun i j hi hj hsame => ?_
      reaches := nofun
      interrupting := nofun
      polls := fun other hother => ?_
      retained := nofun
      held := nofun
      cancelled := nofun
      fails := nofun }
  · intro other hother hopen
    simp only [finished_settle, Bool.or_eq_false_iff, decide_eq_false_iff_not] at hopen
    exact absurd (hfinished other hother hopen.1) (by simpa [finished] using hopen.2)
  · show (exited || m.closing) = true
    rcases (h.written other hother).2 with hsame | hover
    · have : other = op := by rw [hactive] at hsame; exact (some.inj hsame).symm
      exact hwrite (this ▸ hother)
    · exact hrefuses hover.2
  · obtain ⟨hstarted, hrequested, howns⟩ := h.flight i hi
    refine ⟨hstarted, by rw [settle_cancellationRequested]; exact hrequested, .inr ?_⟩
    show (exited || m.closing) = true
    rcases howns with ⟨hsame, -⟩ | hover
    · have : op = (m.interrupts i).operation := by rw [hactive] at hsame; exact some.inj hsame
      exact hflight i hi this.symm
    · exact hrefuses hover
  · exact (h.sole i j hi hj hsame).imp_right hrefuses
  · rcases hother with hother | hother | hother
    · rw [settle_stage, settle_cancellationRequested]
      exact h.polls other (.inl hother)
    · cases hother
    · cases hother

theorem Core.clearActive (h : Core m) (hactive : m.active = some op) (hfinished : m.finished op = true)
    (hfree : m.Free op ∨ m.closing = true) : Inv m.clearActive := by
  have hsettled := h.release hactive .failed m.exited m.transportFailure m.closePromise id h.closing (hfree.imp_right .inr)
  rwa [settle_of_finished] at hsettled
  simp [clearActive, finished] at hfinished ⊢
  exact hfinished

variable {P : LocalPtySession → Prop}

theorem settleActive_cases {reason : WaitReason} (hnone : m.active = none → P m)
    (hsome : ∀ op, m.active = some op → P (m.clearActive.settle op (.settled reason))) : P (m.settleActive reason) := by
  rw [settleActive]
  split
  · next hactive => exact hnone hactive
  · next op hactive => exact hsome op hactive

theorem failActive_cases (hnone : m.active = none → P m)
    (hsome : ∀ op, m.active = some op → P (m.clearActive.settle op .failed)) : P m.failActive := by
  rw [failActive]
  split
  · next hactive => exact hnone hactive
  · next op hactive => exact hsome op hactive

theorem Core.settleActive (h : Core m) (reason : WaitReason) (hsettled : m.active = none → Inv m)
    (hfree : ∀ op, m.active = some op → m.Free op ∨ m.closing = true) : Inv (m.settleActive reason) :=
  settleActive_cases hsettled fun op hactive =>
    h.release hactive _ m.exited m.transportFailure m.closePromise id h.closing ((hfree op hactive).imp_right .inr)

theorem Core.failActive (h : Core m) (hsettled : m.active = none → Inv m)
    (hfree : ∀ op, m.active = some op → m.Free op ∨ m.closing = true) : Inv m.failActive :=
  failActive_cases hsettled fun op hactive =>
    h.release hactive _ m.exited m.transportFailure m.closePromise id h.closing ((hfree op hactive).imp_right .inr)

theorem Inv.exited (h : Inv m) (hactive : m.active = none) (transportFailure : Bool) :
    Inv { m with exited := true, transportFailure } :=
  { h with
    running := fun _ => hactive
    written := fun op hop => ⟨(h.written op hop).1, .inr ⟨hactive, rfl⟩⟩
    flight := fun i hi => ⟨(h.flight i hi).1, (h.flight i hi).2.1, .inr rfl⟩
    sole := fun _ _ _ _ _ => .inr rfl }

theorem Inv.onTransportFailure (h : Inv m) : Inv m.onTransportFailure := by
  apply failActive_cases
  · intro hactive
    exact h.exited hactive true
  · intro op hactive
    exact h.release hactive _ true true m.closePromise (fun _ => rfl) h.closing (.inr (.inl rfl))

theorem onTransportFailure_spec (m : LocalPtySession) :
    m.onTransportFailure.refuses = true ∧ m.onTransportFailure.active = none ∧
      m.onTransportFailure.interrupts = m.interrupts ∧ m.onTransportFailure.activeWrite = m.activeWrite := by
  rw [onTransportFailure]
  apply failActive_cases (P := fun after => after.refuses = true ∧ after.active = none ∧
    after.interrupts = m.interrupts ∧ after.activeWrite = m.activeWrite)
  · intro hactive
    exact ⟨rfl, hactive, rfl, rfl⟩
  · intro op _
    exact ⟨rfl, rfl, rfl, rfl⟩

theorem Inv.exits (h : Inv m) : Inv m.exits := by
  rw [LocalPtySession.exits]
  split
  · exact h
  · apply settleActive_cases
    · intro hactive
      exact h.exited hactive m.transportFailure
    · intro op hactive
      exact h.release hactive _ true m.transportFailure m.closePromise (fun _ => rfl) h.closing (.inr (.inl rfl))

/-! ## Polling -/

/-- The send may be polled: its write is over, or will not come. -/
def Pollable (m : LocalPtySession) (op : OpId) : Prop :=
  op < m.started ∧ m.activeWrite ≠ some op ∧
    ((m.operations op).stage = .inspecting → (m.operations op).cancellationRequested = true)

theorem Inv.schedulePoll (h : Inv m) (hop : m.Pollable op) : Inv (m.schedulePoll op) := by
  rw [LocalPtySession.schedulePoll]
  split
  · exact h
  · refine { h with polls := ?_ }
    rintro other (hother | hother | hother)
    · exact h.polls other (.inl hother)
    · cases hother
      exact hop
    · exact h.polls other (.inr (.inr hother))

theorem Inv.pollingReady (h : Inv m) (hop : m.Pollable op) :
    Inv ({ m with pollingReady := some op }.schedulePoll op) := by
  refine Inv.schedulePoll { h with polls := ?_ } hop
  rintro other (hother | hother | hother)
  · exact h.polls other (.inl hother)
  · exact h.polls other (.inr (.inl hother))
  · cases hother
    exact hop

/-! ## Starting -/

theorem Inv.quiet (h : Inv m) (hopen : m.refuses = false) (hidle : m.active = none) :
    m.activeWrite = none ∧ m.interrupting = none ∧ ∀ i, (m.interrupts i).inFlight = false := by
  refine ⟨?_, ?_, fun i => ?_⟩
  · cases hw : m.activeWrite with
    | none => rfl
    | some op =>
      have := (h.written op hw).2
      simp [hidle, hopen] at this
  · cases hi : m.interrupting with
    | none => rfl
    | some op =>
      have := h.interrupting op hi
      simp [hidle] at this
  · by_contra hi
    have := (h.flight i (by simpa using hi)).2.2
    simp [hidle, hopen] at this

variable {input signal : Bool}

theorem startSend_spec (hstart : m.startSend input signal = some m') :
    m.refuses = false ∧ m.active = none ∧ m' = { m with
      operations := update m.operations m.started { input }
      started := m.started + 1
      active := some m.started
      activeAbort := if signal then some m.started else none
      activeDeadlineTimer := some m.started } := by
  simp only [startSend, bind_eq_bind, bind_eq_some_iff, guard_eq_some', pure_def, some.injEq] at hstart
  obtain ⟨-, hclosing, -, hexited, -, hactive, hnext⟩ := hstart
  exact ⟨by simp [refuses, hclosing, hexited], hactive, hnext.symm⟩

theorem Inv.startSend (h : Inv m) (hstart : m.startSend input signal = some m') : Inv m' := by
  obtain ⟨hopen, hidle, rfl⟩ := startSend_spec hstart
  obtain ⟨hwrite, hnone, hinterrupts⟩ := h.quiet hopen hidle
  have hclosing : m.closing = false := (Bool.or_eq_false_iff.mp hopen).2
  have hexited : m.exited = false := (Bool.or_eq_false_iff.mp hopen).1
  have hold : ∀ other, other < m.started → update m.operations m.started { input } other = m.operations other :=
    fun other hother => update_of_ne (Nat.ne_of_lt hother) ..
  refine
    { h with
      live := fun op hop => ?_
      unsettled := fun op hop hunsettled => ?_
      running := fun hexit => by simp [hexited] at hexit
      deadline := fun op hop _ _ => hop
      closes := fun op _ hclose => by simp [hclosing] at hclose
      writing := fun op => ?_
      written := fun op hop => by simp [hwrite] at hop
      flight := fun i hi => by simp [hinterrupts i] at hi
      sole := fun i _ hi => by simp [hinterrupts i] at hi
      reaches := fun i _ hi => by simp [hinterrupts i] at hi
      signals := fun i hi => by simp [hinterrupts i] at hi
      issues := fun i hi => (h.issues i hi).imp_right Nat.lt_succ_of_lt
      interrupting := fun op hop => by simp [hnone] at hop
      polls := fun op hop => ?_
      retained := fun op hop hfinished => ?_
      held := fun op hop => by simp [hnone] at hop
      cancelled := fun op hop => by simp [hwrite] at hop
      fails := fun i hi hop => ?_ }
  · cases hop
    exact Nat.lt_succ_self _
  · rcases Nat.lt_succ_iff_lt_or_eq.mp hop with hlt | rfl
    · have := h.unsettled op hlt (by simpa [finished, hold op hlt] using hunsettled)
      simp [hidle] at this
    · rfl
  · by_cases hop : op = m.started
    · subst hop
      simp [hwrite]
    · rw [← h.writing op]
      simp [hop]
  · obtain ⟨hlt, hunwritten, hrequested⟩ := h.polls op hop
    exact ⟨Nat.lt_succ_of_lt hlt, hunwritten, by simpa only [hold op hlt] using hrequested⟩
  · cases hop
    simp [finished] at hfinished
  · have hresumes : (m.interrupts i).stage = .resumes false := hi
    have hlt := (h.issues i (by rw [hresumes]; nofun)).2
    exact absurd (some.inj hop) (Nat.ne_of_gt hlt)

/-! ## Writing -/

theorem Core.opened (h : Core m) (hactive : m.active = some op) (hclosing : m.closing = false) :
    m.refuses = false := by
  rw [refuses, hclosing, Bool.or_false]
  by_contra hexited
  have := h.running (by simpa using hexited)
  simp [hactive] at this

variable {other : OpId}

theorem Core.write_eq (h : Core m) (hactive : m.active = some op)
    (hwrite : m.activeWrite = some other) : other = op := by
  rcases (h.written other hwrite).2 with hsame | ⟨hnone, -⟩
  · rw [hactive] at hsame
    exact (some.inj hsame).symm
  · simp [hactive] at hnone

theorem Core.free (h : Core m) (hactive : m.active = some op) (hclosing : m.closing = false)
    (hinterrupting : m.interrupting ≠ some op) (hwrite : m.activeWrite ≠ some op) : m.Free op := by
  refine ⟨hwrite, fun i hi hsame => ?_⟩
  rcases (h.flight i hi).2.2 with ⟨-, howner⟩ | hrefuses
  · exact hinterrupting (hsame ▸ howner)
  · simp [h.opened hactive hclosing] at hrefuses

theorem Inv.begun (h : Core m) (hrest : m.active ≠ some op ∨ m.finished op = false ∨
      (m.operations op).cancellationRequested = true ∨ m.closing = true → Inv m) (hop : op < m.started)
    (hover : (m.operations op).stage = .over) : Inv (m.begun op) := by
  have hunwritten : m.activeWrite ≠ some op := by
    rw [Ne, ← h.writing op, hover]
    nofun
  rw [LocalPtySession.begun]
  split
  · next hcancelled => exact hrest (.inr (.inr (.inl hcancelled)))
  · next hcancelled =>
    split
    · next hsettled =>
      refine h.clearActive hsettled.1 hsettled.2 (.inl ⟨hunwritten, fun i hi hsame => ?_⟩)
      -- An interrupt in flight would have been requested.
      have := (h.flight i hi).2.1
      rw [hsame] at this
      exact hcancelled this
    · next hsettled =>
      have hinv : Inv m := by
        apply hrest
        by_cases hactive : m.active = some op
        · exact .inr (.inl (by simpa [hactive] using hsettled))
        · exact .inl hactive
      split
      · exact hinv.pollingReady ⟨hop, hunwritten, fun hinspecting => by simp [hover] at hinspecting⟩
      · exact hinv

theorem update_stage (stage : BeginStage) (other : OpId) :
    (update m.operations op { m.operations op with stage } other).stage
      = if other = op then stage else (m.operations other).stage := by
  by_cases hother : other = op
  · subst hother; simp
  · simp [hother]

theorem update_cancellationRequested (stage : BeginStage) (other : OpId) :
    (update m.operations op { m.operations op with stage } other).cancellationRequested
      = (m.operations other).cancellationRequested := by
  by_cases hother : other = op
  · subst hother; simp
  · simp [hother]

theorem update_finished (stage : BeginStage) (other : OpId) :
    (update m.operations op { m.operations op with stage } other).outcome.isSome = m.finished other := by
  by_cases hother : other = op
  · subst hother; simp [finished]
  · simp [finished, hother]

theorem Inv.stageOver (h : Inv m) (hinspecting : (m.operations op).stage = .inspecting) :
    Inv (m.modify op fun operation => { operation with stage := .over }) := by
  refine
    { h with
      unsettled := fun other hother hopen => h.unsettled other hother ((update_finished ..).symm.trans hopen)
      deadline := fun other hother hopen => h.deadline other hother ((update_finished ..).symm.trans hopen)
      writing := fun other => ?_
      flight := fun i hi => ⟨(h.flight i hi).1, (update_cancellationRequested ..).trans (h.flight i hi).2.1, (h.flight i hi).2.2⟩
      polls := fun other hother => ?_
      retained := fun other hother hsettled => h.retained other hother ((update_finished ..).symm.trans hsettled)
      cancelled := fun other hother hcancelled =>
        h.cancelled other hother ((update_cancellationRequested ..).symm.trans hcancelled) }
  · show _ ↔ m.activeWrite = some other
    rw [modify_operations, update_stage, ← h.writing]
    split
    · next hother => simp [hother, hinspecting]
    · rfl
  · obtain ⟨hlt, hunwritten, hpolled⟩ := h.polls other hother
    refine ⟨hlt, hunwritten, fun hstage => (update_cancellationRequested ..).trans (hpolled ?_)⟩
    rw [modify_operations, update_stage] at hstage
    split at hstage
    · cases hstage
    · exact hstage

theorem Inv.writes (h : Inv m) (hactive : m.active = some op) (hinspecting : (m.operations op).stage = .inspecting)
    (hcancelled : (m.operations op).cancellationRequested = false) :
    Inv { m.modify op fun operation => { operation with stage := .writing } with activeWrite := some op } := by
  have hwrite : m.activeWrite = none := by
    cases hw : m.activeWrite with
    | none => rfl
    | some other =>
      have hsame := h.write_eq hactive hw
      rw [hsame, ← h.writing, hinspecting] at hw
      cases hw
  have hinterrupts : ∀ i, (m.interrupts i).inFlight = true → (m.interrupts i).operation ≠ op := by
    intro i hi hsame
    have := (h.flight i hi).2.1
    rw [hsame, hcancelled] at this
    cases this
  refine
    { h with
      unsettled := fun other hother hopen => h.unsettled other hother ((update_finished ..).symm.trans hopen)
      deadline := fun other hother hopen => h.deadline other hother ((update_finished ..).symm.trans hopen)
      writing := fun other => ?_
      written := fun other hother => ?_
      flight := fun i hi => ⟨(h.flight i hi).1, (update_cancellationRequested ..).trans (h.flight i hi).2.1, (h.flight i hi).2.2⟩
      awaits := fun i hi => ?_
      signals := fun i hi _ hsame => hinterrupts i hi (some.inj hsame).symm
      polls := fun other hother => ?_
      retained := fun other hother _ _ => .inl (hactive.symm.trans hother)
      cancelled := fun other hother hrequested => ?_ }
  · show _ ↔ some op = some other
    rw [modify_operations, update_stage]
    split
    · next hother => simp [hother]
    · next hother =>
      rw [h.writing, hwrite]
      simp [Ne.symm hother]
  · cases hother
    exact ⟨h.live _ hactive, .inl hactive⟩
  · have := h.awaits i hi
    rw [hwrite] at this
    cases this
  · obtain ⟨hlt, -, hpolled⟩ := h.polls other hother
    have hne : other ≠ op := by
      rintro rfl
      rw [hcancelled] at hpolled
      cases hpolled hinspecting
    refine ⟨hlt, fun hsame => hne (some.inj hsame).symm, fun hstage => ?_⟩
    apply (update_cancellationRequested ..).trans (hpolled _)
    rw [← hstage]
    exact ((update_stage ..).trans (if_neg hne)).symm
  · cases hother
    have := (update_cancellationRequested ..).symm.trans hrequested
    rw [hcancelled] at this
    cases this

variable {ok : Bool}

theorem Inv.inspected (h : Inv m) (hnext : m.inspected op ok = some m') : Inv m' := by
  simp only [LocalPtySession.inspected, bind_eq_bind, bind_eq_some_iff, guard_eq_some', pure_def] at hnext
  obtain ⟨-, ⟨hop, hinspecting⟩, hnext⟩ := hnext
  have hover := h.stageOver hinspecting
  have hstage : ((m.modify op fun operation => { operation with stage := .over }).operations op).stage = .over := by
    rw [modify_operations, update_stage, if_pos rfl]
  split at hnext
  · split at hnext
    · cases hnext
      exact hover
    · next howns =>
      simp only [not_or, not_not] at howns
      obtain ⟨hactive, -, -⟩ := howns
      split at hnext
      · next hwrites =>
        cases hnext
        exact h.writes hactive hinspecting (by simpa using hwrites.2)
      · cases hnext
        exact Inv.begun hover.toCore (fun _ => hover) hop hstage
  · split at hnext
    · next howns =>
      obtain ⟨hactive, hclosing, hinterrupting⟩ := howns
      cases hnext
      apply hover.failActive (fun _ => hover)
      intro active hsame
      cases hactive.symm.trans hsame
      apply Or.inl
      apply hover.free hactive (eq_false_of_ne_true hclosing) hinterrupting
      rw [Ne, ← hover.writing, hstage]
      rintro ⟨⟩
    · cases hnext
      exact hover

/-! ## The end of a write -/

/-- What the end of a write leaves to the rest of `beginSend` and to the interrupts. -/
def writeOver (m : LocalPtySession) (op : OpId) (ok : Bool) : LocalPtySession :=
  { m.modify op fun operation => { operation with stage := .over } with
    activeWrite := none
    interrupts := fun i => (m.interrupts i).written ok }

variable {i : Nat}

theorem inFlight_of_writeOver (op : OpId) (hi : ((m.writeOver op ok).interrupts i).inFlight = true) :
    (m.interrupts i).inFlight = true := by
  rw [writeOver, written_inFlight, Bool.and_eq_true] at hi
  exact hi.1

theorem Inv.writeOver (h : Inv m) (hwrite : m.activeWrite = some op) (ok : Bool) : Core (m.writeOver op ok) := by
  have hflight : ∀ i, ((m.interrupts i).written ok).inFlight = true → (m.interrupts i).inFlight = true :=
    fun _ => inFlight_of_writeOver op
  refine
    { h with
      unsettled := fun other hother hopen => h.unsettled other hother ((update_finished ..).symm.trans hopen)
      deadline := fun other hother hopen => h.deadline other hother ((update_finished ..).symm.trans hopen)
      writing := fun other => ?_
      written := nofun
      flight := fun i hi => ?_
      sole := fun i j hi hj hsame => ?_
      reaches := fun i other hi hother => (written_operation ..).trans (h.reaches i other (hflight i hi) hother)
      awaits := fun i hi => ?_
      signals := nofun
      issues := fun i hi => ?_
      polls := fun other hother => ?_ }
  · show _ ↔ none = some other
    rw [LocalPtySession.writeOver, modify_operations, update_stage]
    split
    · simp
    · next hother =>
      rw [h.writing, hwrite]
      simp [Ne.symm hother]
  · show ((m.interrupts i).written ok).operation < _ ∧ _
    rw [LocalPtySession.writeOver, written_operation]
    obtain ⟨hlt, hrequested, howns⟩ := h.flight i (hflight i hi)
    exact ⟨hlt, (update_cancellationRequested ..).trans hrequested, howns⟩
  · apply h.sole i j (hflight i hi) (hflight j hj)
    simpa only [LocalPtySession.writeOver, written_operation] using hsame
  · simp only [LocalPtySession.writeOver, written] at hi
    split at hi
    · cases hi
    · next hawaits => exact absurd hi hawaits
  · show i < m.issued ∧ ((m.interrupts i).written ok).operation < m.started
    rw [written_operation]
    apply h.issues i
    intro hover
    exact hi (by simp [LocalPtySession.writeOver, written, hover])
  · obtain ⟨hlt, -, hpolled⟩ := h.polls other hother
    refine ⟨hlt, nofun, fun hstage => (update_cancellationRequested ..).trans (hpolled ?_)⟩
    rw [LocalPtySession.writeOver, modify_operations, update_stage] at hstage
    split at hstage
    · cases hstage
    · exact hstage

/-- A send that has settled or been cancelled is left to its interrupt. -/
theorem Inv.writeSucceeded (h : Inv m) (hwrite : m.activeWrite = some op)
    (hrest : m.active ≠ some op ∨ m.finished op = false ∨ (m.operations op).cancellationRequested = true ∨
      m.closing = true) : Inv (m.writeOver op true) := by
  have hkept : ∀ other, (∃ i, (m.interrupts i).inFlight = true ∧ (m.interrupts i).operation = other) →
      ∃ i, ((m.interrupts i).written true).inFlight = true ∧ ((m.interrupts i).written true).operation = other := by
    rintro other ⟨i, hi, hother⟩
    refine ⟨i, ?_, ?_⟩
    · simp [written_inFlight, hi]
    · rw [written_operation, hother]
  refine
    { h.writeOver hwrite true with
      retained := fun other hother hsettled hclosing => .inr (hkept other ?_)
      held := fun other hother hclosing => hkept other (h.held other hother hclosing)
      cancelled := nofun
      fails := fun i hi hactive => ?_ }
  · have hfinished : m.finished other = true := (update_finished ..).symm.trans hsettled
    rcases h.retained other hother hfinished hclosing with hwrites | hinterrupt
    · cases hwrite.symm.trans hwrites
      rcases hrest with hrest | hrest | hrest | hrest
      · exact absurd hother hrest
      · simp [hfinished] at hrest
      · exact h.cancelled op hwrite hrest hother
      · have : m.closing = false := hclosing
        simp [this] at hrest
    · exact hinterrupt
  · simp only [LocalPtySession.writeOver, written] at hi hactive
    split at hi
    · cases hi
    · next hawaits =>
      rw [if_neg hawaits] at hactive
      exact h.fails i hi hactive

/-- After a write that has failed, the send is settled, and no interrupt of it signals any more. -/
theorem Inv.writeFailed (h : Inv m) (hwrite : m.activeWrite = some op)
    (hrest : m.active ≠ some op ∨ m.closing = true) : Inv (m.writeOver op false) := by
  have hopened : ∀ {other}, m.active = some other → m.closing = true := by
    intro other hactive
    by_contra hclosing
    obtain rfl := h.write_eq hactive hwrite
    rcases hrest with hrest | hrest
    · exact hrest hactive
    · exact hclosing hrest
  have hclosed : ∀ {other}, m.active = some other → m.closing = false → False := by
    intro other hactive hclosing
    simp [hopened hactive] at hclosing
  refine
    { h.writeOver hwrite false with
      retained := fun other hother _ hclosing => (hclosed hother hclosing).elim
      held := fun other hother hclosing => (hclosed (h.interrupting other hother) hclosing).elim
      cancelled := nofun
      fails := fun i _ hactive => hopened hactive }

theorem Inv.wrote (h : Inv m) (hnext : m.wrote op ok = some m') : Inv m' := by
  simp only [LocalPtySession.wrote, bind_eq_bind, bind_eq_some_iff, guard_eq_some', pure_def] at hnext
  obtain ⟨-, hwrite, hnext⟩ := hnext
  have hcore := h.writeOver hwrite ok
  have hop := (h.written op hwrite).1
  have hstage : ((m.writeOver op ok).operations op).stage = .over := by
    rw [LocalPtySession.writeOver, modify_operations, update_stage, if_pos rfl]
  split at hnext
  · next hok =>
    subst hok
    cases hnext
    refine Inv.begun hcore (fun hrest => h.writeSucceeded hwrite ?_) hop hstage
    exact hrest.imp_right (Or.imp (update_finished ..).symm.trans (Or.imp_left (update_cancellationRequested ..).symm.trans))
  · next hok =>
    obtain rfl := eq_false_of_ne_true hok
    split at hnext
    · next howns =>
      have hfree : (m.writeOver op false).Free op := by
        refine ⟨(fun h => by cases h), fun i hi hsame => ?_⟩
        simp only [LocalPtySession.writeOver, written_inFlight, written_operation, Bool.and_eq_true,
          Bool.false_or, decide_eq_true_eq] at hi hsame
        exact h.signals i hi.1 hi.2 (hsame ▸ hwrite)
      split at hnext
      · next hsettled =>
        cases hnext
        exact hcore.clearActive howns.1 ((update_finished ..).trans hsettled) (.inl hfree)
      · cases hnext
        apply hcore.failActive
        · intro hnone
          have := hnone.symm.trans howns.1
          cases this
        · intro active hactive
          cases howns.1.symm.trans hactive
          exact .inl hfree
    · next howns =>
      cases hnext
      apply h.writeFailed hwrite
      by_cases hactive : m.active = some op
      · exact .inr (by simpa [hactive] using howns)
      · exact .inl hactive

/-! ## Interrupts -/

/-- The send that an action cancels has no interrupt in flight, unless it has settled. -/
def CancelsOnce (m : LocalPtySession) (act : Act) : Prop :=
  ∀ op ∈ m.cancels act, m.finished op = true ∨ m.interrupting ≠ some op

theorem request_stage (other : OpId) :
    (update m.operations op { m.operations op with cancellationRequested := true } other).stage
      = (m.operations other).stage := by
  by_cases hother : other = op
  · subst hother; simp
  · simp [hother]

theorem request_finished (other : OpId) :
    (update m.operations op { m.operations op with cancellationRequested := true } other).outcome.isSome
      = m.finished other := by
  by_cases hother : other = op
  · subst hother; simp [finished]
  · simp [finished, hother]

theorem request_cancellationRequested (h : (m.operations other).cancellationRequested = true) :
    (update m.operations op { m.operations op with cancellationRequested := true }
      other).cancellationRequested = true := by
  by_cases hother : other = op
  · subst hother; simp
  · simpa [hother] using h

theorem forall_interrupts (m : LocalPtySession) (new : Interrupt) {P : Nat → Interrupt → Prop} (hnew : P m.issued new)
    (hothers : ∀ i, i ≠ m.issued → P i (m.interrupts i)) (i : Nat) :
    P i (update m.interrupts m.issued new i) := by
  by_cases hi : i = m.issued
  · subst hi
    rwa [update_self]
  · rw [update_of_ne hi]
    exact hothers i hi

/-- **An interrupt is issued** for a send that has none; it waits for this send's write. -/
theorem Inv.interrupt (h : Inv m) (hactive : m.active = some op) (hopen : m.finished op = false)
    (hinterrupting : m.interrupting ≠ some op) {stage : InterruptStage}
    (hstage : (stage = .awaitsWrite ∧ m.activeWrite = some op) ∨ (stage = .signals ∧ m.activeWrite ≠ some op)) :
    Inv { m.stopReadinessPolling with
      operations := update m.operations op { m.operations op with cancellationRequested := true }
      interrupting := some op
      interrupts := update m.interrupts m.issued ⟨op, stage⟩
      issued := m.issued + 1 } := by
  have hold : ∀ i, (m.interrupts i).inFlight = true → m.refuses = true := by
    intro i hi
    rcases (h.flight i hi).2.2 with ⟨hsame, howner⟩ | hrefuses
    · exact absurd ((howner.trans hsame.symm).trans hactive) hinterrupting
    · exact hrefuses
  have hflying : (⟨op, stage⟩ : Interrupt).inFlight = true := by rcases hstage with ⟨rfl, -⟩ | ⟨rfl, -⟩ <;> rfl
  have hexists : ∃ i, (update m.interrupts m.issued ⟨op, stage⟩ i).inFlight = true ∧
      (update m.interrupts m.issued ⟨op, stage⟩ i).operation = op :=
    ⟨m.issued, by rw [update_self]; exact hflying, by rw [update_self]⟩
  have hflight := forall_interrupts m ⟨op, stage⟩ (P := fun _ interrupt =>
    interrupt.inFlight = true → interrupt.operation < m.started ∧
      (update m.operations op { m.operations op with cancellationRequested := true }
        interrupt.operation).cancellationRequested = true ∧
      ((m.active = some interrupt.operation ∧ some op = some interrupt.operation) ∨ m.refuses = true))
    (fun _ => ⟨h.live op hactive, by simp, .inl ⟨hactive, rfl⟩⟩)
    fun i _ hi => ⟨(h.flight i hi).1, request_cancellationRequested (h.flight i hi).2.1, .inr (hold i hi)⟩
  have hsole : ∀ i j, (update m.interrupts m.issued ⟨op, stage⟩ i).inFlight = true →
      (update m.interrupts m.issued ⟨op, stage⟩ j).inFlight = true →
      (update m.interrupts m.issued ⟨op, stage⟩ i).operation
        = (update m.interrupts m.issued ⟨op, stage⟩ j).operation → i = j ∨ m.refuses = true := by
    intro i j hi hj _
    by_cases hij : i = j
    · exact .inl hij
    · apply Or.inr
      by_cases hnew : i = m.issued
      · rw [update_of_ne (hnew ▸ Ne.symm hij)] at hj
        exact hold j hj
      · rw [update_of_ne hnew] at hi
        exact hold i hi
  have hreaches := forall_interrupts m ⟨op, stage⟩ (P := fun _ interrupt =>
    ∀ other, interrupt.inFlight = true → m.active = some other → interrupt.operation = other)
    (fun other _ hother => some.inj (hactive.symm.trans hother)) fun i _ other => h.reaches i other
  have hawaits := forall_interrupts m ⟨op, stage⟩ (P := fun _ interrupt =>
    interrupt.stage = .awaitsWrite → m.activeWrite = some interrupt.operation)
    (fun hawaits => hstage.elim (fun hwrite => hwrite.2) fun hsignals => absurd (hsignals.1.symm.trans hawaits) nofun)
    fun i _ => h.awaits i
  have hsignals := forall_interrupts m ⟨op, stage⟩ (P := fun _ interrupt =>
    interrupt.inFlight = true → interrupt.stage ≠ .awaitsWrite → m.activeWrite ≠ some interrupt.operation)
    (fun _ hsignals => hstage.elim (fun hawaits => absurd hawaits.1 hsignals) fun hwrite => hwrite.2)
    fun i _ => h.signals i
  have hissues := forall_interrupts m ⟨op, stage⟩ (P := fun i interrupt =>
    interrupt.stage ≠ .over → i < m.issued + 1 ∧ interrupt.operation < m.started)
    (fun _ => ⟨Nat.lt_succ_self _, h.live op hactive⟩)
    fun i _ hi => (h.issues i hi).imp_left Nat.lt_succ_of_lt
  have hfails := forall_interrupts m ⟨op, stage⟩ (P := fun _ interrupt =>
    interrupt.stage = .resumes false → m.active = some interrupt.operation → m.closing = true)
    (fun hfails => hstage.elim (fun hawaits => absurd (hawaits.1.symm.trans hfails) nofun)
      fun hsignals => absurd (hsignals.1.symm.trans hfails) nofun)
    fun i _ => h.fails i
  refine
    { h with
      unsettled := fun other hother hsettled => h.unsettled other hother ((request_finished ..).symm.trans hsettled)
      deadline := fun other hother hsettled => h.deadline other hother ((request_finished ..).symm.trans hsettled)
      writing := fun other => by rw [request_stage]; exact h.writing other
      flight := hflight
      sole := hsole
      reaches := hreaches
      awaits := hawaits
      signals := hsignals
      issues := hissues
      interrupting := fun other hother => (some.inj hother) ▸ hactive
      polls := fun other hother => ?_
      retained := fun other hother hsettled => ?_
      held := fun other hother _ => (some.inj hother) ▸ hexists
      cancelled := fun other hwrite _ hother => (some.inj (hactive.symm.trans hother)) ▸ hexists
      fails := hfails }
  · have hpolling : m.polling = some other := by simpa [stopReadinessPolling] using hother
    obtain ⟨hlt, hunwritten, hpolled⟩ := h.polls other (.inl hpolling)
    exact ⟨hlt, hunwritten, fun hinspecting =>
      request_cancellationRequested (hpolled ((request_stage ..).symm.trans hinspecting))⟩
  · cases hactive.symm.trans hother
    have := (request_finished ..).symm.trans hsettled
    simp [hopen] at this

instance : Decidable (m.CancelsOnce act) :=
  match h : m.cancels act with
  | none => isTrue (by simp [CancelsOnce, h])
  | some op => decidable_of_iff (m.finished op = true ∨ m.interrupting ≠ some op) (by simp [CancelsOnce, h])

theorem Inv.cancel (h : Inv m) (honce : m.finished op = true ∨ m.interrupting ≠ some op)
    (hnext : m.cancel op = some m') : Inv m' := by
  simp only [LocalPtySession.cancel, bind_eq_bind, bind_eq_some_iff, guard_eq_some', pure_def] at hnext
  obtain ⟨-, hop, hnext⟩ := hnext
  split at hnext
  · cases hnext
    exact h
  · next hfinished =>
    cases hnext
    have hopen := eq_false_of_ne_true hfinished
    have hactive := h.unsettled op hop hopen
    rw [LocalPtySession.interrupt, if_neg (show ¬ (m.modify op _).active ≠ some op from not_not_intro hactive)]
    apply h.interrupt hactive hopen (honce.resolve_left hfinished)
    cases hwrite : m.activeWrite with
    | none => exact .inr ⟨by simp [modify, hwrite], fun h => by cases h⟩
    | some other =>
      obtain rfl := h.write_eq hactive hwrite
      exact .inl ⟨by simp [modify, hwrite], rfl⟩

theorem Inv.abort (h : Inv m) (honce : m.CancelsOnce .abort) (hnext : m.abort = some m') : Inv m' := by
  obtain ⟨op, habort, hnext⟩ := bind_eq_some_iff.mp hnext
  exact Inv.cancel (m := { m with activeAbort := none }) { h with } (honce op habort) hnext

theorem restage_operation (i : Nat) (stage : InterruptStage) (j : Nat) :
    (update m.interrupts i { m.interrupts i with stage } j).operation = (m.interrupts j).operation := by
  by_cases hj : j = i
  · subst hj; simp
  · simp [hj]

theorem restage_inFlight (i : Nat) (stage : InterruptStage) (j : Nat) :
    (update m.interrupts i { m.interrupts i with stage } j).inFlight
      = if j = i then (⟨(m.interrupts i).operation, stage⟩ : Interrupt).inFlight else (m.interrupts j).inFlight := by
  by_cases hj : j = i
  · subst hj; simp
  · simp [hj]

theorem restage_stage (i : Nat) (stage : InterruptStage) (j : Nat) :
    (update m.interrupts i { m.interrupts i with stage } j).stage
      = if j = i then stage else (m.interrupts j).stage := by
  by_cases hj : j = i
  · subst hj; simp
  · simp [hj]

theorem Inv.signalling (h : Inv m) (hstage : (m.interrupts i).stage = .resumes true) :
    Inv { m with interrupts := update m.interrupts i { m.interrupts i with stage := .signals } } := by
  have hinFlight : ∀ j, (update m.interrupts i { m.interrupts i with stage := .signals } j).inFlight
      = (m.interrupts j).inFlight := by
    intro j
    rw [restage_inFlight]
    split
    · next hj => simp [hj, inFlight, hstage]
    · rfl
  have hkept : ∀ op, (∃ j, (m.interrupts j).inFlight = true ∧ (m.interrupts j).operation = op) →
      ∃ j, (update m.interrupts i { m.interrupts i with stage := .signals } j).inFlight = true ∧
        (update m.interrupts i { m.interrupts i with stage := .signals } j).operation = op := by
    rintro op ⟨j, hj, hop⟩
    exact ⟨j, (hinFlight j).trans hj, (restage_operation ..).trans hop⟩
  refine
    { h with
      flight := fun j hj => by
        simp only [restage_operation]
        exact h.flight j ((hinFlight j).symm.trans hj)
      sole := fun j k hj hk hsame => ?_
      reaches := fun j op hj hop => (restage_operation ..).trans (h.reaches j op ((hinFlight j).symm.trans hj) hop)
      awaits := fun j hj => ?_
      signals := fun j hj hsignals => ?_
      issues := fun j hj => ?_
      retained := fun op hop hsettled hclosing => (h.retained op hop hsettled hclosing).imp_right (hkept op)
      held := fun op hop hclosing => hkept op (h.held op hop hclosing)
      cancelled := fun op hop hrequested hactive => hkept op (h.cancelled op hop hrequested hactive)
      fails := fun j hj => ?_ }
  · simp only [restage_operation] at hsame
    exact h.sole j k ((hinFlight j).symm.trans hj) ((hinFlight k).symm.trans hk) hsame
  · simp only [restage_stage, restage_operation] at hj ⊢
    split at hj
    · cases hj
    · exact h.awaits j hj
  · simp only [restage_operation]
    apply h.signals j ((hinFlight j).symm.trans hj)
    intro hawaits
    apply hsignals
    rw [restage_stage]
    split
    · next hsame => simp [hsame, hstage] at hawaits
    · exact hawaits
  · simp only [restage_stage, restage_operation] at hj ⊢
    split at hj
    · next hsame => exact h.issues j (by rw [hsame, hstage]; nofun)
    · exact h.issues j hj
  · simp only [restage_stage, restage_operation] at hj ⊢
    split at hj
    · cases hj
    · exact h.fails j hj

/-- The `finally` of an interrupt, the only one of its send unless the session refuses sends. -/
theorem Core.interrupted (h : Core m)
    (hsole : ∀ j, j ≠ i → (m.interrupts j).inFlight = true → (m.interrupts j).operation = (m.interrupts i).operation →
      m.refuses = true) : Core (m.interrupted i) := by
  have hothers : ∀ j, (update m.interrupts i { m.interrupts i with stage := .over } j).inFlight = true →
      j ≠ i ∧ (m.interrupts j).inFlight = true := by
    intro j hj
    rw [restage_inFlight] at hj
    split at hj
    · cases hj
    · next hne => exact ⟨hne, hj⟩
  have hstages : ∀ j stage, stage ≠ .over →
      (update m.interrupts i { m.interrupts i with stage := .over } j).stage = stage →
      (m.interrupts j).stage = stage := by
    intro j stage hover hj
    rw [restage_stage] at hj
    split at hj
    · exact absurd hj.symm hover
    · exact hj
  refine
    { h with
      flight := fun j hj => ?_
      sole := fun j k hj hk hsame => ?_
      reaches := fun j op hj hop => (restage_operation ..).trans (h.reaches j op (hothers j hj).2 hop)
      awaits := fun j hj => ?_
      signals := fun j hj hsignals => ?_
      issues := fun j hj => ?_
      interrupting := fun op hop => ?_ }
  · obtain ⟨hne, hj⟩ := hothers j hj
    obtain ⟨hlt, hrequested, howns⟩ := h.flight j hj
    simp only [LocalPtySession.interrupted, restage_operation]
    refine ⟨hlt, hrequested, ?_⟩
    rcases howns with ⟨hactive, howner⟩ | hrefuses
    · by_cases hsame : (m.interrupts j).operation = (m.interrupts i).operation
      · exact .inr (hsole j hne hj hsame)
      · refine .inl ⟨hactive, ?_⟩
        rw [howner, if_neg (fun hsome => hsame (some.inj hsome))]
    · exact .inr hrefuses
  · simp only [LocalPtySession.interrupted, restage_operation] at hsame
    exact h.sole j k (hothers j hj).2 (hothers k hk).2 hsame
  · simp only [LocalPtySession.interrupted, restage_operation] at hj ⊢
    exact h.awaits j (hstages j _ nofun hj)
  · simp only [LocalPtySession.interrupted, restage_operation] at hj hsignals ⊢
    obtain ⟨hne, hj⟩ := hothers j hj
    rw [restage_stage, if_neg hne] at hsignals
    exact h.signals j hj hsignals
  · simp only [LocalPtySession.interrupted, restage_operation] at hj ⊢
    apply h.issues j
    intro hover
    apply hj
    rw [restage_stage]
    split
    · rfl
    · exact hover
  · simp only [LocalPtySession.interrupted] at hop
    split at hop
    · cases hop
    · exact h.interrupting op hop

theorem Inv.interrupted (h : Inv m)
    (hsole : ∀ j, j ≠ i → (m.interrupts j).inFlight = true → (m.interrupts j).operation = (m.interrupts i).operation →
      m.refuses = true)
    (hover : (m.interrupts i).inFlight = true → m.activeWrite ≠ some (m.interrupts i).operation ∧
      (m.active = some (m.interrupts i).operation → m.finished (m.interrupts i).operation = true → m.closing = true)) :
    Inv (m.interrupted i) := by
  -- Another send, or another interrupt, is not concerned.
  have hkept : ∀ j op, (m.interrupts j).inFlight = true → (m.interrupts j).operation = op →
      (j = i → False) → ∃ j, ((m.interrupted i).interrupts j).inFlight = true ∧ ((m.interrupted i).interrupts j).operation = op := by
    intro j op hj hop hne
    refine ⟨j, ?_, (restage_operation ..).trans hop⟩
    rw [LocalPtySession.interrupted, restage_inFlight, if_neg hne]
    exact hj
  refine
    { h.toCore.interrupted hsole with
      retained := fun op hop hsettled hclosing => ?_
      held := fun op hop hclosing => ?_
      cancelled := fun op hop hrequested hactive => ?_
      fails := fun j hj => ?_ }
  · rcases h.retained op hop hsettled hclosing with hwrite | ⟨j, hj, hjop⟩
    · exact .inl hwrite
    · refine .inr (hkept j op hj hjop fun hsame => ?_)
      subst hsame hjop
      have hopen : m.closing = false := hclosing
      simp [(hover hj).2 hop hsettled] at hopen
  · simp only [LocalPtySession.interrupted] at hop
    split at hop
    · cases hop
    · next hother =>
      obtain ⟨j, hj, hjop⟩ := h.held op hop hclosing
      refine hkept j op hj hjop fun hsame => ?_
      subst hsame hjop
      exact hother hop
  · obtain ⟨j, hj, hjop⟩ := h.cancelled op hop hrequested hactive
    refine hkept j op hj hjop fun hsame => ?_
    subst hsame hjop
    exact (hover hj).1 hop
  · simp only [LocalPtySession.interrupted, restage_stage, restage_operation] at hj ⊢
    split at hj
    · cases hj
    · exact h.fails j hj

theorem Inv.resumes (h : Inv m) (hnext : m.resumes i = some m') : Inv m' := by
  rw [LocalPtySession.resumes] at hnext
  split at hnext
  · next hstage =>
    cases hnext
    exact h.signalling hstage
  · next hstage =>
    cases hnext
    refine h.interrupted (fun j _ hj hsame => ?_) fun hflying => by simp [inFlight, hstage] at hflying
    rcases (h.flight j hj).2.2 with ⟨hactive, -⟩ | hrefuses
    · rw [refuses, h.fails i hstage (hsame ▸ hactive), Bool.or_true]
    · exact hrefuses
  · cases hnext

theorem Inv.signalled (h : Inv m) (hnext : m.signalled i ok = some m') : Inv m' := by
  simp only [LocalPtySession.signalled, bind_eq_bind, bind_eq_some_iff, guard_eq_some', pure_def] at hnext
  obtain ⟨-, hstage, hnext⟩ := hnext
  have hflying : (m.interrupts i).inFlight = true := by simp [inFlight, hstage]
  have hunwritten := h.signals i hflying (by simp [hstage])
  have hsole : ∀ j, j ≠ i → (m.interrupts j).inFlight = true →
      (m.interrupts j).operation = (m.interrupts i).operation → m.refuses = true :=
    fun j hne hj hsame => (h.sole j i hj hflying hsame).resolve_left hne
  split at hnext
  · split at hnext
    · next hsettled =>
      cases hnext
      refine (h.toCore.interrupted hsole).clearActive hsettled.1 hsettled.2 ?_
      by_cases hclosing : m.closing = true
      · exact .inr hclosing
      · refine .inl ⟨hunwritten, fun j hj hsame => ?_⟩
        rw [LocalPtySession.interrupted, restage_inFlight] at hj
        split at hj
        · cases hj
        · next hne =>
          have := hsole j hne hj ((restage_operation ..).symm.trans hsame)
          rw [h.opened hsettled.1 (by simpa using hclosing)] at this
          cases this
    · next hsettled =>
      have hinv := h.interrupted hsole fun _ => ⟨hunwritten, fun hactive hfinished => absurd ⟨hactive, hfinished⟩ hsettled⟩
      split at hnext
      · cases hnext
        exact hinv.pollingReady ⟨(h.flight i hflying).1, hunwritten, fun _ => (h.flight i hflying).2.1⟩
      · cases hnext
        exact hinv
  · split at hnext
    · cases hnext
      obtain ⟨hrefuses, hactive, hinterrupts, hwrite⟩ := onTransportFailure_spec m
      apply Inv.interrupted h.onTransportFailure
      · intro _ _ _ _
        exact hrefuses
      · rw [hinterrupts, hwrite, hactive]
        exact fun _ => ⟨hunwritten, fun h => by cases h⟩
    · next howns =>
      cases hnext
      refine h.interrupted hsole fun _ => ⟨hunwritten, fun hactive _ => ?_⟩
      simpa [hactive] using howns

/-! ## Deadlines, polls and closing -/

/-- **The slot is kept** for a write or an interrupt when the deadline passes. -/
theorem Inv.retains (h : Inv m) (hactive : m.active = some op)
    (hretain : (m.activeWrite.isSome || decide (m.interrupting = some op)) = true) :
    Inv (m.settleActive .timeout true) := by
  have hkept : m.settleActive .timeout true
      = ({ m.stopPolling with activeAbort := none } : LocalPtySession).settle op (.settled .timeout) := by
    rw [LocalPtySession.settleActive]
    split
    · next hnone => simp [hactive] at hnone
    · next active hsame =>
      cases hactive.symm.trans hsame
      rfl
  rw [hkept]
  refine
    { h with
      unsettled := fun other hother hopen => ?_
      deadline := fun other hother hopen _ => ?_
      writing := fun other => by rw [settle_stage]; exact h.writing other
      flight := fun i hi => ⟨(h.flight i hi).1, (settle_cancellationRequested ..).trans (h.flight i hi).2.1, (h.flight i hi).2.2⟩
      polls := fun other hother => ?_
      retained := fun other hother _ hclosing => ?_
      cancelled := fun other hother hrequested =>
        h.cancelled other hother ((settle_cancellationRequested ..).symm.trans hrequested) }
  · simp only [finished_settle, Bool.or_eq_false_iff] at hopen
    exact h.unsettled other hother hopen.2
  · cases hactive.symm.trans hother
    simp [finished_settle] at hopen
  · rcases hother with hother | hother | hother
    · rw [settle_stage, settle_cancellationRequested]
      exact h.polls other (.inl hother)
    · cases hother
    · cases hother
  · cases hactive.symm.trans hother
    simp only [Bool.or_eq_true, decide_eq_true_eq, isSome_iff_exists] at hretain
    rcases hretain with ⟨writer, hwrite⟩ | hinterrupting
    · obtain rfl := h.write_eq hactive hwrite
      exact .inl hwrite
    · exact .inr (h.held op hinterrupting hclosing)

theorem Inv.deadlinePasses (h : Inv m) (hnext : m.deadline = some m') : Inv m' := by
  obtain ⟨op, htimer, hnext⟩ := bind_eq_some_iff.mp hnext
  split at hnext
  · next hactive =>
    cases hnext
    by_cases hretain : (m.activeWrite.isSome || decide (m.interrupting = some op)) = true
    · rw [hretain]
      exact h.retains hactive hretain
    · rw [eq_false_of_ne_true hretain]
      simp only [Bool.or_eq_true, decide_eq_true_eq, not_or] at hretain
      obtain ⟨hunwritten, hinterrupting⟩ := hretain
      apply h.toCore.settleActive .timeout (fun _ => h)
      intro other hother
      cases hactive.symm.trans hother
      by_cases hclosing : m.closing = true
      · exact .inr hclosing
      · refine .inl (h.free hactive (eq_false_of_ne_true hclosing) hinterrupting fun hwrite => ?_)
        simp [hwrite] at hunwritten
  · next hactive =>
    cases hnext
    refine { h with deadline := fun other hother hopen hclosing => ?_ }
    have := h.deadline other hother hopen hclosing
    rw [htimer] at this
    exact absurd (hother.trans this.symm) hactive

theorem Inv.pollsBegin (h : Inv m) (hnext : m.polls = some m') : Inv m' := by
  obtain ⟨op, htimer, hnext⟩ := bind_eq_some_iff.mp hnext
  have hspent : Inv { m with activeTimer := none } := by
    refine { h with polls := fun other hother => h.polls other ?_ }
    rcases hother with hother | hother | hother
    · exact .inl hother
    · cases hother
    · exact .inr (.inr hother)
  simp only at hnext
  split at hnext
  · cases hnext
    exact hspent
  · next howns =>
    simp only [not_or, not_not] at howns
    split at hnext
    · next hexited =>
      have := (h.running hexited).symm.trans howns.1
      cases this
    · cases hnext
      refine { hspent with polls := fun other hother => ?_ }
      rcases hother with hother | hother | hother
      · cases hother
        exact h.polls op (.inr (.inl htimer))
      · cases hother
      · exact h.polls other (.inr (.inr hother))

theorem Inv.pollOver (h : Inv m) : Inv { m with polling := none } := by
  refine { h with polls := fun other hother => h.polls other ?_ }
  rcases hother with hother | hother
  · cases hother
  · exact .inr hother

variable {verdict : Option (Option WaitReason)}

theorem Inv.judged (h : Inv m) (hunwritten : m.activeWrite ≠ some op) : Inv (m.judged op verdict) := by
  unfold LocalPtySession.judged
  split
  · exact h
  · next howns =>
    simp only [not_or, not_not] at howns
    obtain ⟨hactive, hclosing, hinterrupting⟩ := howns
    have hfree : ∀ other, m.active = some other → m.Free other ∨ m.closing = true := by
      intro other hother
      cases hactive.symm.trans hother
      exact .inl (h.free hactive (eq_false_of_ne_true hclosing) hinterrupting hunwritten)
    match verdict with
    | none => exact h.toCore.failActive (fun _ => h) hfree
    | some none => exact h
    | some (some reason) => exact h.toCore.settleActive reason (fun _ => h) hfree

theorem Inv.polled (h : Inv m) (hnext : m.polled verdict = some m') : Inv m' := by
  obtain ⟨op, hpolling, hnext⟩ := bind_eq_some_iff.mp hnext
  have hjudged : Inv (m.judged op verdict) := h.judged (h.polls op (.inl hpolling)).2.1
  have hover := hjudged.pollOver
  simp only at hnext
  split at hnext
  · cases hnext
    exact hover
  · next active hactive =>
    split at hnext
    · next hready =>
      cases hnext
      exact hover.schedulePoll (hover.polls active (.inr (.inr hready)))
    · cases hnext
      exact hover

theorem Inv.close (h : Inv m) : Inv m.close := by
  have hrefuses : (m.exited || true) = true := Bool.or_true _
  rw [LocalPtySession.close]
  split
  · refine
      { h with
        polls := fun op hop => ?_
        deadline := fun _ _ _ hopen => by cases hopen
        closes := fun _ _ _ => rfl
        closing := fun _ => rfl
        written := fun op hop => ⟨(h.written op hop).1, (h.written op hop).2.imp_right fun hnone => ⟨hnone.1, hrefuses⟩⟩
        flight := fun i hi => ⟨(h.flight i hi).1, (h.flight i hi).2.1, .inr hrefuses⟩
        sole := fun _ _ _ _ _ => .inr hrefuses
        retained := fun _ _ _ hopen => by cases hopen
        held := fun _ _ hopen => by cases hopen
        fails := fun _ _ _ => rfl }
    rcases hop with hop | hop | hop
    · exact h.polls op (.inl hop)
    · cases hop
    · cases hop
  · next hpromise =>
    have hclosing := h.closing hpromise
    have hsame : ({ m with closing := true } : LocalPtySession) = m := by rw [← hclosing]
    rwa [hsame]

theorem Inv.closeFails (h : Inv m) (hclosing : m.closing = true) :
    Inv ({ m with closePromise := .none } : LocalPtySession).failActive := by
  apply failActive_cases
  · intro hactive
    exact { h with
      closes := fun op hop => by rw [show m.active = some op from hop] at hactive; cases hactive
      closing := fun hpromise => absurd rfl hpromise }
  · intro op hactive
    exact h.release hactive _ m.exited m.transportFailure .none id (fun hpromise => absurd rfl hpromise)
      (.inr (.inr hclosing))

theorem Inv.terminated (h : Inv m) (hnext : m.terminated ok = some m') : Inv m' := by
  simp only [LocalPtySession.terminated, bind_eq_bind, bind_eq_some_iff, guard_eq_some', pure_def] at hnext
  obtain ⟨-, hpromise, hnext⟩ := hnext
  have hclosing : m.closing = true := h.closing (by rw [hpromise]; rintro ⟨⟩)
  split at hnext
  · cases hnext
    apply settleActive_cases
    · intro hactive
      exact { h with
        closes := fun op hop => by rw [show m.active = some op from hop] at hactive; cases hactive
        closing := fun _ => hclosing }
    · intro op hactive
      exact h.release hactive _ m.exited m.transportFailure .terminated id (fun _ => hclosing) (.inr (.inr hclosing))
  · cases hnext
    exact h.closeFails hclosing

/-! ## Outcomes -/

structure Keeps (m m' : LocalPtySession) : Prop where
  started : m.started ≤ m'.started
  outcome : ∀ op outcome, op < m.started → (m.operations op).outcome = some outcome →
    (m'.operations op).outcome = some outcome

theorem Keeps.of_eq (hoperations : m'.operations = m.operations) (hstarted : m'.started = m.started) : Keeps m m' where
  started := Nat.le_of_eq hstarted.symm
  outcome op outcome _ h := by rw [hoperations, h]

theorem Keeps.trans {mid : LocalPtySession} (h : Keeps m mid) (h' : Keeps mid m') : Keeps m m' where
  started := Nat.le_trans h.started h'.started
  outcome op outcome hop hsettled :=
    h'.outcome op outcome (Nat.lt_of_lt_of_le hop h.started) (h.outcome op outcome hop hsettled)

theorem Keeps.modify {f : LocalSendOperation → LocalSendOperation}
    (hf : ∀ outcome, (m.operations op).outcome = some outcome → (f (m.operations op)).outcome = some outcome) :
    Keeps m (m.modify op f) where
  started := Nat.le_refl _
  outcome other outcome _ h := by
    rw [modify_operations]
    by_cases hother : other = op
    · subst hother
      rw [update_self]
      exact hf outcome h
    · rwa [update_of_ne hother]

theorem Keeps.settle (outcome : Outcome) : Keeps m (m.settle op outcome) :=
  Keeps.modify fun first hfirst => by simp [hfirst]

theorem Keeps.congr {before : LocalPtySession} (h : Keeps before m') (hoperations : before.operations = m.operations)
    (hstarted : before.started = m.started) : Keeps m m' :=
  .trans (.of_eq hoperations hstarted) h

theorem Keeps.settleActive (reason : WaitReason) (retain : Bool) : Keeps m (m.settleActive reason retain) := by
  unfold LocalPtySession.settleActive
  split
  · exact .of_eq rfl rfl
  · split
    · exact (Keeps.settle _).congr rfl rfl
    · exact (Keeps.settle _).congr rfl rfl

theorem Keeps.failActive : Keeps m m.failActive := by
  rw [LocalPtySession.failActive]
  split
  · exact .of_eq rfl rfl
  · exact (Keeps.settle _).congr rfl rfl

theorem Keeps.schedulePoll : Keeps m (m.schedulePoll op) := by
  rw [LocalPtySession.schedulePoll]
  split
  · exact .of_eq rfl rfl
  · exact .of_eq rfl rfl

theorem Keeps.begun : Keeps m (m.begun op) := by
  rw [LocalPtySession.begun]
  split
  · exact .of_eq rfl rfl
  · split
    · exact .of_eq rfl rfl
    · split
      · exact Keeps.schedulePoll.congr rfl rfl
      · exact .of_eq rfl rfl

theorem Keeps.inspected (hnext : m.inspected op ok = some m') : Keeps m m' := by
  simp only [LocalPtySession.inspected, bind_eq_bind, bind_eq_some_iff, guard_eq_some', pure_def] at hnext
  obtain ⟨-, -, hnext⟩ := hnext
  have hover : Keeps m (m.modify op fun operation => { operation with stage := .over }) := .modify fun _ h => h
  split at hnext
  · split at hnext
    · cases hnext
      exact hover
    · split at hnext
      · cases hnext
        have hwriting : Keeps m (m.modify op fun operation => { operation with stage := .writing }) := .modify fun _ h => h
        exact hwriting.trans (.of_eq rfl rfl)
      · cases hnext
        exact hover.trans .begun
  · split at hnext
    · cases hnext
      exact hover.trans .failActive
    · cases hnext
      exact hover

theorem Keeps.wrote (hnext : m.wrote op ok = some m') : Keeps m m' := by
  simp only [LocalPtySession.wrote, bind_eq_bind, bind_eq_some_iff, guard_eq_some', pure_def] at hnext
  obtain ⟨-, -, hnext⟩ := hnext
  have hover : Keeps m (m.writeOver op ok) :=
    .trans (Keeps.modify (f := fun operation => { operation with stage := .over }) fun _ h => h) (.of_eq rfl rfl)
  split at hnext
  · cases hnext
    exact hover.trans .begun
  · split at hnext
    · split at hnext
      · cases hnext
        exact hover.trans (.of_eq rfl rfl)
      · cases hnext
        exact hover.trans .failActive
    · cases hnext
      exact hover

theorem Keeps.cancel (hnext : m.cancel op = some m') : Keeps m m' := by
  simp only [LocalPtySession.cancel, bind_eq_bind, bind_eq_some_iff, guard_eq_some', pure_def] at hnext
  obtain ⟨-, -, hnext⟩ := hnext
  split at hnext
  · cases hnext
    exact .of_eq rfl rfl
  · cases hnext
    have hrequested : Keeps m (m.modify op fun operation => { operation with cancellationRequested := true }) :=
      .modify fun _ h => h
    rw [LocalPtySession.interrupt]
    split
    · exact hrequested
    · exact hrequested.trans (.of_eq rfl rfl)

theorem Keeps.resumes (hnext : m.resumes i = some m') : Keeps m m' := by
  rw [LocalPtySession.resumes] at hnext
  split at hnext
  · cases hnext
    exact .of_eq rfl rfl
  · cases hnext
    exact .of_eq rfl rfl
  · cases hnext

theorem Keeps.onTransportFailure : Keeps m m.onTransportFailure := Keeps.failActive.congr rfl rfl

theorem Keeps.signalled (hnext : m.signalled i ok = some m') : Keeps m m' := by
  simp only [LocalPtySession.signalled, bind_eq_bind, bind_eq_some_iff, guard_eq_some', pure_def] at hnext
  obtain ⟨-, -, hnext⟩ := hnext
  split at hnext
  · split at hnext
    · cases hnext
      exact .of_eq rfl rfl
    · split at hnext
      · cases hnext
        exact Keeps.schedulePoll.congr rfl rfl
      · cases hnext
        exact .of_eq rfl rfl
  · split at hnext
    · cases hnext
      exact Keeps.onTransportFailure.trans (.of_eq rfl rfl)
    · cases hnext
      exact .of_eq rfl rfl

theorem Keeps.deadline (hnext : m.deadline = some m') : Keeps m m' := by
  obtain ⟨op, -, hnext⟩ := bind_eq_some_iff.mp hnext
  split at hnext
  · cases hnext
    exact .settleActive _ _
  · cases hnext
    exact .of_eq rfl rfl

theorem Keeps.polls (hnext : m.polls = some m') : Keeps m m' := by
  obtain ⟨op, -, hnext⟩ := bind_eq_some_iff.mp hnext
  simp only at hnext
  split at hnext
  · cases hnext
    exact .of_eq rfl rfl
  · split at hnext
    · cases hnext
      exact (Keeps.settleActive _ _).congr rfl rfl
    · cases hnext
      exact .of_eq rfl rfl

theorem Keeps.judged : Keeps m (m.judged op verdict) := by
  unfold LocalPtySession.judged
  split
  · exact .of_eq rfl rfl
  · match verdict with
    | none => exact .failActive
    | some none => exact .of_eq rfl rfl
    | some (some reason) => exact .settleActive reason _

theorem Keeps.polled (hnext : m.polled verdict = some m') : Keeps m m' := by
  obtain ⟨op, -, hnext⟩ := bind_eq_some_iff.mp hnext
  have hjudged : Keeps m { m.judged op verdict with polling := none } := Keeps.judged.trans (.of_eq rfl rfl)
  simp only at hnext
  split at hnext
  · cases hnext
    exact hjudged
  · split at hnext
    · cases hnext
      exact hjudged.trans .schedulePoll
    · cases hnext
      exact hjudged

theorem Keeps.exits : Keeps m m.exits := by
  rw [LocalPtySession.exits]
  split
  · exact .of_eq rfl rfl
  · exact (Keeps.settleActive _ _).congr rfl rfl

theorem Keeps.close : Keeps m m.close := by
  rw [LocalPtySession.close]
  split
  · exact .of_eq rfl rfl
  · exact .of_eq rfl rfl

theorem Keeps.terminated (hnext : m.terminated ok = some m') : Keeps m m' := by
  simp only [LocalPtySession.terminated, bind_eq_bind, bind_eq_some_iff, guard_eq_some', pure_def] at hnext
  obtain ⟨-, -, hnext⟩ := hnext
  split at hnext
  · cases hnext
    exact (Keeps.settleActive _ _).congr rfl rfl
  · cases hnext
    exact Keeps.failActive.congr rfl rfl

theorem Keeps.startSend (hnext : m.startSend input signal = some m') : Keeps m m' := by
  obtain ⟨-, -, rfl⟩ := startSend_spec hnext
  refine ⟨Nat.le_succ _, fun op outcome hop h => ?_⟩
  have hold : update m.operations m.started { input } op = m.operations op := update_of_ne (Nat.ne_of_lt hop) ..
  exact (congrArg _ hold).trans h

/-- **No action settles a send a second time**, or forgets that it has settled. -/
theorem Keeps.step (hnext : m.step act = some m') : Keeps m m' := by
  cases act with
  | startSend input signal => exact .startSend hnext
  | inspected op ok => exact .inspected hnext
  | wrote op ok => exact .wrote hnext
  | cancel op => exact .cancel hnext
  | abort =>
    obtain ⟨op, -, hnext⟩ := bind_eq_some_iff.mp hnext
    exact (Keeps.cancel hnext).congr rfl rfl
  | resumes i => exact .resumes hnext
  | signalled i ok => exact .signalled hnext
  | deadline => exact .deadline hnext
  | polls => exact .polls hnext
  | polled verdict => exact .polled hnext
  | exits => exact some.inj hnext ▸ .exits
  | transportFails => exact some.inj hnext ▸ .onTransportFailure
  | close => exact some.inj hnext ▸ .close
  | terminated ok => exact .terminated hnext
  | closeFails =>
    obtain ⟨-, -, hnext⟩ := bind_eq_some_iff.mp hnext
    cases hnext
    exact Keeps.failActive.congr rfl rfl

/-! ## Runs -/

/-- **One action** that cancels no send twice keeps the slot in order. -/
theorem Inv.step (h : Inv m) (honce : m.CancelsOnce act) (hnext : m.step act = some m') : Inv m' := by
  cases act with
  | startSend input signal => exact h.startSend hnext
  | inspected op ok => exact h.inspected hnext
  | wrote op ok => exact h.wrote hnext
  | cancel op => exact h.cancel (honce op rfl) hnext
  | abort => exact h.abort honce hnext
  | resumes i => exact h.resumes hnext
  | signalled i ok => exact h.signalled hnext
  | deadline => exact h.deadlinePasses hnext
  | polls => exact h.pollsBegin hnext
  | polled verdict => exact h.polled hnext
  | exits => exact some.inj hnext ▸ h.exits
  | transportFails => exact some.inj hnext ▸ h.onTransportFailure
  | close => exact some.inj hnext ▸ h.close
  | terminated ok => exact h.terminated hnext
  | closeFails =>
    simp only [LocalPtySession.step, LocalPtySession.closeFails, bind_eq_bind, bind_eq_some_iff,
      guard_eq_some', pure_def] at hnext
    obtain ⟨-, hpromise, hnext⟩ := hnext
    cases hnext
    exact h.closeFails (h.closing (by rw [hpromise.1]; rintro ⟨⟩))

theorem inv_initial : Inv {} where
  live := nofun
  unsettled := nofun
  running := nofun
  deadline := nofun
  closes := nofun
  closing := fun hpromise => absurd rfl hpromise
  writing := fun _ => ⟨nofun, nofun⟩
  written := nofun
  flight := nofun
  sole := nofun
  reaches := nofun
  awaits := nofun
  signals := nofun
  issues := fun _ hover => absurd rfl hover
  interrupting := nofun
  polls := by rintro op (hop | hop | hop) <;> cases hop
  retained := nofun
  held := nofun
  cancelled := nofun
  fails := nofun

/-- Some timer, write, inspection or interrupt of the send is pending. -/
def Pending (m : LocalPtySession) (op : OpId) : Prop :=
  m.activeDeadlineTimer = some op ∨ m.activeTimer = some op ∨ m.activeWrite = some op ∨ m.polling = some op ∨
    (op < m.started ∧ (m.operations op).stage = .inspecting) ∨
    ∃ i, (m.interrupts i).inFlight = true ∧ (m.interrupts i).operation = op

def Busy (m : LocalPtySession) : Prop := m.activeWrite.isSome = true ∨ ∃ i, (m.interrupts i).inFlight = true

/-- **The send slot.**  As long as no send is cancelled again while its interrupt is in flight: one send at a time is
unsettled, the active one; no later send is accepted while a write or an interrupt is in flight, and no interrupt in
flight is another send's; and the active send always waits for something. A send settles only once in any run. -/
theorem send_slot {acts : List Act} {m : LocalPtySession} (hrun : Machine.exec step {} acts = some m)
    (honce : Machine.Along step CancelsOnce {} acts) :
    (∀ op < m.started, m.finished op = false → m.active = some op) ∧
    (∀ op < m.started, ∀ outcome later m', (m.operations op).outcome = some outcome →
      Machine.exec step m later = some m' → (m'.operations op).outcome = some outcome) ∧
    (m.Busy → ∀ input signal, m.startSend input signal = none) ∧
    (∀ i op, (m.interrupts i).inFlight = true → m.active = some op → (m.interrupts i).operation = op) ∧
    (∀ op, m.active = some op → m.closing = false → m.Pending op) ∧
    (∀ op, m.active = some op → m.closing = true → m.closePromise = .terminating) := by
  have h : Inv m := Machine.exec_invariant_along (fun _ _ _ h => h.step) inv_initial hrun honce
  refine ⟨h.unsettled, ?_, ?_, h.reaches, ?_, h.closes⟩
  · intro op hop outcome later m' hsettled hlater
    have hkeeps : Keeps m m' :=
      Machine.exec_invariant (I := Keeps m) (fun _ _ _ _ hkeeps hnext => hkeeps.trans (.step hnext))
        (.of_eq rfl rfl) hlater
    exact hkeeps.outcome op outcome hop hsettled
  · intro hbusy input signal
    by_contra haccepted
    obtain ⟨m', hstart⟩ := ne_none_iff_exists'.mp haccepted
    obtain ⟨hopen, hidle, -⟩ := startSend_spec hstart
    obtain ⟨hwrite, -, hinterrupts⟩ := h.quiet hopen hidle
    rcases hbusy with hbusy | ⟨i, hi⟩
    · simp [hwrite] at hbusy
    · simp [hinterrupts i] at hi
  · intro op hactive hclosing
    by_cases hfinished : m.finished op = true
    · rcases h.retained op hactive hfinished hclosing with hwrite | hinterrupt
      · exact .inr (.inr (.inl hwrite))
      · exact .inr (.inr (.inr (.inr (.inr hinterrupt))))
    · exact .inl (h.deadline op hactive (eq_false_of_ne_true hfinished) hclosing)

/-- A send is aborted during its write, and keeps the slot past its deadline until its interrupt has signalled. -/
theorem send_slot_abortedWrite : ∃ m,
    Machine.exec step {} [.startSend true true, .inspected 0 true, .abort, .deadline, .cancel 0, .wrote 0 true, .resumes 0]
      = some m ∧ m.startSend true true = none :=
  ⟨_, rfl, (@send_slot [.startSend true true, .inspected 0 true, .abort, .deadline, .cancel 0, .wrote 0 true, .resumes 0]
    _ rfl (by decide)).2.2.1 (.inr ⟨0, rfl⟩) true true⟩

/-- The first interrupt lets a poll end the send, and the next send starts before the second one. -/
theorem cancelled_twice : ∃ m,
    Machine.exec step {} [.startSend true false, .inspected 0 true, .wrote 0 true, .cancel 0, .cancel 0, .signalled 0 true,
      .polls, .polled (some (some .inferredIdle)), .startSend true false] = some m ∧
    m.active = some 1 ∧ (m.interrupts 1).inFlight = true ∧ (m.interrupts 1).operation = 0 :=
  ⟨_, rfl, by decide⟩

end LocalPtySession

end CocoHarness.Terminal
