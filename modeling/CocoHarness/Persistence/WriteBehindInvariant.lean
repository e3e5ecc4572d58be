/-
# CocoHarness.Persistence.WriteBehindInvariant — what holds of every run of the write-behind queue.

No order of calls, timers, answers and jobs loses, duplicates or reorders an event (`exec_writeBehind`).
-/
import CocoHarness.Lib.Machine
import CocoHarness.Persistence.WriteBehind
import CocoHarness.SessionLog.Event

namespace CocoHarness.Persistence

open Lib List Machine Barrier

universe u v

variable {E : Type u} {ε : Type v}

namespace SessionWriteBehind

/-! ## The invariant -/

/-- The queue: nothing is lost, and the handles are all there is. -/
structure Queued (s : SessionWriteBehind E ε) : Prop where
  conserved : s.written.flatten ++ s.inFlight ++ s.pending = s.enqueued
  timeouts : s.timeouts = s.timer.toList
  writes : s.writes.map (·.id) = s.active.toList
  timed : s.timer ≠ none → s.pending ≠ []
  paused : s.automaticPaused = true → s.timer = none
  /-- Stays expired at most until its continuation has run. -/
  expired : s.deadlineExpired = true → s.pending ≠ [] ∧ (s.active ≠ none ∨ 0 < s.continuations)
  stale : s.deadlineExpired = true → 0 < s.continuations → s.active = none
  durable : ∀ n ∈ s.resolved, n ≤ s.enqueued.length ∧ s.enqueued.take n <+: s.written.flatten

def Awaits (active : Option Nat) : DrainPhase ε → Prop
  | .overlapping id | .draining id => active = some id
  | .overlapSettled | .drained | .failed _ => active = none

structure Inv (s : SessionWriteBehind E ε) : Prop extends Queued s where
  quiet : ∀ b, s.barrier = some b → s.timer = none ∧ s.deadlineExpired = false
  awaits : ∀ b, s.barrier = some b → Awaits s.active b.phase
  joined : ∀ b, s.barrier = some b → ∀ n ∈ b.joined, n ≤ s.enqueued.length
  background : s.barrier = none → ∀ w ∈ s.writes, w.background = true
  caught : ∀ w ∈ s.writes, ∀ error, w.stage = .caught error → s.deadlineExpired = false ∧
    ∀ b, s.barrier = some b → b.phase = .draining w.id → s.automaticPaused = true
  failed : ∀ b error, s.barrier = some b → b.phase = .failed error → s.automaticPaused = true

def Covered (s : SessionWriteBehind E ε) : Prop :=
  s.pending ≠ [] → s.timer ≠ none ∨ s.automaticPaused = true ∨ s.deadlineExpired = true ∨ s.barrier ≠ none

variable {s : SessionWriteBehind E ε}

theorem Queued.writes_eq_nil (h : Queued s) (hactive : s.active = none) : s.writes = [] := by
  simpa [hactive] using h.writes

theorem Queued.writes_cases (h : Queued s) :
    (s.active = none ∧ s.writes = []) ∨ ∃ w, s.active = some w.id ∧ s.writes = [w] := by
  cases hactive : s.active with
  | none => exact .inl ⟨rfl, h.writes_eq_nil hactive⟩
  | some id =>
    have hids := h.writes
    rw [hactive] at hids
    obtain ⟨w, hw, rfl⟩ := map_eq_singleton_iff.mp hids
    exact .inr ⟨w, rfl, hw⟩

variable {w : DurableWrite E ε}

theorem Queued.writes_eq_of_mem (h : Queued s) (hw : w ∈ s.writes) : s.active = some w.id ∧ s.writes = [w] := by
  rcases h.writes_cases with ⟨-, hnil⟩ | ⟨w', hactive, hwrites⟩
  · simp [hnil] at hw
  · rw [hwrites, mem_singleton] at hw
    exact hw ▸ ⟨hactive, hwrites⟩

theorem cancelTimer_eq (h : s.timeouts = s.timer.toList) :
    s.cancelTimer = { s with timer := none, timeouts := [] } := by
  obtain ⟨pending, timer, active, barrier, expired, paused, timeouts⟩ := s
  obtain rfl : timeouts = timer.toList := h
  cases timer with
  | none => rfl
  | some id => simp [cancelTimer]

theorem startWrite_eq (h : s.timeouts = s.timer.toList) (background : Bool) : s.startWrite background = { s with
      pending := [], timer := none, timeouts := [], deadlineExpired := false
      active := some s.nextId, nextId := s.nextId + 1
      writes := s.writes ++ [⟨s.nextId, s.pending, background, .scheduled⟩] } := by
  have hcancel := cancelTimer_eq (s := { s with pending := [] }) h
  rw [startWrite, hcancel]

/-! ## Starting writes -/

theorem Queued.startWrite (h : Queued s) (hactive : s.active = none) (background : Bool) :
    Queued (s.startWrite background) := by
  have hnil := h.writes_eq_nil hactive
  have hconserved := h.conserved
  rw [startWrite_eq h.timeouts, hnil]
  exact {
    conserved := by simpa [inFlight, hnil, DurableWrite.inFlight] using hconserved
    timeouts := rfl
    writes := rfl
    timed := nofun
    paused := fun _ => rfl
    expired := nofun
    stale := nofun
    durable := h.durable }

theorem Inv.startBackground (h : Queued s) (hactive : s.active = none) (hbarrier : s.barrier = none) :
    Inv s.startBackground := by
  have hstart := h.startWrite hactive true
  have hnil := h.writes_eq_nil hactive
  rw [SessionWriteBehind.startBackground]
  rw [startWrite_eq h.timeouts] at hstart ⊢
  exact {
    toQueued := hstart
    quiet := by simp [hbarrier]
    awaits := by simp [hbarrier]
    joined := by simp [hbarrier]
    background := by simp [hnil]
    caught := by simp [hnil]
    failed := by simp [hbarrier] }

theorem Covered.startBackground (h : s.timeouts = s.timer.toList) : Covered s.startBackground := by
  rw [SessionWriteBehind.startBackground, startWrite_eq h]
  exact fun hne => absurd rfl hne

theorem Inv.drainLoop (h : Queued s) (hactive : s.active = none) {joined : List Nat}
    (hjoined : ∀ n ∈ joined, n ≤ s.enqueued.length) : Inv (s.drainLoop joined) := by
  have hnil := h.writes_eq_nil hactive
  rw [SessionWriteBehind.drainLoop]
  split
  · next hempty =>
    rw [List.isEmpty_iff] at hempty
    -- Nothing is pending and nothing in flight: all that was enqueued is written.
    have hall : s.written.flatten = s.enqueued := by simpa [inFlight, hnil, hempty] using h.conserved
    have hdurable : ∀ n ∈ s.resolved ++ joined, n ≤ s.enqueued.length ∧ s.enqueued.take n <+: s.written.flatten := by
      intro n hn
      rcases mem_append.mp hn with hn | hn
      · exact h.durable n hn
      · exact ⟨hjoined n hn, hall ▸ take_prefix _ _⟩
    exact {
      toQueued := { h with durable := hdurable }
      quiet := nofun
      awaits := nofun
      joined := nofun
      background := by simp [hnil]
      caught := by simp [hnil]
      failed := nofun }
  · have hstart := h.startWrite hactive false
    have heq := startWrite_eq h.timeouts false
    exact {
      toQueued := { hstart with }
      quiet := by
        intro b _
        rw [heq]
        exact ⟨rfl, rfl⟩
      awaits := by
        intro b hb
        cases hb
        rw [heq]
        rfl
      joined := by
        intro b hb
        cases hb
        rw [heq]
        exact hjoined
      background := nofun
      caught := by simp [heq, hnil]
      failed := by
        intro b error hb hphase
        cases hb
        cases hphase }

theorem Covered.drainLoop (s : SessionWriteBehind E ε) (joined : List Nat) : Covered (s.drainLoop joined) := by
  rw [SessionWriteBehind.drainLoop]
  split
  · next hempty => exact fun hne => absurd (List.isEmpty_iff.mp hempty) hne
  · exact fun _ => .inr (.inr (.inr (by simp)))

/-! ## Calls -/

theorem Queued.armTimer (h : Queued s) (htimer : s.timer = none) (hpending : s.pending ≠ [])
    (hpaused : s.automaticPaused = false) : Queued s.armTimer where
  conserved := h.conserved
  timeouts := by
    have htimeouts := h.timeouts
    rw [htimer] at htimeouts
    simp [SessionWriteBehind.armTimer, htimeouts]
  writes := h.writes
  timed := fun _ => hpending
  paused := by
    intro hp
    rw [SessionWriteBehind.armTimer, hpaused] at hp
    cases hp
  expired := h.expired
  stale := h.stale
  durable := h.durable

theorem Queued.push (h : Queued s) (event : E) :
    Queued { s with pending := s.pending ++ [event], enqueued := s.enqueued ++ [event] } where
  conserved := by
    have hconserved := h.conserved
    simp only [inFlight] at hconserved ⊢
    rw [← hconserved]
    simp only [append_assoc]
  timeouts := h.timeouts
  writes := h.writes
  timed := fun _ => by simp
  paused := h.paused
  expired := fun hexpired => ⟨by simp, (h.expired hexpired).2⟩
  stale := h.stale
  durable := by
    intro n hn
    obtain ⟨hle, hpre⟩ := h.durable n hn
    refine ⟨by simp; omega, ?_⟩
    rwa [take_append_of_le_length hle]

theorem Inv.enqueue (h : Inv s) (event : E) : Inv (s.enqueue event) := by
  have hpush := h.toQueued.push event
  have hjoined : ∀ b, s.barrier = some b → ∀ n ∈ b.joined, n ≤ (s.enqueued ++ [event]).length := by
    intro b hb n hn
    have hle := h.joined b hb n hn
    simp only [length_append, length_singleton]
    omega
  have hplain : Inv { s with pending := s.pending ++ [event], enqueued := s.enqueued ++ [event] } :=
    { h with toQueued := hpush, joined := hjoined }
  simp only [SessionWriteBehind.enqueue]
  split
  · exact hplain
  · next hbarrier =>
    have hnone : s.barrier = none := by simpa using hbarrier
    split
    · next hpaused =>
      have hqueued : Queued { s with
          pending := s.pending ++ [event], enqueued := s.enqueued ++ [event]
          automaticPaused := false, deadlineExpired := false } :=
        { hpush with paused := nofun, expired := nofun, stale := nofun }
      exact { h with
        toQueued := hqueued.armTimer (h.paused hpaused) (by simp) rfl
        quiet := by simp [SessionWriteBehind.armTimer, hnone]
        joined := hjoined
        caught := fun w hw error hstage => ⟨rfl, by simp [SessionWriteBehind.armTimer, hnone]⟩
        failed := by simp [SessionWriteBehind.armTimer, hnone] }
    · next hpaused =>
      split
      · next hempty =>
        have htimer : s.timer = none := by
          by_contra hne
          exact h.timed hne (List.isEmpty_iff.mp hempty)
        exact { hplain with
          toQueued := hpush.armTimer htimer (by simp) (by simpa using hpaused)
          quiet := by simp [SessionWriteBehind.armTimer, hnone] }
      · exact hplain

theorem Covered.enqueue (h : Covered s) (event : E) : Covered (s.enqueue event) := by
  simp only [SessionWriteBehind.enqueue]
  split
  · next hbarrier => exact fun _ => .inr (.inr (.inr (by simpa [Option.isSome_iff_ne_none] using hbarrier)))
  · split
    · exact fun _ => .inl (by simp [SessionWriteBehind.armTimer])
    · split
      · exact fun _ => .inl (by simp [SessionWriteBehind.armTimer])
      · next hempty => exact fun _ => h (by simpa using hempty)

theorem Inv.cancelAutomaticWait (h : Inv s) : Inv s.cancelAutomaticWait := by
  rw [SessionWriteBehind.cancelAutomaticWait, cancelTimer_eq h.timeouts]
  exact { h with
    timeouts := rfl
    timed := fun hne => absurd rfl hne
    paused := fun _ => rfl
    expired := nofun
    stale := nofun
    quiet := fun _ _ => ⟨rfl, rfl⟩
    caught := fun w hw error hstage => ⟨rfl, (h.caught w hw error hstage).2⟩ }

theorem Inv.flush (h : Inv s) : Inv s.flush := by
  rw [SessionWriteBehind.flush]
  split
  · next barrier hbarrier =>
    have hsame : ∀ {b}, some { barrier with joined := barrier.joined ++ [s.enqueued.length] } = some b →
        b.phase = barrier.phase := fun hb => by rw [← Option.some.inj hb]
    exact { h with
      quiet := fun _ _ => h.quiet barrier hbarrier
      awaits := fun b hb => hsame hb ▸ h.awaits barrier hbarrier
      joined := by
        intro b hb n hn
        cases hb
        rcases mem_append.mp hn with hn | hn
        · exact h.joined barrier hbarrier n hn
        · exact (mem_singleton.mp hn).le
      background := nofun
      caught := fun w hw error hstage => ⟨(h.caught w hw error hstage).1, fun b hb hphase =>
        (h.caught w hw error hstage).2 barrier hbarrier (hsame hb ▸ hphase)⟩
      failed := fun b error hb hphase => h.failed barrier error hbarrier (hsame hb ▸ hphase) }
  · next hbarrier =>
    rw [cancelTimer_eq h.timeouts]
    have hqueued : Queued { s with
        timer := none, timeouts := [], deadlineExpired := false, automaticPaused := false } :=
      { h.toQueued with
        timeouts := rfl, timed := fun hne => absurd rfl hne, paused := nofun
        expired := nofun, stale := nofun }
    dsimp only
    split
    · next overlapping hactive =>
      exact {
        toQueued := { hqueued with }
        quiet := fun _ _ => ⟨rfl, rfl⟩
        awaits := by
          intro b hb
          cases hb
          exact hactive
        joined := by
          intro b hb n hn
          cases hb
          exact (mem_singleton.mp hn).le
        background := nofun
        caught := by
          refine fun w _ error _ => ⟨rfl, fun b hb hphase => ?_⟩
          cases hb
          cases hphase
        failed := by
          intro b error hb hphase
          cases hb
          cases hphase }
    · next hactive => exact Inv.drainLoop hqueued hactive fun n hn => (mem_singleton.mp hn).le

theorem Covered.flush (s : SessionWriteBehind E ε) : Covered s.flush := by
  rw [SessionWriteBehind.flush]
  split
  · exact fun _ => .inr (.inr (.inr (by simp)))
  · dsimp only
    split
    · exact fun _ => .inr (.inr (.inr (by simp)))
    · exact Covered.drainLoop _ _

/-! ## Jobs -/

variable {s' : SessionWriteBehind E ε}

theorem Inv.resumeDrain (h : Inv s) (hstep : s.resumeDrain = some s') : Inv s' := by
  rw [SessionWriteBehind.resumeDrain] at hstep
  split at hstep
  · next joined hbarrier =>
    cases hstep
    have hqueued : Queued { s with automaticPaused := false } := { h.toQueued with paused := nofun }
    exact Inv.drainLoop hqueued (h.awaits _ hbarrier) (h.joined _ hbarrier)
  · next joined hbarrier =>
    cases hstep
    exact Inv.drainLoop h.toQueued (h.awaits _ hbarrier) (h.joined _ hbarrier)
  · next error joined hbarrier =>
    cases hstep
    have hnil := h.writes_eq_nil (h.awaits _ hbarrier)
    exact {
      toQueued := { h.toQueued with }
      quiet := nofun
      awaits := nofun
      joined := nofun
      background := by simp [hnil]
      caught := by simp [hnil]
      failed := nofun }
  · cases hstep

theorem Covered.resumeDrain (h : Inv s) (hstep : s.resumeDrain = some s') : Covered s' := by
  rw [SessionWriteBehind.resumeDrain] at hstep
  split at hstep
  · cases hstep
    exact Covered.drainLoop _ _
  · cases hstep
    exact Covered.drainLoop _ _
  · next error joined hbarrier =>
    cases hstep
    exact fun _ => .inr (.inl (h.failed _ error hbarrier rfl))
  · cases hstep

theorem jobsDone_spec (h : s.jobsDone = true) :
    (∀ w ∈ s.writes, w.stage = .writing) ∧ s.continuations = 0 ∧ s.drainQueued = false := by
  simp only [jobsDone, Bool.and_eq_true, all_eq_true, beq_iff_eq, Bool.not_eq_true'] at h
  refine ⟨fun w hw => ?_, h.1.2, h.2⟩
  have hstage := h.1.1 w hw
  split at hstage
  · assumption
  · cases hstage

variable {id : Nat}

theorem Inv.deadline (h : Inv s) (hid : id ∈ s.timeouts) (hjobs : s.jobsDone = true) :
    Inv (onDeadline { s with timeouts := s.timeouts.erase id }) ∧
      Covered (onDeadline { s with timeouts := s.timeouts.erase id }) := by
  obtain ⟨hwriting, hcontinuations, -⟩ := jobsDone_spec hjobs
  have htimer : s.timer = some id := by
    rw [h.timeouts, Option.mem_toList] at hid
    exact hid
  have hlive : s.timeouts.erase id = [] := by simp [h.timeouts, htimer]
  have hbarrier : s.barrier = none := by
    by_contra hne
    obtain ⟨b, hb⟩ := Option.ne_none_iff_exists'.mp hne
    exact nomatch htimer.symm.trans (h.quiet b hb).1
  have hqueued : Queued { s with timer := none, timeouts := [] } :=
    { h.toQueued with timeouts := rfl, timed := fun hne => absurd rfl hne, paused := fun _ => rfl }
  rw [hlive, onDeadline]
  dsimp only
  split
  · next hactive =>
    refine ⟨?_, fun _ => .inr (.inr (.inl rfl))⟩
    exact { h with
      toQueued := { hqueued with
        expired := fun _ => ⟨h.timed (by simp [htimer]), .inl (Option.isSome_iff_ne_none.mp hactive)⟩
        stale := fun _ hlt => absurd hlt (by simp [hcontinuations]) }
      quiet := by simp [hbarrier]
      caught := fun w hw error hstage => nomatch (hwriting w hw).symm.trans hstage }
  · next hactive =>
    exact ⟨Inv.startBackground hqueued (by simpa using hactive) hbarrier, Covered.startBackground rfl⟩

/-- A continuation only starts a write when the deadline expired behind the settled one. -/
theorem Inv.continueAutomatic (h : Inv s) (hqueued : 0 < s.continuations) :
    Inv (SessionWriteBehind.continueAutomatic { s with continuations := s.continuations - 1 }) := by
  have hidle : s.deadlineExpired = false → Inv { s with continuations := s.continuations - 1 } := fun hexpired =>
    { h with
      expired := fun hn => nomatch hexpired.symm.trans hn
      stale := fun hn => nomatch hexpired.symm.trans hn }
  rw [SessionWriteBehind.continueAutomatic]
  dsimp only
  split
  · next hnothing =>
    refine hidle ?_
    rw [Bool.or_eq_true, List.isEmpty_iff] at hnothing
    rcases hnothing with hbarrier | hempty
    · obtain ⟨b, hb⟩ := Option.isSome_iff_exists.mp hbarrier
      exact (h.quiet b hb).2
    · by_contra hexpired
      exact (h.expired (by simpa using hexpired)).1 hempty
  · next hwork =>
    split
    · next hexpired =>
      refine Inv.startBackground ?_ (h.stale hexpired hqueued) (by simp at hwork; exact hwork.1)
      exact { h.toQueued with expired := nofun, stale := nofun }
    · next hexpired => exact hidle (by simpa using hexpired)

theorem Covered.continueAutomatic (h : Inv s) (hcovered : Covered s) :
    Covered (SessionWriteBehind.continueAutomatic { s with continuations := s.continuations - 1 }) := by
  rw [SessionWriteBehind.continueAutomatic]
  dsimp only
  split
  · exact hcovered
  · split
    · exact Covered.startBackground h.timeouts
    · exact hcovered

/-! ## The promise chain of a write -/

theorem setStage_eq (hwrites : s.writes = [w]) (stage : WriteStage ε) :
    s.setStage w.id stage = { s with writes := [{ w with stage }] } := by
  simp [setStage, hwrites]

theorem Inv.setStage (h : Inv s) (hw : w ∈ s.writes) {stage : WriteStage ε}
    (hstage : ∀ error, stage ≠ .caught error) {written : List (List E)}
    (hconserved : written.flatten ++ DurableWrite.inFlight { w with stage } ++ s.pending = s.enqueued)
    (hdurable : s.written.flatten <+: written.flatten) :
    Inv { s.setStage w.id stage with written } := by
  obtain ⟨hactive, hwrites⟩ := h.writes_eq_of_mem hw
  rw [setStage_eq hwrites]
  exact { h with
    conserved := by simpa [inFlight] using hconserved
    writes := by simp [hactive]
    durable := fun n hn => ⟨(h.durable n hn).1, (h.durable n hn).2.trans hdurable⟩
    background := by
      intro hbarrier w' hw'
      obtain rfl := mem_singleton.mp hw'
      exact h.background hbarrier w hw
    caught := by
      intro w' hw' error hcaught
      obtain rfl := mem_singleton.mp hw'
      exact absurd hcaught (hstage error) }

variable {error : ε}

theorem Inv.catchFailure (h : Inv s) (hw : w ∈ s.writes)
    (hstage : w.stage = .rejected error) : Inv (s.catchFailure w error) := by
  obtain ⟨hactive, hwrites⟩ := h.writes_eq_of_mem hw
  have hconserved := h.conserved
  rw [SessionWriteBehind.catchFailure, setStage_eq hwrites]
  dsimp only
  rw [cancelTimer_eq (by exact h.timeouts)]
  exact { h with
    conserved := by simpa [inFlight, hwrites, DurableWrite.inFlight, hstage] using hconserved
    timeouts := rfl
    writes := by simp [hactive]
    timed := fun hne => absurd rfl hne
    paused := fun _ => rfl
    expired := nofun
    stale := nofun
    quiet := fun _ _ => ⟨rfl, rfl⟩
    background := by
      intro hbarrier w' hw'
      obtain rfl := mem_singleton.mp hw'
      exact h.background hbarrier w hw
    caught := fun _ _ _ _ => ⟨rfl, fun _ _ _ => rfl⟩
    failed := fun _ _ _ _ => rfl }

theorem Barrier.settled_joined (b : Barrier ε) (id : Nat) (failure : Option ε) :
    (b.settled id failure).joined = b.joined := by
  unfold settled
  split <;> first | rfl | (split <;> rfl)

variable {b : Barrier ε}

theorem Barrier.settled_awaits (h : Awaits (some id) b.phase)
    (failure : Option ε) : Awaits none (b.settled id failure).phase := by
  obtain ⟨phase, joined⟩ := b
  cases phase with
  | overlapping awaited =>
    cases h
    simp [settled, Awaits]
  | draining awaited =>
    cases h
    cases failure <;> simp [settled, Awaits]
  | overlapSettled | drained | failed _ => cases h

variable {failure : Option ε}

theorem Barrier.settled_failed (h : Awaits (some id) b.phase) (hfailed : (b.settled id failure).phase = .failed error) :
    b.phase = .draining id ∧ failure = some error := by
  obtain ⟨phase, joined⟩ := b
  cases phase with
  | overlapping awaited =>
    cases h
    simp [settled] at hfailed
  | draining awaited =>
    cases h
    cases failure <;> simp_all [settled]
  | overlapSettled | drained | failed _ => cases h

/-- `finally` leaves no write, and queues the continuation of an expired deadline. -/
theorem Inv.finish (h : Inv s) (hw : w ∈ s.writes)
    (hstage : w.stage = match failure with | none => .fulfilled | some error => .caught error) :
    Inv (s.finish w failure) := by
  obtain ⟨hactive, hwrites⟩ := h.writes_eq_of_mem hw
  have hnil : s.writes.filter (·.id ≠ w.id) = [] := by simp [hwrites]
  have hflight : DurableWrite.inFlight w = [] := by
    rw [DurableWrite.inFlight, hstage]
    cases failure <;> rfl
  have hbarrier : ∀ b, s.barrier.map (·.settled w.id failure) = some b →
      ∃ b₀, s.barrier = some b₀ ∧ b₀.settled w.id failure = b := fun b hb => Option.map_eq_some_iff.mp hb
  rw [SessionWriteBehind.finish, hnil]
  exact { h with
    conserved := by simpa [inFlight, hwrites, hflight] using h.conserved
    writes := rfl
    expired := by
      intro hexpired
      refine ⟨(h.expired hexpired).1, .inr ?_⟩
      have hnone : s.barrier = none := by
        by_contra hne
        obtain ⟨b, hb⟩ := Option.ne_none_iff_exists'.mp hne
        exact nomatch hexpired.symm.trans (h.quiet b hb).2
      cases failure with
      | none => simp [h.background hnone w hw]
      | some error => exact nomatch hexpired.symm.trans (h.caught w hw error hstage).1
    stale := fun _ _ => rfl
    quiet := fun b hb => by
      obtain ⟨b₀, hb₀, -⟩ := hbarrier b hb
      exact h.quiet b₀ hb₀
    awaits := fun b hb => by
      obtain ⟨b₀, hb₀, rfl⟩ := hbarrier b hb
      exact Barrier.settled_awaits (hactive ▸ h.awaits b₀ hb₀) failure
    joined := fun b hb => by
      obtain ⟨b₀, hb₀, rfl⟩ := hbarrier b hb
      rw [Barrier.settled_joined]
      exact h.joined b₀ hb₀
    background := nofun
    caught := nofun
    failed := fun b error hb hphase => by
      obtain ⟨b₀, hb₀, rfl⟩ := hbarrier b hb
      obtain ⟨hdraining, rfl⟩ := Barrier.settled_failed (hactive ▸ h.awaits b₀ hb₀) hphase
      exact (h.caught w hw error hstage).2 b₀ hb₀ hdraining }

variable {event : WriteEvent ε}

theorem Inv.advance (h : Inv s) (hw : w ∈ s.writes) (hstep : s.advance w event = some s') : Inv s' := by
  obtain ⟨-, hwrites⟩ := h.writes_eq_of_mem hw
  have hconserved : s.written.flatten ++ w.inFlight ++ s.pending = s.enqueued := by
    simpa [inFlight, hwrites] using h.conserved
  cases event with
  | called | failed error =>
    simp only [advance] at hstep
    split at hstep
    · next hstage =>
      cases hstep
      exact h.setStage hw (by simp) (by simpa [DurableWrite.inFlight, hstage] using hconserved) prefix_rfl
    · cases hstep
  | succeeded =>
    simp only [advance] at hstep
    split at hstep
    · next hstage =>
      cases hstep
      exact h.setStage hw (by simp) (by simpa [DurableWrite.inFlight, hstage] using hconserved) (by simp)
    · cases hstep
  | catchJob =>
    simp only [advance] at hstep
    split at hstep
    · next hstage =>
      cases hstep
      exact h.catchFailure hw hstage
    · cases hstep
  | finallyJob =>
    simp only [advance] at hstep
    split at hstep
    · next hstage =>
      cases hstep
      exact h.finish hw hstage
    · next hstage =>
      cases hstep
      exact h.finish hw hstage
    · cases hstep

theorem Covered.advance (hcovered : Covered s) (hstep : s.advance w event = some s') : Covered s' := by
  have hfinish : ∀ failure, Covered (s.finish w failure) := fun failure hne => by simpa [finish] using hcovered hne
  cases event with
  | called | succeeded | failed _ =>
    simp only [advance] at hstep
    split at hstep
    · cases hstep
      exact hcovered
    · cases hstep
  | catchJob =>
    simp only [advance] at hstep
    split at hstep
    · cases hstep
      exact fun _ => .inr (.inl rfl)
    · cases hstep
  | finallyJob =>
    simp only [advance] at hstep
    split at hstep
    · exact Option.some.inj hstep ▸ hfinish none
    · exact Option.some.inj hstep ▸ hfinish _
    · cases hstep

/-! ## Runs -/

theorem Inv.initial : Inv ({} : SessionWriteBehind E ε) where
  conserved := rfl
  timeouts := rfl
  writes := rfl
  timed := fun hne => absurd rfl hne
  paused := nofun
  expired := nofun
  stale := nofun
  durable := nofun
  quiet := nofun
  awaits := nofun
  joined := nofun
  background := nofun
  caught := nofun
  failed := nofun

variable {a : Action E ε}

/-- **One step.**  Every action but `cancelAutomaticWait` keeps something that will move the pending events. -/
theorem Inv.step (h : Inv s) (hstep : s.step a = some s') :
    Inv s' ∧ (a ≠ .cancelAutomaticWait → Covered s → Covered s') := by
  cases a with
  | enqueue event =>
    cases hstep
    exact ⟨h.enqueue event, fun _ hcovered => hcovered.enqueue event⟩
  | flush =>
    cases hstep
    exact ⟨h.flush, fun _ _ => Covered.flush s⟩
  | cancelAutomaticWait =>
    cases hstep
    exact ⟨h.cancelAutomaticWait, fun hne => absurd rfl hne⟩
  | deadline id =>
    simp only [SessionWriteBehind.step] at hstep
    split at hstep
    · next hguard =>
      cases hstep
      exact ⟨(h.deadline hguard.1 hguard.2).1, fun _ _ => (h.deadline hguard.1 hguard.2).2⟩
    · cases hstep
  | write id event =>
    obtain ⟨w, hw, hadvance⟩ := Option.bind_eq_some_iff.mp hstep
    have hmem := mem_of_find?_eq_some hw
    exact ⟨h.advance hmem hadvance, fun _ hcovered => hcovered.advance hadvance⟩
  | continueAutomatic =>
    simp only [SessionWriteBehind.step] at hstep
    split at hstep
    · next hqueued =>
      cases hstep
      exact ⟨h.continueAutomatic hqueued, fun _ hcovered => Covered.continueAutomatic h hcovered⟩
    · cases hstep
  | resumeDrain => exact ⟨h.resumeDrain hstep, fun _ _ => Covered.resumeDrain h hstep⟩

variable {as : List (Action E ε)}

theorem Inv.exec (h : exec SessionWriteBehind.step {} as = some s) : Inv s :=
  exec_invariant (fun _ _ _ _ hinv hstep => (hinv.step hstep).1) Inv.initial h

theorem Covered.exec (hcancel : .cancelAutomaticWait ∉ as)
    (h : exec SessionWriteBehind.step {} as = some s) : Covered s := by
  have hrun : Inv s ∧ Covered s := by
    refine exec_invariant (I := fun s => Inv s ∧ Covered s) (fun a ha s s' hinv hstep => ?_)
      ⟨Inv.initial, fun hne => absurd rfl hne⟩ h
    obtain ⟨hnext, hcovered⟩ := hinv.1.step hstep
    exact ⟨hnext, hcovered (fun heq => hcancel (heq ▸ ha)) hinv.2⟩
  exact hrun.2

/-! ## The events of a run -/

@[simp] theorem cancelTimer_enqueued (s : SessionWriteBehind E ε) :
    s.cancelTimer.enqueued = s.enqueued := by
  unfold cancelTimer
  split <;> rfl

@[simp] theorem startWrite_enqueued (s : SessionWriteBehind E ε) (background : Bool) :
    (s.startWrite background).enqueued = s.enqueued := by
  simp [startWrite]

@[simp] theorem drainLoop_enqueued (s : SessionWriteBehind E ε) (joined : List Nat) :
    (s.drainLoop joined).enqueued = s.enqueued := by
  unfold SessionWriteBehind.drainLoop
  split <;> simp

theorem step_enqueued (hstep : s.step a = some s') : s'.enqueued = s.enqueued ++ a.event?.toList := by
  cases a with
  | enqueue event =>
    cases hstep
    simp only [SessionWriteBehind.enqueue, SessionWriteBehind.armTimer, Action.event?]
    split_ifs <;> rfl
  | flush =>
    cases hstep
    simp only [SessionWriteBehind.flush, Action.event?]
    split
    · simp
    · split <;> simp
  | cancelAutomaticWait =>
    cases hstep
    simp [SessionWriteBehind.cancelAutomaticWait, Action.event?]
  | deadline id =>
    simp only [SessionWriteBehind.step] at hstep
    split at hstep
    · cases hstep
      simp only [onDeadline, SessionWriteBehind.startBackground, Action.event?]
      split <;> simp
    · cases hstep
  | write id event =>
    obtain ⟨w, -, hadvance⟩ := Option.bind_eq_some_iff.mp hstep
    cases event <;> simp only [advance] at hadvance <;> split at hadvance <;>
      cases hadvance <;>
      simp [setStage, SessionWriteBehind.catchFailure, SessionWriteBehind.finish, Action.event?]
  | continueAutomatic =>
    simp only [SessionWriteBehind.step] at hstep
    split at hstep
    · cases hstep
      simp only [SessionWriteBehind.continueAutomatic, SessionWriteBehind.startBackground, Action.event?]
      split_ifs <;> simp
    · cases hstep
  | resumeDrain =>
    simp only [SessionWriteBehind.step, SessionWriteBehind.resumeDrain] at hstep
    split at hstep <;> cases hstep <;> simp [Action.event?]

theorem exec_enqueued (h : exec SessionWriteBehind.step s as = some s') :
    s'.enqueued = s.enqueued ++ as.filterMap Action.event? := by
  induction as generalizing s with
  | nil =>
    cases h
    simp
  | cons a as ih =>
    obtain ⟨mid, hmid, hrest⟩ := Option.bind_eq_some_iff.mp h
    rw [ih hrest, step_enqueued hmid, append_assoc]
    cases hevent : a.event? <;> simp [hevent]

/-! ## What moves the pending events -/

structure FailureRecorded (s : SessionWriteBehind E ε) : Prop where
  paused : s.automaticPaused = true
  unbarred : s.barrier = none
  enqueue_arms : ∀ event, (s.enqueue event).timeouts ≠ []
  flush_writes : ∃ w, s.flush.writes = [w] ∧ w.batch = s.pending

/-- The continuation of a settled write is queued: it starts a write of everything, or rejects the barrier. -/
def ContinuationQueued (s : SessionWriteBehind E ε) : Prop :=
  ∃ a s', (a = .continueAutomatic ∨ a = .resumeDrain) ∧ s.step a = some s' ∧
    ((∃ w, s'.writes = [w] ∧ w.batch = s.pending) ∨ FailureRecorded s' ∧ s'.pending = s.pending)

theorem drainLoop_writes (htimeouts : s.timeouts = s.timer.toList) (hwrites : s.writes = [])
    (hpending : s.pending ≠ []) (joined : List Nat) :
    ∃ w, (s.drainLoop joined).writes = [w] ∧ w.batch = s.pending := by
  rw [SessionWriteBehind.drainLoop, if_neg (by simpa using hpending)]
  refine ⟨⟨s.nextId, s.pending, false, .scheduled⟩, ?_, rfl⟩
  rw [startWrite_eq htimeouts, hwrites]
  rfl

theorem FailureRecorded.of_paused (h : Queued s) (hactive : s.active = none)
    (hbarrier : s.barrier = none) (hpaused : s.automaticPaused = true) (hpending : s.pending ≠ []) :
    FailureRecorded s where
  paused := hpaused
  unbarred := hbarrier
  enqueue_arms := by
    intro event
    simp [SessionWriteBehind.enqueue, SessionWriteBehind.armTimer, hbarrier, hpaused]
  flush_writes := by
    let ready : SessionWriteBehind E ε := { s with
      timer := none, timeouts := [], deadlineExpired := false, automaticPaused := false }
    have heq : s.flush = ready.drainLoop [s.enqueued.length] := by
      unfold SessionWriteBehind.flush
      split
      · next hsome => exact nomatch hbarrier.symm.trans hsome
      · simp only [cancelTimer_eq h.timeouts, hactive, ready]
    rw [heq]
    exact drainLoop_writes (s := ready) rfl (h.writes_eq_nil hactive) hpending _

theorem ContinuationQueued.of_barrier (h : Inv s) (hactive : s.active = none)
    (hbarrier : s.barrier = some b) (hpending : s.pending ≠ []) : ContinuationQueued s := by
  have hawaits := h.awaits b hbarrier
  have hnil := h.writes_eq_nil hactive
  rw [hactive] at hawaits
  obtain ⟨phase, joined⟩ := b
  cases phase with
  | overlapping id | draining id => cases hawaits
  | overlapSettled =>
    refine ⟨.resumeDrain, drainLoop { s with automaticPaused := false } joined, .inr rfl,
      by simp [SessionWriteBehind.step, SessionWriteBehind.resumeDrain, hbarrier], .inl ?_⟩
    exact drainLoop_writes (s := { s with automaticPaused := false }) h.timeouts hnil hpending joined
  | drained =>
    refine ⟨.resumeDrain, s.drainLoop joined, .inr rfl,
      by simp [SessionWriteBehind.step, SessionWriteBehind.resumeDrain, hbarrier], .inl ?_⟩
    exact drainLoop_writes h.timeouts hnil hpending joined
  | failed error =>
    refine ⟨.resumeDrain, { s with barrier := none, rejected := s.rejected ++ joined.map (·, error) }, .inr rfl,
      by simp [SessionWriteBehind.step, SessionWriteBehind.resumeDrain, hbarrier], .inr ⟨?_, rfl⟩⟩
    exact FailureRecorded.of_paused { h.toQueued with } hactive rfl
      (h.failed _ error hbarrier rfl) hpending

theorem ContinuationQueued.of_expired (h : Queued s) (hactive : s.active = none)
    (hbarrier : s.barrier = none) (hexpired : s.deadlineExpired = true) : ContinuationQueued s := by
  obtain ⟨hpending, hmoves⟩ := h.expired hexpired
  have hqueued : 0 < s.continuations := hmoves.resolve_left fun hne => hne hactive
  refine ⟨.continueAutomatic, _, .inl rfl, if_pos hqueued, .inl ?_⟩
  refine ⟨⟨s.nextId, s.pending, true, .scheduled⟩, ?_, rfl⟩
  simp only [SessionWriteBehind.continueAutomatic, hbarrier, hexpired, Option.isSome_none,
    Bool.false_or, List.isEmpty_iff, hpending, if_false, if_true, SessionWriteBehind.startBackground]
  rw [startWrite_eq (by exact h.timeouts), h.writes_eq_nil hactive]
  rfl

/-- Pending events have a live timer, a write, a recorded failure, or a queued continuation. -/
theorem Covered.moves (hcovered : Covered s) (h : Inv s) (hpending : s.pending ≠ []) :
    s.timeouts ≠ [] ∨ s.writes ≠ [] ∨ FailureRecorded s ∨ ContinuationQueued s := by
  rcases h.writes_cases with ⟨hactive, hnil⟩ | ⟨w, -, hwrites⟩
  · cases hbarrier : s.barrier with
    | some b => exact .inr (.inr (.inr (.of_barrier h hactive hbarrier hpending)))
    | none =>
      rcases hcovered hpending with htimer | hpaused | hexpired | hne
      · obtain ⟨id, hid⟩ := Option.ne_none_iff_exists'.mp htimer
        exact .inl (by simp [h.timeouts, hid])
      · exact .inr (.inr (.inl (.of_paused h.toQueued hactive hbarrier hpaused hpending)))
      · exact .inr (.inr (.inr (.of_expired h.toQueued hactive hbarrier hexpired)))
      · exact absurd hbarrier hne
  · exact .inr (.inl (by simp [hwrites]))

theorem written_of_not_hasWork (h : Queued s) (hwork : s.hasWork = false) : s.written.flatten = s.enqueued := by
  simp only [hasWork, Bool.or_eq_false_iff, Bool.not_eq_false', List.isEmpty_iff,
    Option.isSome_eq_false_iff, Option.isNone_iff_eq_none] at hwork
  simpa [inFlight, h.writes_eq_nil hwork.2, hwork.1] using h.conserved

/-! ## Every run -/

/-- **No event is lost, duplicated or reordered.**  What was written, what is in flight and what is pending are the
events of the calls, in order; at most one write is in progress; a flush that resolved has every event before it
written, and so has a controller without work; and unless the automatic wait was cancelled, pending events have an
armed timer, a write, a recorded failure that the next call retries, or a queued continuation. -/
theorem exec_writeBehind (h : Machine.exec SessionWriteBehind.step {} as = some s) :
    s.written.flatten ++ s.inFlight ++ s.pending = as.filterMap Action.event? ∧
    s.writes.length ≤ 1 ∧
    (∀ n ∈ s.resolved, s.enqueued.take n <+: s.written.flatten) ∧
    (s.hasWork = false → s.written.flatten = as.filterMap Action.event?) ∧
    (.cancelAutomaticWait ∉ as → s.pending ≠ [] →
      s.timeouts ≠ [] ∨ s.writes ≠ [] ∨ FailureRecorded s ∨ ContinuationQueued s) := by
  have hinv := Inv.exec h
  have henqueued : s.enqueued = as.filterMap Action.event? := by simpa using exec_enqueued h
  refine ⟨henqueued ▸ hinv.conserved, ?_, fun n hn => (hinv.durable n hn).2,
    fun hwork => henqueued ▸ written_of_not_hasWork hinv.toQueued hwork,
    fun hcancel hpending => (Covered.exec hcancel h).moves hinv hpending⟩
  rcases hinv.writes_cases with ⟨-, hnil⟩ | ⟨w, -, hwrites⟩
  · simp [hnil]
  · simp [hwrites]

end SessionWriteBehind

/-! ## Two runs -/

open SessionLog SessionWriteBehind

def turnStart (seq : Int) : SessionEvent :=
  { type := "turn/start", seq, time := seq, data := .obj [("turn", SessionEvent.intField (seq + 1))] }

/-- A flush joins the barrier of another, whose first write does not have its event. -/
def joinedFlush : List (Action SessionEvent String) :=
  [.enqueue (turnStart 0), .flush, .write 1 .called, .enqueue (turnStart 1), .flush,
    .write 1 .succeeded, .write 1 .finallyJob, .resumeDrain, .write 2 .called, .write 2 .succeeded,
    .write 2 .finallyJob, .resumeDrain]

theorem exec_writeBehind_joinedFlush : ∃ s, Machine.exec step {} joinedFlush = some s ∧ s.resolved = [1, 2] ∧
    ∀ n ∈ s.resolved, [turnStart 0, turnStart 1].take n <+: s.written.flatten := by
  have hrun : ∃ s, Machine.exec step {} joinedFlush = some s ∧ s.resolved = [1, 2] ∧
      s.enqueued = [turnStart 0, turnStart 1] := ⟨_, rfl, rfl, rfl⟩
  obtain ⟨s, hexec, hresolved, henqueued⟩ := hrun
  exact ⟨s, hexec, hresolved, henqueued ▸ (exec_writeBehind hexec).2.2.1⟩

def overBudgetTail : List (Action SessionEvent String) :=
  [.enqueue (turnStart 0), .deadline 0, .write 1 .called, .enqueue (turnStart 1), .deadline 2,
    .write 1 .succeeded, .write 1 .finallyJob]

/-- Between `finally` and the continuation, the tail is pending without timer, write or recorded failure. -/
theorem overBudgetTail_gap : ∃ s, Machine.exec step {} overBudgetTail = some s ∧
    s.pending = [turnStart 1] ∧ s.timer = none ∧ s.timeouts = [] ∧ s.active = none ∧
    s.writes = [] ∧ s.automaticPaused = false :=
  ⟨_, rfl, rfl, rfl, rfl, rfl, rfl, rfl⟩

end CocoHarness.Persistence
