/-
# CocoHarness.Agent.DriverSteps — what one action of the driver's world does.

`step_takes` says of every action where it is enabled and what it leads to.  What others do (`Around`)
leaves the turn being run alone: it may log splices, abort the signal, and start a driver where none runs,
which is where the phase is not running (`Steady`).
-/
import CocoHarness.Agent.Driver

namespace CocoHarness.Agent

open Lib Lib.SafeInteger SessionLog

variable {Result : Type}

/-! ## Splices -/

def DriverEvent.quiet : DriverEvent → Bool
  | .spliced _ _ _ _ _ | .other => true
  | _ => false

namespace Driver

variable {s s' : Driver Result}

theorem mutate_eq_ok {target : InboxTarget} {start deleteCount : JsNumber} {inserted : List MessageId}
    {discardRemoved : Bool} {appended : Except JsError Unit}
    (h : s.mutate target start deleteCount inserted discardRemoved appended = .ok s') :
    ∃ events : List DriverEvent, (∀ event ∈ events, event.quiet = true) ∧
      s' = { s.did (events.map .appended) with inbox := s'.inbox } := by
  unfold mutate at h
  dsimp only at h
  split at h
  · cases h
    exact ⟨[], by simp, by simp [did]⟩
  · split at h
    · cases h
    · cases appended with
      | error error => cases h
      | ok _ =>
        cases h
        exact ⟨[.spliced _ _ _ _ _], by simp [DriverEvent.quiet], rfl⟩

def Spliced (s s' : Driver Result) : Prop :=
  ∃ events : List DriverEvent, (∀ event ∈ events, event.quiet = true) ∧
    s' = { s.did (events.map .appended) with inbox := s'.inbox }

theorem Spliced.refl (s : Driver Result) : s.Spliced s := ⟨[], by simp, by simp [did]⟩

theorem Spliced.trans {t : Driver Result} (h : s.Spliced s') (h' : s'.Spliced t) : s.Spliced t := by
  obtain ⟨events, hquiet, heq⟩ := h
  obtain ⟨events', hquiet', heq'⟩ := h'
  refine ⟨events ++ events', fun event hmem => ?_, ?_⟩
  · rcases List.mem_append.mp hmem with hold | hnew
    · exact hquiet event hold
    · exact hquiet' event hnew
  · rw [heq', heq]
    simp [did]

theorem claim_spliced (s : Driver Result) (steps turns : Except JsError Unit) : s.Spliced (s.claim steps turns).1 := by
  unfold claim
  split
  · exact .refl s
  · next claimed hfirst =>
    have hclaimed : s.Spliced claimed := mutate_eq_ok hfirst
    split
    · exact hclaimed
    · split
      · exact hclaimed
      · next both hsecond => exact hclaimed.trans (mutate_eq_ok hsecond)

/-! ## What others do -/

def Steady (s : Driver Result) : Prop := s.phase.kind = .running ↔ s.point ≠ .rest

/-- Where the driver is stays, though its tools may see an abort. -/
inductive SamePoint : DriverPoint Result → DriverPoint Result → Prop where
  | same (point : DriverPoint Result) : SamePoint point point
  | signalled (scheduler : Scheduler Result) :
      SamePoint (.tools scheduler) (.tools { scheduler with signalAborted := true })

/-- **What others leave alone.**  A driver goes on where it is, and where none runs one may be started. -/
structure Around (s s' : Driver Result) : Prop where
  moments : ∃ events : List DriverEvent, (∀ event ∈ events, event.quiet = true) ∧
    s'.moments = s.moments ++ events.map .appended
  turn : s'.phase.turn = s.phase.turn
  turnEnds : s'.turnEnds = s.turnEnds
  point : (SamePoint s.point s'.point ∧ (s'.phase.kind = .running ↔ s.phase.kind = .running)
      ∧ (s.phase.kind = .running → s'.phase.step = s.phase.step))
    ∨ s.phase.kind ≠ .running ∧ s'.phase.kind = .running ∧ s'.point = .begin ∧ s'.phase.step = 0

theorem Around.refl (s : Driver Result) : s.Around s :=
  ⟨⟨[], by simp, by simp⟩, rfl, rfl, .inl ⟨.same _, Iff.rfl, fun _ => rfl⟩⟩

theorem Spliced.around (h : s.Spliced s') : s.Around s' := by
  obtain ⟨events, hquiet, heq⟩ := h
  rw [heq]
  exact ⟨⟨events, hquiet, rfl⟩, rfl, rfl, .inl ⟨.same _, Iff.rfl, fun _ => rfl⟩⟩

theorem SamePoint.trans {p q r : DriverPoint Result} (h : SamePoint p q) (h' : SamePoint q r) : SamePoint p r := by
  cases h with
  | same => exact h'
  | signalled scheduler =>
    cases h' with
    | same | signalled => exact .signalled scheduler

theorem Around.trans {t : Driver Result} (h : s.Around s') (h' : s'.Around t)
    (hkind : s'.phase.kind = .running → s.phase.kind = .running) : s.Around t := by
  obtain ⟨⟨events, hquiet, hmoments⟩, hturn, hends, hpoint⟩ := h
  obtain ⟨⟨events', hquiet', hmoments'⟩, hturn', hends', hpoint'⟩ := h'
  refine ⟨⟨events ++ events', fun event hmem => ?_, ?_⟩, hturn'.trans hturn, hends'.trans hends, ?_⟩
  · rcases List.mem_append.mp hmem with hold | hnew
    · exact hquiet event hold
    · exact hquiet' event hnew
  · rw [hmoments', hmoments, List.map_append, List.append_assoc]
  · rcases hpoint with ⟨hsame, hiff, hstep⟩ | ⟨hidle, hstarted, -⟩
    · rcases hpoint' with ⟨hsame', hiff', hstep'⟩ | ⟨hidle', hstarted, hbegin, hzero⟩
      · exact .inl ⟨hsame.trans hsame', hiff'.trans hiff, fun hrunning =>
          (hstep' (hiff.mpr hrunning)).trans (hstep hrunning)⟩
      · exact .inr ⟨fun hrunning => hidle' (hiff.mpr hrunning), hstarted, hbegin, hzero⟩
    · exact absurd (hkind hstarted) hidle

theorem latch_around (s : Driver Result) (wakeRequested : Bool) :
    s.Around { s with phase := { s.phase with wakeRequested } } :=
  ⟨⟨[], by simp, by simp⟩, rfl, rfl, .inl ⟨.same _, Iff.rfl, fun _ => rfl⟩⟩

theorem wakeDriver_around (s : Driver Result) (wakeAfterAbort : Bool) : s.Around (s.wakeDriver wakeAfterAbort) := by
  have hstay := latch_around s true
  unfold wakeDriver
  split
  · next hidle => exact ⟨⟨[], by simp, by simp⟩, rfl, rfl, .inr ⟨by simp [hidle], rfl, rfl, rfl⟩⟩
  · split
    · exact hstay
    · exact .refl s
  · split
    · exact hstay
    · exact .refl s

theorem abort_around (s : Driver Result) (cause : CancelCause) : s.Around (s.abort cause) := by
  refine ⟨⟨[], by simp, by simp [abort]⟩, rfl, rfl, .inl ⟨?_, Iff.rfl, fun _ => rfl⟩⟩
  cases hpoint : s.point <;> simp only [abort, hpoint]
  case tools scheduler => exact .signalled scheduler
  all_goals exact .same _

theorem clearList_spliced (s : Driver Result) (target : InboxTarget) : s.Spliced (s.clearList target) := by
  unfold clearList
  split
  · next hcleared => exact mutate_eq_ok hcleared
  · exact .refl s

theorem clear_spliced (s : Driver Result) : s.Spliced s.clear :=
  (clearList_spliced s .nextStep).trans (clearList_spliced _ .nextTurn)

theorem Spliced.phase (h : s.Spliced s') : s'.phase = s.phase := by
  obtain ⟨events, -, heq⟩ := h
  rw [heq]
  rfl

theorem cancel_around (s : Driver Result) (cause : CancelCause) (keepInbox : Bool) :
    s.Around (s.cancel cause keepInbox) := by
  unfold cancel
  cases keepInbox with
  | true =>
    simp only [↓reduceIte]
    split
    · exact .refl s
    · exact abort_around s cause
  | false =>
    have hcleared := clear_spliced s
    have hkind : s.clear.phase.kind = .running → s.phase.kind = .running := fun h => hcleared.phase ▸ h
    simp only [Bool.false_eq_true, ↓reduceIte]
    split
    · exact hcleared.around
    · exact (hcleared.around.trans (latch_around _ false) hkind).trans (abort_around _ cause) hkind

theorem send_around (s : Driver Result) (message : MessageId) (target : InboxTarget) (wakeup : Bool)
    (appended : Except JsError Unit) : s.Around (s.send message target wakeup appended) := by
  unfold send
  dsimp only
  split
  · exact .refl s
  · next sent hsent =>
    have hspliced : s.Spliced sent := mutate_eq_ok hsent
    split
    · exact { hspliced.around with }
    · exact hspliced.around

theorem replay_around (s : Driver Result) (wakeRequested : Bool) : s.Around (s.replay wakeRequested) := by
  unfold replay
  dsimp only
  split
  · exact { wakeDriver_around { s with converging := none } false with }
  · exact ⟨⟨[], by simp, by simp⟩, rfl, rfl, .inl ⟨.same _, Iff.rfl, fun _ => rfl⟩⟩

variable {act : DriverAct Result}

theorem step_around (houtside : act.outside = true) (h : s.step act = some s') : s.Around s' := by
  cases act with
  | replay =>
    obtain ⟨wakeRequested, -, rfl⟩ := Option.map_eq_some_iff.mp h
    exact replay_around s wakeRequested
  | send message target wakeup appended =>
    cases h
    exact send_around s message target wakeup appended
  | wake =>
    simp only [step] at h
    split at h
    · cases h
    · next wakingAfterAbort rest _ =>
      cases h
      exact { wakeDriver_around { s with wakes := rest } wakingAfterAbort with }
  | splice target start deleteCount inserted appended =>
    simp only [step] at h
    split at h
    · next spliced hspliced =>
      cases h
      exact Spliced.around (mutate_eq_ok hspliced)
    · cases h
      exact .refl s
  | cancel cause keepInbox =>
    cases h
    exact cancel_around s cause keepInbox
  | maintain =>
    obtain ⟨hidle, h⟩ := Option.ite_none_right_eq_some.mp h
    cases h
    exact ⟨⟨[], by simp, by simp⟩, rfl, rfl, .inl ⟨.same _, by simp [hidle], by simp [hidle]⟩⟩
  | maintained =>
    obtain ⟨hmaintenance, h⟩ := Option.ite_none_right_eq_some.mp h
    cases h
    have hidle : s.Around { s with phase := { kind := .idle, turn := s.phase.turn } } :=
      ⟨⟨[], by simp, by simp⟩, rfl, rfl, .inl ⟨.same _, by simp [hmaintenance], by simp [hmaintenance]⟩⟩
    split
    · exact hidle.trans (wakeDriver_around _ false) nofun
    · exact hidle
  | other =>
    cases h
    exact ⟨⟨[.other], by simp [DriverEvent.quiet], rfl⟩, rfl, rfl, .inl ⟨.same _, Iff.rfl, fun _ => rfl⟩⟩
  | _ => cases houtside

/-! ## What the driver does -/

def Takes (s : Driver Result) (act : DriverAct Result) (s' : Driver Result) : Prop :=
  match act with
  | .begin appended => s.point = .begin ∧ s' = s.begin appended
  | .head steps turns => s.point = .head ∧ s' = s.head steps turns
  | .decided decision opened ended => (∃ claimed, s.point = .preStep claimed) ∧ s' = s.decided decision opened ended
  | .enter appended => ∃ messages, s.point = .entering messages ∧ s' = s.enter messages appended
  | .build prepared header context => s.point = .building ∧ s' = s.build prepared header context
  | .dispatch opened => s.point = .dispatching ∧ s' = s.dispatch opened
  | .chunk appended => s.point = .streaming ∧ s' = s.chunk appended
  | .broken error => s.point = .streaming ∧ s' = s.close (.error error)
  | .finish finish toolCalls appended => s.point = .streaming ∧ s' = s.finish finish toolCalls appended
  | .recovered retry => ∃ error, s.point = .recovering error ∧ s' = s.recovered error retry
  | .tool act => ∃ scheduler scheduler', s.point = .tools scheduler ∧
      scheduler.step act = some scheduler' ∧ s' = s.schedule scheduler scheduler'
  | .scheduled => ∃ scheduler, s.point = .tools scheduler ∧ s.scheduled scheduler = some s'
  | .closeStep appended => ∃ outcome, s.point = .closing outcome ∧ s' = s.closeStep outcome appended
  | .boundary => ∃ outcome, s.point = .closed outcome ∧ s' = s.boundary outcome
  | .stopped outcome ended => s.point = .stopping ∧ s' = s.stopped outcome ended
  | .caught => ∃ error, s.point = .caught error ∧ s' = s.goto (.failing (s.failure error))
  | .fail appended => ∃ reason, s.point = .failing reason ∧ s' = s.endTurn reason .leaving appended
  | .look => s.point = .ended ∧ s' = s.look
  | .leave => s.point = .leaving ∧ s' = s.leave
  | _ => s.Around s'

/-- **What an action comes to.** -/
theorem step_takes (h : s.step act = some s') : s.Takes act s' := by
  cases act with
  | tool act =>
    simp only [step] at h
    split at h
    · next scheduler hpoint =>
      split at h
      · cases h
      · cases h
      · obtain ⟨scheduler', hstep, rfl⟩ := Option.map_eq_some_iff.mp h
        exact ⟨scheduler, scheduler', hpoint, hstep, rfl⟩
    · cases h
  | scheduled =>
    simp only [step] at h
    split at h
    · next scheduler hpoint => exact ⟨scheduler, hpoint, h⟩
    · cases h
  | replay | send message target wakeup appended | wake | splice target start deleteCount inserted appended
  | cancel cause keepInbox | maintain | maintained | other => exact step_around rfl h
  | _ =>
    simp only [step] at h
    split at h
    · have heq := (Option.some.inj h).symm
      first
        | exact ⟨‹_›, heq⟩
        | exact ⟨⟨_, ‹_›⟩, heq⟩
        | exact ⟨_, ‹_›, heq⟩
    · cases h

/-! ## Where a driver runs -/

theorem SamePoint.rest {p q : DriverPoint Result} (h : SamePoint p q) : q = .rest ↔ p = .rest := by
  cases h with
  | same => exact Iff.rfl
  | signalled scheduler => constructor <;> nofun

theorem Around.steady (h : s.Around s') (hs : s.Steady) : s'.Steady := by
  rcases h.point with ⟨hsame, hkind, -⟩ | ⟨-, hrunning, hbegin, -⟩
  · exact hkind.trans (hs.trans (not_congr hsame.rest.symm))
  · exact ⟨fun _ => by simp [hbegin], fun _ => hrunning⟩

@[simp] theorem keep_phase (s : Driver Result) (outcome : Except JsError (Option StepEndReason)) :
    (s.keep outcome).phase = s.phase := by
  unfold keep
  split
  · split <;> rfl
  · rfl

@[simp] theorem keep_moments (s : Driver Result) (outcome : Except JsError (Option StepEndReason)) :
    (s.keep outcome).moments = s.moments := by
  unfold keep
  split
  · split <;> rfl
  · rfl

structure Goes (s s' : Driver Result) : Prop where
  kind : s'.phase.kind = s.phase.kind
  awake : s'.point ≠ .rest
  stays : s'.point ≠ .leaving

theorem goes_close (s : Driver Result) (outcome : Except JsError (Option StepEndReason)) :
    s.Goes (s.close outcome) := ⟨rfl, nofun, nofun⟩

theorem goes_throws (s : Driver Result) (error : JsError) : s.Goes (s.throws error) := ⟨rfl, nofun, nofun⟩

theorem goes_head (s : Driver Result) (steps turns : Except JsError Unit) : s.Goes (s.head steps turns) := by
  have hphase := (claim_spliced s steps turns).phase
  unfold head
  split
  · exact goes_throws s _
  · split
    · next hclaim =>
      rw [hclaim] at hphase
      exact ⟨congrArg Phase.kind hphase, nofun, nofun⟩
    · next hclaim =>
      rw [hclaim] at hphase
      exact ⟨congrArg Phase.kind hphase, nofun, nofun⟩

theorem goes_enter (s : Driver Result) (messages : List MessageId) (appended : Except JsError Unit) :
    s.Goes (s.enter messages appended) := by
  unfold enter
  split
  · split
    · exact goes_close s _
    · exact ⟨rfl, nofun, nofun⟩
  · split
    · exact goes_close s _
    · exact ⟨rfl, nofun, nofun⟩

theorem goes_build (s : Driver Result) (prepared : Except JsError Unit)
    (header context : Option (Except JsError Unit)) : s.Goes (s.build prepared header context) := by
  unfold build
  split
  · exact goes_close s _
  · split
    · exact goes_close s _
    · split <;> exact ⟨rfl, nofun, nofun⟩

theorem goes_dispatch (s : Driver Result) (opened : Except JsError Unit) : s.Goes (s.dispatch opened) := by
  unfold dispatch
  split
  · exact goes_close s _
  · split
    · exact goes_close s _
    · exact ⟨rfl, nofun, nofun⟩

theorem goes_chunk (h : s.point = .streaming) (appended : Except JsError Unit) : s.Goes (s.chunk appended) := by
  unfold chunk
  split
  · exact goes_close s _
  · split
    · exact goes_close s _
    · -- the driver stays at the stream
      refine ⟨rfl, ?_, ?_⟩ <;>
        · show s.point ≠ _
          rw [h]
          nofun

theorem goes_finish (s : Driver Result) (finish : FinishReason) (toolCalls : List ToolCallBlock)
    (appended : Except JsError Unit) : s.Goes (s.finish finish toolCalls appended) := by
  unfold Driver.finish
  split
  · exact goes_close s _
  · split
    · exact ⟨rfl, nofun, nofun⟩
    · exact goes_close s _
    · exact ⟨rfl, nofun, nofun⟩
    · dsimp only
      split <;> exact ⟨rfl, nofun, nofun⟩

theorem goes_recovered (s : Driver Result) (failure : JsError) (retry : Except JsError Bool) :
    s.Goes (s.recovered failure retry) := by
  unfold recovered
  split
  · exact goes_close s _
  · split
    · exact goes_close s _
    · split
      · exact ⟨rfl, nofun, nofun⟩
      · exact goes_close s _

theorem goes_scheduled {scheduler : Scheduler Result} (h : s.scheduled scheduler = some s') : s.Goes s' := by
  unfold Driver.scheduled at h
  split at h
  · split at h <;>
      · cases h
        exact ⟨rfl, nofun, nofun⟩
  · cases h
    exact goes_close s _
  · cases h

theorem goes_closeStep (s : Driver Result) (outcome : Except JsError (Option StepEndReason))
    (appended : Except JsError Unit) : s.Goes (s.closeStep outcome appended) := by
  cases appended <;> exact ⟨congrArg Phase.kind (keep_phase s outcome), nofun, nofun⟩

theorem goes_boundary (s : Driver Result) (outcome : Except JsError Unit) : s.Goes (s.boundary outcome) := by
  unfold boundary
  split
  · exact goes_throws s _
  · split
    · exact goes_throws s _
    · split <;> exact ⟨rfl, nofun, nofun⟩

/-- The actions within a turn, which end neither it nor the driver. -/
def within : DriverAct Result → Bool
  | .head _ _ | .enter _ | .build _ _ _ | .dispatch _ | .chunk _ | .broken _ | .finish _ _ _
  | .recovered _ | .tool _ | .scheduled | .closeStep _ | .boundary | .caught => true
  | _ => false

theorem Takes.goes (h : s.Takes act s') (hwithin : within act = true) : s.Goes s' := by
  cases act with
  | head steps turns =>
    obtain ⟨-, rfl⟩ := h
    exact goes_head s steps turns
  | enter appended =>
    obtain ⟨messages, -, rfl⟩ := h
    exact goes_enter s messages appended
  | build prepared header context =>
    obtain ⟨-, rfl⟩ := h
    exact goes_build s prepared header context
  | dispatch opened =>
    obtain ⟨-, rfl⟩ := h
    exact goes_dispatch s opened
  | chunk appended =>
    obtain ⟨hpoint, rfl⟩ := h
    exact goes_chunk hpoint appended
  | broken error =>
    obtain ⟨-, rfl⟩ := h
    exact goes_close s _
  | finish finish toolCalls appended =>
    obtain ⟨-, rfl⟩ := h
    exact goes_finish s finish toolCalls appended
  | recovered retry =>
    obtain ⟨error, -, rfl⟩ := h
    exact goes_recovered s error retry
  | tool act =>
    obtain ⟨scheduler, scheduler', -, -, rfl⟩ := h
    exact ⟨rfl, nofun, nofun⟩
  | scheduled =>
    obtain ⟨scheduler, -, h⟩ := h
    exact goes_scheduled h
  | closeStep appended =>
    obtain ⟨outcome, -, rfl⟩ := h
    exact goes_closeStep s outcome appended
  | boundary =>
    obtain ⟨outcome, -, rfl⟩ := h
    exact goes_boundary s outcome
  | caught =>
    obtain ⟨error, -, rfl⟩ := h
    exact ⟨rfl, nofun, nofun⟩
  | _ => cases hwithin

/-! ## Where a turn ends -/

def Runs (s s' : Driver Result) : Prop := s'.phase.kind = s.phase.kind ∧ s'.point ≠ .rest

theorem Goes.runs (h : s.Goes s') : s.Runs s' := ⟨h.kind, h.awake⟩

theorem runs_endTurn (s : Driver Result) (reason : TurnEndReason) (next : DriverPoint Result)
    (h : next ≠ .rest) (appended : Except JsError Unit) : s.Runs (s.endTurn reason next appended) := by
  cases appended with
  | error error => exact ⟨rfl, nofun⟩
  | ok _ => exact ⟨rfl, h⟩

theorem runs_begin (s : Driver Result) (appended : Except JsError Unit) : s.Runs (s.begin appended) := by
  unfold begin
  split
  · exact ⟨rfl, nofun⟩
  · split <;> exact ⟨rfl, nofun⟩

theorem goes_openStep (s : Driver Result) (messages : List MessageId) (appended : Except JsError Unit) :
    s.Goes (s.openStep messages appended) := by
  cases appended <;> exact ⟨rfl, nofun, nofun⟩

theorem runs_decided (s : Driver Result) (decision : Except JsError PreStepDecision)
    (opened ended : Except JsError Unit) : s.Runs (s.decided decision opened ended) := by
  unfold decided
  split
  · exact (goes_throws s _).runs
  · split
    · exact (goes_throws s _).runs
    · split
      · exact runs_endTurn s .blocked .leaving nofun ended
      · split
        · exact runs_endTurn s _ .ended nofun ended
        · split
          · exact runs_endTurn s .completed .leaving nofun ended
          · exact (goes_openStep s _ opened).runs

theorem runs_stopped (s : Driver Result) (outcome ended : Except JsError Unit) : s.Runs (s.stopped outcome ended) := by
  unfold stopped
  split
  · exact (goes_throws s _).runs
  · split
    · exact (goes_throws s _).runs
    · split
      · exact runs_endTurn s _ .ended nofun ended
      · exact ⟨rfl, nofun⟩

theorem runs_look (s : Driver Result) : s.Runs s.look := by
  unfold look
  split <;> exact ⟨rfl, nofun⟩

theorem Takes.runs (h : s.Takes act s') (hown : act.outside = false) :
    s.Runs s' ∨ act = .leave ∧ s.point = .leaving ∧ s' = s.leave := by
  cases act with
  | begin appended =>
    obtain ⟨-, rfl⟩ := h
    exact .inl (runs_begin s appended)
  | decided decision opened ended =>
    obtain ⟨-, rfl⟩ := h
    exact .inl (runs_decided s decision opened ended)
  | stopped outcome ended =>
    obtain ⟨-, rfl⟩ := h
    exact .inl (runs_stopped s outcome ended)
  | fail appended =>
    obtain ⟨reason, -, rfl⟩ := h
    exact .inl (runs_endTurn s reason .leaving nofun appended)
  | look =>
    obtain ⟨-, rfl⟩ := h
    exact .inl (runs_look s)
  | leave => exact .inr ⟨rfl, h⟩
  | replay | send | wake | splice | cancel | maintain | maintained | other => cases hown
  | _ => exact .inl (Takes.goes h rfl).runs

theorem Takes.awake (h : s.Takes act s') (hown : act.outside = false) : s.point ≠ .rest := by
  intro hrest
  cases act <;> simp [Takes, hrest, DriverAct.outside] at h hown

theorem Steady.step (hs : s.Steady) (h : s.step act = some s') : s'.Steady := by
  have htakes := step_takes h
  cases hown : act.outside with
  | true => exact (step_around hown h).steady hs
  | false =>
    rcases htakes.runs hown with ⟨hkind, hpoint⟩ | ⟨-, -, rfl⟩
    · exact ⟨fun _ => hpoint, fun _ => hkind.trans (hs.mpr (htakes.awake hown))⟩
    · exact ⟨nofun, fun h => absurd rfl h⟩

theorem steady_init (maxParallelToolCalls : Nat) (lastTurn : Int) (inbox : Queues) :
    Steady (init maxParallelToolCalls lastTurn inbox : Driver Result) := ⟨nofun, fun h => absurd rfl h⟩

/-! ## The beginning of a run -/

def prompted : List (DriverAct String) :=
  [.send "m" .nextTurn true (.ok ()), .wake, .begin (.ok ()), .head (.ok ()) (.ok ()),
    .decided (.ok (.enter ["m"])) (.ok ()) (.ok ())]

def asked : List (DriverAct String) :=
  [.enter (.ok ()), .enter (.ok ()), .build (.ok ()) none none, .dispatch (.ok ())]

end Driver

end CocoHarness.Agent
