/-
# CocoHarness.Agent.DriverBoundaries — what the driver logs is well bracketed.

At every point the driver knows what is open (`Bounds`), and each of its steps appends what the session
machine expects there.  Only a `step/end` or a `turn/end` that the session refuses, or two calls of one id
in a message, break it.
-/
import CocoHarness.Agent.DriverSteps
import CocoHarness.Agent.DriverTrace
import CocoHarness.SessionLog.RepairInvariant

namespace CocoHarness.Agent

open Lib Lib.SafeInteger SessionLog List

variable {Result : Type}

/-! ## What is open where the driver is -/

def eventsOf (moments : List Moment) : List DriverEvent :=
  moments.filterMap fun
    | .appended event => some event
    | _ => none

@[simp] theorem eventsOf_append (moments moments' : List Moment) :
    eventsOf (moments ++ moments') = eventsOf moments ++ eventsOf moments' := filterMap_append ..

@[simp] theorem eventsOf_appended (events : List DriverEvent) :
    eventsOf (events.map .appended) = events := by
  induction events with
  | nil => rfl
  | cons event events ih => exact congrArg (event :: ·) ih

namespace Driver

variable {s s' : Driver Result} {trace trace' : SessionTrace}

structure BetweenTurns (s : Driver Result) (trace : SessionTrace) : Prop where
  openTurn : trace.openTurn = none
  openStep : trace.openStep = none
  nextTurn : trace.nextTurn = fadd s.phase.turn 1
  pendingCalls : trace.pendingCalls = ∅

structure BetweenSteps (s : Driver Result) (trace : SessionTrace) : Prop where
  openTurn : trace.openTurn = some (.int s.phase.turn)
  openStep : trace.openStep = none
  nextTurn : trace.nextTurn = s.phase.turn
  nextStep : trace.nextStep = fadd s.phase.step 1
  pendingCalls : trace.pendingCalls = ∅

structure InStep (s : Driver Result) (trace : SessionTrace) : Prop where
  opened : trace.Open (.int s.phase.turn) (.int s.phase.step)
  nextTurn : trace.nextTurn = s.phase.turn
  nextStep : trace.nextStep = s.phase.step

def Bounds (s : Driver Result) (trace : SessionTrace) : Prop :=
  match s.point with
  | .rest | .leaving | .ended => s.BetweenTurns trace
  | .begin => s.BetweenTurns trace ∧ s.phase.step = 0
  | .head | .preStep _ | .closed _ | .stopping | .caught _ | .failing _ => s.BetweenSteps trace
  | .entering _ | .building | .dispatching | .streaming | .recovering _ => s.InStep trace ∧ trace.pendingCalls = ∅
  | .tools scheduler => s.InStep trace ∧ scheduler.Inv
      ∧ (scheduler.planned.map (·.id)).Nodup ∧ trace.pendingCalls = scheduler.openIds.toFinset
  | .closing _ => s.InStep trace

def Follows (start : SessionTrace) (s : Driver Result) : Prop :=
  ∃ trace, (eventsOf s.moments).foldlM follow start = some trace ∧ s.Bounds trace

/-- The session takes the ends of steps and turns, and no message asks for two calls of one id. -/
def bracketed : DriverAct Result → Bool
  | .decided _ _ (.error _) | .stopped _ (.error _) | .fail (.error _) | .closeStep (.error _) => false
  | .finish .stop toolCalls _ => (toolCalls.map (·.id)).Nodup
  | _ => true

/-! ## Steps -/

variable {start : SessionTrace} {events : List DriverEvent}

theorem Follows.extend (htrace : (eventsOf s.moments).foldlM follow start = some trace)
    (hmoments : eventsOf s'.moments = eventsOf s.moments ++ events)
    (hevents : events.foldlM follow trace = some trace') (hbounds : s'.Bounds trace') :
    Follows start s' := by
  refine ⟨trace', ?_, hbounds⟩
  rw [hmoments, foldlM_append, htrace]
  exact hevents

theorem Follows.stay (htrace : (eventsOf s.moments).foldlM follow start = some trace)
    (hmoments : s'.moments = s.moments) (hbounds : s'.Bounds trace) : Follows start s' :=
  ⟨trace, hmoments ▸ htrace, hbounds⟩

theorem foldlM_quiet (h : ∀ event ∈ events, event.quiet = true)
    (trace : SessionTrace) : events.foldlM follow trace = some trace := by
  induction events with
  | nil => rfl
  | cons event events ih =>
    have hfollow : follow trace event = some trace := by
      have hquiet := h event mem_cons_self
      cases event <;> first | rfl | cases hquiet
    rw [foldlM_cons, hfollow]
    exact ih fun event' hmem => h event' (mem_cons_of_mem event hmem)

theorem BetweenTurns.congr (h : s.BetweenTurns trace) (hturn : s'.phase.turn = s.phase.turn) :
    s'.BetweenTurns trace := ⟨h.openTurn, h.openStep, hturn ▸ h.nextTurn, h.pendingCalls⟩

theorem BetweenSteps.congr (h : s.BetweenSteps trace) (hturn : s'.phase.turn = s.phase.turn)
    (hstep : s'.phase.step = s.phase.step) : s'.BetweenSteps trace :=
  ⟨hturn ▸ h.openTurn, h.openStep, hturn ▸ h.nextTurn, hstep ▸ h.nextStep, h.pendingCalls⟩

theorem InStep.congr (h : s.InStep trace) (hturn : s'.phase.turn = s.phase.turn)
    (hstep : s'.phase.step = s.phase.step) : s'.InStep trace :=
  ⟨hturn ▸ hstep ▸ h.opened, hturn ▸ h.nextTurn, hstep ▸ h.nextStep⟩

theorem Around.bounds (h : s.Around s') (hsteady : s.Steady) (hbounds : s.Bounds trace) : s'.Bounds trace := by
  have hturn := h.turn
  rcases h.point with ⟨hsame, -, hstep⟩ | ⟨hidle, -, hbegin, hzero⟩
  · by_cases hrest : s.point = .rest
    · have hrest' := hsame.rest.mpr hrest
      simp only [Bounds, hrest, hrest'] at hbounds ⊢
      exact hbounds.congr hturn
    · have hstep := hstep (hsteady.mpr hrest)
      generalize hp : s.point = p at hsame
      generalize hq : s'.point = q at hsame
      cases hsame with
      | signalled scheduler =>
        simp only [Bounds, hp, hq] at hbounds ⊢
        obtain ⟨hin, hinv, hnodup, hpending⟩ := hbounds
        exact ⟨hin.congr hturn hstep, hinv.abort, hnodup, hpending⟩
      | same =>
        cases p <;> simp only [Bounds, hp, hq] at hbounds ⊢
        case begin => exact ⟨hbounds.1.congr hturn, hstep.trans hbounds.2⟩
        case tools => exact ⟨hbounds.1.congr hturn hstep, hbounds.2⟩
        all_goals first
          | exact BetweenTurns.congr hbounds hturn
          | exact BetweenSteps.congr hbounds hturn hstep
          | exact InStep.congr hbounds hturn hstep
          | exact ⟨hbounds.1.congr hturn hstep, hbounds.2⟩
  · have hrest : s.point = .rest := by
      by_contra hrest
      exact hidle (hsteady.mpr hrest)
    simp only [Bounds, hrest, hbegin] at hbounds ⊢
    exact ⟨hbounds.congr hturn, hzero⟩

theorem Around.follows (h : s.Around s') (hsteady : s.Steady) (hs : Follows start s) : Follows start s' := by
  obtain ⟨trace, htrace, hbounds⟩ := hs
  obtain ⟨events, hquiet, hmoments⟩ := h.moments
  refine .extend htrace ?_ (foldlM_quiet hquiet trace) (h.bounds hsteady hbounds)
  rw [hmoments, eventsOf_append, eventsOf_appended]

section Own

variable {start : SessionTrace} (htrace : (eventsOf s.moments).foldlM follow start = some trace)
include htrace

theorem BetweenSteps.throws (h : s.BetweenSteps trace) (error : JsError) :
    Follows start (s.throws error) := .stay htrace rfl { h with }

theorem BetweenSteps.endTurn (h : s.BetweenSteps trace) (reason : TurnEndReason)
    {next : DriverPoint Result} (hnext : next = .leaving ∨ next = .ended) :
    Follows start (s.endTurn reason next (.ok ())) := by
  have hfollow := follow_turnEnd h.openTurn h.openStep reason
  refine .extend htrace (eventsOf_append _ _) (foldlM_cons.trans (by rw [hfollow]; rfl)) ?_
  have hbetween : BetweenTurns s { trace with openTurn := none, nextTurn := fadd trace.nextTurn 1 } :=
    ⟨rfl, h.openStep, congrArg (fadd · 1) h.nextTurn, h.pendingCalls⟩
  rcases hnext with rfl | rfl <;> exact { hbetween with }

theorem BetweenSteps.openStep' (h : s.BetweenSteps trace) (messages : List MessageId)
    (appended : Except JsError Unit) : Follows start (s.openStep messages appended) := by
  cases appended with
  | error error => exact h.throws htrace error
  | ok _ =>
    have hfollow := follow_stepStart h.openTurn h.openStep h.nextStep.symm
    refine .extend htrace (eventsOf_append _ _) (foldlM_cons.trans (by rw [hfollow]; rfl)) ?_
    exact ⟨⟨⟨h.openTurn, rfl⟩, h.nextTurn, h.nextStep⟩, h.pendingCalls⟩

theorem InStep.close (h : s.InStep trace) (outcome : Except JsError (Option StepEndReason)) :
    Follows start (s.close outcome) := .stay htrace rfl { h with }

theorem InStep.append {point : DriverPoint Result} {event : DriverEvent} (hfollow : follow trace event = some trace)
    (hbounds : ((s.append event).goto point).Bounds trace) :
    Follows start ((s.append event).goto point) :=
  .extend htrace (eventsOf_append _ _) (foldlM_cons.trans (by rw [hfollow]; rfl)) hbounds

end Own

section Own

variable {start : SessionTrace}

theorem Follows.begin (hs : Follows start s) (hpoint : s.point = .begin)
    (appended : Except JsError Unit) : Follows start (s.begin appended) := by
  obtain ⟨trace, htrace, hbounds⟩ := hs
  simp only [Bounds, hpoint] at hbounds
  obtain ⟨hbetween, hzero⟩ := hbounds
  have hleaving : Follows start (s.goto .leaving) := .stay htrace rfl { hbetween with }
  unfold Driver.begin
  split
  · exact hleaving
  · split
    · exact hleaving
    · have hfollow := follow_turnStart hbetween.openTurn hbetween.nextTurn.symm
      refine .extend htrace (eventsOf_append _ _) (foldlM_cons.trans (by rw [hfollow]; rfl)) ?_
      refine ⟨rfl, hbetween.openStep, hbetween.nextTurn, ?_, hbetween.pendingCalls⟩
      show 1 = fadd s.phase.step 1
      rw [hzero]
      rfl

theorem Follows.head (hs : Follows start s) (hpoint : s.point = .head)
    (steps turns : Except JsError Unit) : Follows start (s.head steps turns) := by
  obtain ⟨trace, htrace, hbounds⟩ := hs
  simp only [Bounds, hpoint] at hbounds
  obtain ⟨events, hquiet, hclaim⟩ := claim_spliced s steps turns
  have hclaimed : (eventsOf (s.claim steps turns).1.moments).foldlM follow start = some trace := by
    rw [hclaim]
    show List.foldlM follow start (eventsOf (s.moments ++ events.map .appended)) = _
    rw [eventsOf_append, eventsOf_appended, foldlM_append, htrace]
    exact foldlM_quiet hquiet trace
  have hphase : (s.claim steps turns).1.phase = s.phase := by
    rw [hclaim]
    rfl
  have hbetween : (s.claim steps turns).1.BetweenSteps trace :=
    BetweenSteps.congr hbounds (congrArg Phase.turn hphase) (congrArg Phase.step hphase)
  unfold Driver.head
  split
  · exact BetweenSteps.throws htrace hbounds abortError
  · split
    · next s' error heq =>
      rw [heq] at hclaimed hbetween
      exact hbetween.throws hclaimed error
    · next s' claimed heq =>
      rw [heq] at hclaimed hbetween
      exact .stay hclaimed rfl { hbetween with }

theorem Follows.decided (hs : Follows start s) (hpoint : ∃ claimed, s.point = .preStep claimed)
    (decision : Except JsError PreStepDecision) (opened : Except JsError Unit) :
    Follows start (s.decided decision opened (.ok ())) := by
  obtain ⟨trace, htrace, hbounds⟩ := hs
  obtain ⟨claimed, hpoint⟩ := hpoint
  simp only [Bounds, hpoint] at hbounds
  unfold Driver.decided
  split
  · exact hbounds.throws htrace _
  · split
    · exact hbounds.throws htrace _
    · split
      · exact hbounds.endTurn htrace _ (.inl rfl)
      · split
        · exact hbounds.endTurn htrace _ (.inr rfl)
        · split
          · exact hbounds.endTurn htrace _ (.inl rfl)
          · exact hbounds.openStep' htrace _ opened

theorem Follows.enter (hs : Follows start s) {messages : List MessageId}
    (hpoint : s.point = .entering messages) (appended : Except JsError Unit) :
    Follows start (s.enter messages appended) := by
  obtain ⟨trace, htrace, hbounds⟩ := hs
  simp only [Bounds, hpoint] at hbounds
  obtain ⟨hin, hempty⟩ := hbounds
  unfold Driver.enter
  split
  · split
    · exact hin.close htrace _
    · exact .stay htrace rfl ⟨{ hin with }, hempty⟩
  · split
    · exact hin.close htrace _
    · exact InStep.append htrace rfl ⟨{ hin with }, hempty⟩

theorem Follows.build (hs : Follows start s) (hpoint : s.point = .building)
    (prepared : Except JsError Unit) (header context : Option (Except JsError Unit)) :
    Follows start (s.build prepared header context) := by
  obtain ⟨trace, htrace, hbounds⟩ := hs
  simp only [Bounds, hpoint] at hbounds
  obtain ⟨hin, hempty⟩ := hbounds
  have hrequest := follow_request hin.opened
  unfold Driver.build
  split
  · exact hin.close htrace _
  · split
    · exact hin.close htrace _
    · split
      · exact hin.close htrace _
      · exact InStep.append htrace hrequest { hin with }
      · exact hin.close htrace _
      · have hfirst : (eventsOf (s.append .request).moments).foldlM follow start = some trace := by
          show List.foldlM follow start (eventsOf (s.moments ++ [.appended .request])) = _
          rw [eventsOf_append, foldlM_append, htrace]
          show List.foldlM follow trace [.request] = some trace
          rw [foldlM_cons, hrequest]
          rfl
        exact InStep.append hfirst hrequest ⟨{ hin with }, hempty⟩
      · exact InStep.append htrace hrequest ⟨{ hin with }, hempty⟩
      · exact InStep.append htrace hrequest ⟨{ hin with }, hempty⟩
      · exact .stay htrace rfl ⟨{ hin with }, hempty⟩

theorem Follows.dispatch (hs : Follows start s) (hpoint : s.point = .dispatching)
    (opened : Except JsError Unit) : Follows start (s.dispatch opened) := by
  obtain ⟨trace, htrace, hbounds⟩ := hs
  simp only [Bounds, hpoint] at hbounds
  obtain ⟨hin, hempty⟩ := hbounds
  unfold Driver.dispatch
  split
  · exact hin.close htrace _
  · split
    · exact hin.close htrace _
    · exact .extend htrace (eventsOf_append _ _) rfl ⟨{ hin with }, hempty⟩

theorem Follows.chunk (hs : Follows start s) (hpoint : s.point = .streaming)
    (appended : Except JsError Unit) : Follows start (s.chunk appended) := by
  obtain ⟨trace, htrace, hbounds⟩ := hs
  simp only [Bounds, hpoint] at hbounds
  obtain ⟨hin, hempty⟩ := hbounds
  unfold Driver.chunk
  split
  · exact hin.close htrace _
  · split
    · exact hin.close htrace _
    · refine .extend htrace (eventsOf_append _ _)
        (foldlM_cons.trans (by rw [follow_assistantChunk hin.opened]; rfl)) ?_
      show Bounds (s.append _) trace
      simp only [Bounds, Driver.append, did, hpoint]
      exact ⟨{ hin with }, hempty⟩

theorem Follows.finish (hs : Follows start s) (hpoint : s.point = .streaming) (finish : FinishReason)
    (toolCalls : List ToolCallBlock) (appended : Except JsError Unit)
    (hnodup : finish = .stop → (toolCalls.map (·.id)).Nodup) :
    Follows start (s.finish finish toolCalls appended) := by
  obtain ⟨trace, htrace, hbounds⟩ := hs
  simp only [Bounds, hpoint] at hbounds
  obtain ⟨hin, hempty⟩ := hbounds
  unfold Driver.finish
  split
  · exact hin.close htrace _
  · split
    · exact .stay htrace rfl ⟨{ hin with }, hempty⟩
    · exact hin.close htrace _
    · exact InStep.append htrace (follow_assistantMessage hin.opened _ _) { hin with }
    · dsimp only
      split
      · exact InStep.append htrace (follow_assistantMessage hin.opened _ _) { hin with }
      · refine InStep.append htrace (follow_assistantMessage hin.opened _ _) ?_
        exact ⟨{ hin with }, Scheduler.inv_init _ _ 0, hnodup rfl, by rw [hempty]; rfl⟩

theorem Follows.recovered (hs : Follows start s) {failure : JsError}
    (hpoint : s.point = .recovering failure) (retry : Except JsError Bool) :
    Follows start (s.recovered failure retry) := by
  obtain ⟨trace, htrace, hbounds⟩ := hs
  simp only [Bounds, hpoint] at hbounds
  obtain ⟨hin, hempty⟩ := hbounds
  unfold Driver.recovered
  split
  · exact hin.close htrace _
  · split
    · exact hin.close htrace _
    · split
      · exact .stay htrace rfl ⟨{ hin with }, hempty⟩
      · exact hin.close htrace _

variable {scheduler : Scheduler Result}

theorem Follows.schedule (hs : Follows start s) {scheduler' : Scheduler Result}
    (hpoint : s.point = .tools scheduler) {act : ToolAct Result} (hown : act ≠ .other)
    (hstep : scheduler.step act = some scheduler') :
    Follows start (s.schedule scheduler scheduler') := by
  obtain ⟨trace, htrace, hbounds⟩ := hs
  simp only [Bounds, hpoint] at hbounds
  obtain ⟨hin, hinv, hnodup, hpending⟩ := hbounds
  have hplanned : scheduler'.planned = scheduler.planned := congrArg Prod.fst (Scheduler.step_config hstep)
  obtain ⟨events, hlog, hfollow⟩ := (Scheduler.step_grows hinv hown hstep).follow hinv.core hnodup
    hin.opened hpending hplanned
  refine .extend htrace ?_ hfollow ⟨{ hin with }, hinv.step hstep, hplanned ▸ hnodup, rfl⟩
  show eventsOf (s.moments ++ _) = _
  rw [hlog, eventsOf_append, eventsOf_appended]

theorem Follows.scheduled (hs : Follows start s)
    (hpoint : s.point = .tools scheduler) (h : s.scheduled scheduler = some s') :
    Follows start s' := by
  obtain ⟨trace, htrace, hbounds⟩ := hs
  simp only [Bounds, hpoint] at hbounds
  obtain ⟨hin, -⟩ := hbounds
  unfold Driver.scheduled at h
  split at h
  · split at h
    · cases h
      exact .extend htrace (eventsOf_append _ _) rfl { hin with }
    · cases h
      exact hin.close htrace _
  · cases h
    exact hin.close htrace _
  · cases h

theorem Follows.closeStep (hs : Follows start s) {outcome : Except JsError (Option StepEndReason)}
    (hpoint : s.point = .closing outcome) : Follows start (s.closeStep outcome (.ok ())) := by
  obtain ⟨trace, htrace, hbounds⟩ := hs
  simp only [Bounds, hpoint] at hbounds
  have hfollow : List.foldlM follow trace [.stepEnd s.phase.turn s.phase.step]
      = some { trace with openStep := none, nextStep := fadd trace.nextStep 1, pendingCalls := ∅ } := by
    rw [foldlM_cons, follow_stepEnd hbounds.opened]
    rfl
  refine .extend htrace ?_ hfollow ?_
  · show eventsOf ((s.keep outcome).moments ++ _) = _
    rw [keep_moments, eventsOf_append]
    rfl
  · have hphase := keep_phase s outcome
    refine ⟨?_, rfl, ?_, ?_, rfl⟩
    · show trace.openTurn = some (.int (s.keep outcome).phase.turn)
      rw [hphase]
      exact hbounds.opened.1
    · show trace.nextTurn = (s.keep outcome).phase.turn
      rw [hphase]
      exact hbounds.nextTurn
    · show fadd trace.nextStep 1 = fadd (s.keep outcome).phase.step 1
      rw [hphase, hbounds.nextStep]

theorem Follows.boundary (hs : Follows start s) {outcome : Except JsError Unit}
    (hpoint : s.point = .closed outcome) : Follows start (s.boundary outcome) := by
  obtain ⟨trace, htrace, hbounds⟩ := hs
  simp only [Bounds, hpoint] at hbounds
  unfold Driver.boundary
  split
  · exact hbounds.throws htrace _
  · split
    · exact hbounds.throws htrace _
    · split
      · exact .stay htrace rfl { hbounds with }
      · exact .stay htrace rfl { hbounds with }

theorem Follows.stopped (hs : Follows start s) (hpoint : s.point = .stopping)
    (outcome : Except JsError Unit) : Follows start (s.stopped outcome (.ok ())) := by
  obtain ⟨trace, htrace, hbounds⟩ := hs
  simp only [Bounds, hpoint] at hbounds
  unfold Driver.stopped
  split
  · exact hbounds.throws htrace _
  · split
    · exact hbounds.throws htrace _
    · split
      · exact hbounds.endTurn htrace _ (.inr rfl)
      · exact .stay htrace rfl { hbounds with }

/-- **Step.**  Where the session takes the closers, the machine goes on following. -/
theorem Follows.step (hs : Follows start s) (hsteady : s.Steady) {act : DriverAct Result}
    (hbracketed : bracketed act = true) (h : s.step act = some s') : Follows start s' := by
  have htakes := step_takes h
  cases act with
  | begin appended =>
    obtain ⟨hpoint, rfl⟩ := htakes
    exact hs.begin hpoint appended
  | head steps turns =>
    obtain ⟨hpoint, rfl⟩ := htakes
    exact hs.head hpoint steps turns
  | decided decision opened ended =>
    obtain ⟨hpoint, rfl⟩ := htakes
    cases ended with
    | error error => cases hbracketed
    | ok _ => exact hs.decided hpoint decision opened
  | enter appended =>
    obtain ⟨messages, hpoint, rfl⟩ := htakes
    exact hs.enter hpoint appended
  | build prepared header context =>
    obtain ⟨hpoint, rfl⟩ := htakes
    exact hs.build hpoint prepared header context
  | dispatch opened =>
    obtain ⟨hpoint, rfl⟩ := htakes
    exact hs.dispatch hpoint opened
  | chunk appended =>
    obtain ⟨hpoint, rfl⟩ := htakes
    exact hs.chunk hpoint appended
  | broken error =>
    obtain ⟨hpoint, rfl⟩ := htakes
    obtain ⟨trace, htrace, hbounds⟩ := hs
    simp only [Bounds, hpoint] at hbounds
    exact hbounds.1.close htrace _
  | finish finish toolCalls appended =>
    obtain ⟨hpoint, rfl⟩ := htakes
    refine hs.finish hpoint finish toolCalls appended fun hstop => ?_
    subst hstop
    exact of_decide_eq_true hbracketed
  | recovered retry =>
    obtain ⟨error, hpoint, rfl⟩ := htakes
    exact hs.recovered hpoint retry
  | tool act =>
    obtain ⟨scheduler, scheduler', hpoint, hstep, rfl⟩ := htakes
    refine hs.schedule hpoint ?_ hstep
    rintro rfl
    simp [Driver.step, hpoint] at h
  | scheduled =>
    obtain ⟨scheduler, hpoint, hscheduled⟩ := htakes
    exact hs.scheduled hpoint hscheduled
  | closeStep appended =>
    obtain ⟨outcome, hpoint, rfl⟩ := htakes
    cases appended with
    | error error => cases hbracketed
    | ok _ => exact hs.closeStep hpoint
  | boundary =>
    obtain ⟨outcome, hpoint, rfl⟩ := htakes
    exact hs.boundary hpoint
  | stopped outcome ended =>
    obtain ⟨hpoint, rfl⟩ := htakes
    cases ended with
    | error error => cases hbracketed
    | ok _ => exact hs.stopped hpoint outcome
  | caught =>
    obtain ⟨error, hpoint, rfl⟩ := htakes
    obtain ⟨trace, htrace, hbounds⟩ := hs
    simp only [Bounds, hpoint] at hbounds
    exact .stay htrace rfl { hbounds with }
  | fail appended =>
    obtain ⟨reason, hpoint, rfl⟩ := htakes
    obtain ⟨trace, htrace, hbounds⟩ := hs
    simp only [Bounds, hpoint] at hbounds
    cases appended with
    | error error => cases hbracketed
    | ok _ => exact hbounds.endTurn htrace reason (.inl rfl)
  | look =>
    obtain ⟨hpoint, rfl⟩ := htakes
    obtain ⟨trace, htrace, hbounds⟩ := hs
    simp only [Bounds, hpoint] at hbounds
    unfold look
    split
    · exact .stay htrace rfl { hbounds with }
    · exact .stay htrace rfl ⟨{ hbounds with }, rfl⟩
  | leave =>
    obtain ⟨hpoint, rfl⟩ := htakes
    obtain ⟨trace, htrace, hbounds⟩ := hs
    simp only [Bounds, hpoint] at hbounds
    exact .stay htrace rfl { hbounds with }
  | _ => exact Around.follows htakes hsteady hs

end Own

end Driver

/-! ## The log an agent is made for -/

/-- The turn of the last `turn/start`; an accepted one is an integer. -/
def lastTurnOf (seed : List TypedEvent) : Int :=
  seed.foldl (fun last typed =>
    match typed.data with
    | .turnStart (.int turn) => turn
    | _ => last) 0

/-- What the machine knows after a log whose last turn is `last`. -/
structure Seeded (trace : SessionTrace) (last : Int) : Prop where
  closed : trace.openTurn = none → trace.openStep = none ∧ trace.nextTurn = fadd last 1
  opened : ∀ turn, trace.openTurn = some turn → turn = .int last ∧ trace.nextTurn = last
  pendingCalls : trace.openStep = none → trace.pendingCalls = ∅

theorem seeded_fresh : Seeded freshTrace 0 := ⟨fun _ => ⟨rfl, rfl⟩, nofun, fun _ => rfl⟩

variable {last : Int}

theorem Seeded.observe {trace trace' : SessionTrace} (hs : Seeded trace last) {typed : TypedEvent} (h : trace.observe typed = .ok trace') :
    Seeded trace' (match typed.data with
      | .turnStart (.int turn) => turn
      | _ => last) := by
  obtain ⟨-, h⟩ := observe_ok_iff.mp h
  have hopen {turn step : Number} (hopen : trace.Open turn step) (trace' : SessionTrace)
      (hturn : trace'.openTurn = trace.openTurn) (hstep : trace'.openStep = trace.openStep)
      (hnext : trace'.nextTurn = trace.nextTurn) : Seeded trace' last :=
    ⟨fun hnone => absurd (hturn ▸ hnone) (by rw [hopen.1]; nofun),
      fun turn hsome => hnext ▸ hs.opened turn (hturn ▸ hsome),
      fun hnone => absurd (hstep ▸ hnone) (by rw [hopen.2]; nofun)⟩
  cases hdata : typed.data with
  | turnStart turn =>
    rw [hdata] at h
    obtain ⟨hnone, rfl, rfl⟩ := h
    refine ⟨nofun, fun turn hsome => ⟨?_, rfl⟩, hs.pendingCalls⟩
    exact (Option.some.inj hsome).symm
  | turnEnd turn =>
    rw [hdata] at h
    obtain ⟨hsome, hnone, rfl⟩ := h
    exact ⟨fun _ => ⟨hnone, congrArg (fadd · 1) (hs.opened turn hsome).2⟩, nofun, hs.pendingCalls⟩
  | stepStart turn step =>
    rw [hdata] at h
    obtain ⟨hsome, -, -, rfl⟩ := h
    exact ⟨fun hnone => absurd (hsome.symm.trans hnone) nofun, hs.opened, nofun⟩
  | stepEnd turn step =>
    rw [hdata] at h
    obtain ⟨hin, rfl⟩ := h
    exact ⟨fun hnone => absurd (hin.1.symm.trans hnone) nofun, hs.opened, fun _ => rfl⟩
  | assistantChunk turn step | assistantMessage turn step toolCalls | toolCall turn step callId =>
    rw [hdata] at h
    obtain ⟨hin, rfl⟩ := h
    exact hopen hin _ rfl rfl rfl
  | toolResult turn step callId appended isError errorCode =>
    rw [hdata] at h
    cases appended with
    | true =>
      obtain ⟨hin, -, rfl⟩ := h
      exact hopen hin _ rfl rfl rfl
    | false =>
      obtain ⟨-, rfl⟩ := h
      exact { hs with }
  | turnEnclosed =>
    rw [hdata] at h
    obtain ⟨-, rfl⟩ := h
    exact { hs with }
  | other =>
    rw [hdata] at h
    obtain rfl := h
    exact { hs with }

theorem seeded_runTrace {start trace : SessionTrace} {seed : List TypedEvent} (hstart : Seeded start last) (h : runTrace start seed = .ok trace) :
    Seeded trace (seed.foldl (fun last typed =>
      match typed.data with
      | .turnStart (.int turn) => turn
      | _ => last) last) := by
  induction seed generalizing start last with
  | nil =>
    cases h
    exact hstart
  | cons typed seed ih =>
    rw [runTrace_cons] at h
    cases hmid : start.observe typed with
    | error error =>
      rw [hmid] at h
      cases h
    | ok mid =>
      rw [hmid] at h
      exact ih (hstart.observe hmid) h

namespace Driver

variable {seed : List TypedEvent}

theorem follows_init {trace : SessionTrace} (hseed : runTrace freshTrace seed = .ok trace) (hclosed : trace.openTurn = none)
    (maxParallelToolCalls : Nat) (inbox : Queues) :
    Follows trace (init maxParallelToolCalls (lastTurnOf seed) inbox : Driver Result) := by
  have hseeded := seeded_runTrace seeded_fresh hseed
  obtain ⟨hnone, hnext⟩ := hseeded.closed hclosed
  exact ⟨trace, rfl, ⟨hclosed, hnone, hnext, hseeded.pendingCalls hnone⟩⟩

/-- **Brackets.**  Over a log the machine accepts with no turn open, and as long as the session takes the ends of
steps and turns and no message asks for two calls of one id, the machine accepts what the driver appends; and while no
driver runs, every turn and step is closed. -/
theorem driver_events_run {trace : SessionTrace} {s : Driver Result} (hseed : runTrace freshTrace seed = .ok trace) (hclosed : trace.openTurn = none)
    {maxParallelToolCalls : Nat} {inbox : Queues} {acts : List (DriverAct Result)}
    (h : Machine.exec step (init maxParallelToolCalls (lastTurnOf seed) inbox) acts = some s)
    (hbracketed : ∀ act ∈ acts, bracketed act = true) {typed : List TypedEvent}
    (hlogs : Logs trace.lastSeq (eventsOf s.moments) typed) :
    ∃ trace', runTrace freshTrace (seed ++ typed) = .ok trace'
      ∧ (s.phase.kind ≠ .running → trace'.openTurn = none ∧ trace'.openStep = none) := by
  have hfollows : s.Steady ∧ Follows trace s := by
    refine Machine.exec_invariant (I := fun t => t.Steady ∧ Follows trace t) ?_
      ⟨steady_init .., follows_init hseed hclosed maxParallelToolCalls inbox⟩ h
    rintro act hact t t' ⟨hsteady, ht⟩ hstep
    exact ⟨hsteady.step hstep, ht.step hsteady (hbracketed act hact) hstep⟩
  obtain ⟨hsteady, trace', htrace, hbounds⟩ := hfollows
  obtain ⟨lastSeq, hrun⟩ := runTrace_of_follow hlogs htrace
  refine ⟨{ trace' with lastSeq }, ?_, fun hidle => ?_⟩
  · rw [runTrace_append, hseed]
    exact hrun
  · have hrest : s.point = .rest := by
      by_contra hrest
      exact hidle (hsteady.mpr hrest)
    simp only [Bounds, hrest] at hbounds
    exact ⟨hbounds.openTurn, hbounds.openStep⟩

/-! ## Runs -/

def plainEvent (type : String) (seq : Int) (h : eventData? { type, seq, time := 0, data := .obj [] }
    = some .other) : TypedEvent where
  event := { type, seq, time := 0, data := .obj [] }
  wf := ⟨by simp [Json.keys], nofun, nofun⟩
  data := .other
  typed := h

/-- An assistant message of step 1 of turn 1 that asks for two calls of one id, or for none. -/
def assistantAnswer (seq : Int) (calls : Bool) : TypedEvent where
  event := {
    type := "assistant/message", seq, time := 0, surfaceOp := some (.str "append")
    data := stepData 1 [("message", .obj [("content", .arr (if calls then
      [.obj [("type", .str "tool-call"), ("id", .str "c")],
        .obj [("type", .str "tool-call"), ("id", .str "c")]] else []))])] }
  wf := ⟨by cases calls <;> simp [stepData, Json.keys, SessionEvent.intField], nofun, by simp⟩
  data := .assistantMessage (.int 1) (.int 1) (if calls then ["c", "c"] else [])
  typed := by cases calls <;> rfl

/-- A prompt the model answers. -/
theorem driver_events_run_of_answer :
    let acts := prompted ++ asked ++ [.finish .stop [] (.ok ()), .closeStep (.ok ()), .boundary,
      .stopped (.ok ()) (.ok ()), .look, .leave, .replay]
    let typed := [plainEvent "agent/inbox/spliced" 0 rfl, startedTurn 1,
      plainEvent "agent/inbox/spliced" 2 rfl, startedStep 3 1, plainEvent "user/message" 4 rfl,
      assistantAnswer 5 false, stepCloser (.int 1) (.int 1) 6 0, turnCloser (.int 1) 7 0]
    ∃ s : Driver String, Machine.exec step (init 1 0 {}) acts = some s ∧ s.phase.kind = .idle
      ∧ ∃ trace', runTrace freshTrace typed = .ok trace' ∧ trace'.openTurn = none := by
  intro acts typed
  have hrun : (Machine.exec step (init 1 0 {}) acts).map
      (fun s : Driver String => (s.phase.kind, eventsOf s.moments))
      = some (.idle, [.spliced .nextTurn 0 0 ["m"] false, .turnStart 1,
        .spliced .nextTurn 0 1 [] false, .stepStart 1 1, .userMessage "m",
        .assistantMessage 1 1 [] false, .stepEnd 1 1, .turnEnd 1 .completed]) := by
    decide +kernel
  obtain ⟨s, hs, heq⟩ := Option.map_eq_some_iff.mp hrun
  obtain ⟨hidle, hevents⟩ := Prod.mk.inj heq
  have hlogs : Logs (-1) (eventsOf s.moments) typed := by
    rw [hevents]
    exact .cons rfl (by decide) <| .cons rfl (by decide) <| .cons rfl (by decide) <|
      .cons rfl (by decide) <| .cons rfl (by decide) <| .cons rfl (by decide) <|
      .cons rfl (by decide) <| .cons rfl (by decide) <| .nil _
  have hrest : s.phase.kind ≠ .running := by rw [hidle]; nofun
  have hseed : runTrace freshTrace [] = .ok freshTrace := rfl
  obtain ⟨trace', htrace, hclosed⟩ := driver_events_run hseed rfl hs (by decide) hlogs
  exact ⟨s, hs, hidle, trace', htrace, (hclosed hrest).1⟩

def refusedEnd : List (DriverAct String) :=
  prompted ++ [.enter (.error (.error "refused")), .closeStep (.error (.error "refused")), .caught, .fail (.ok ())]

/-- The model asks for two calls of one id, and both are in flight when their results come. -/
def doubledCall : List (DriverAct String) :=
  let start : List (ToolAct String) :=
    [.fill (.ok .parallel) (.ok ()), .prepared (.ok .dispatch), .commit (.threw (.error ""))]
  let calls : List (ToolAct String) := [.select (.ok .parallel)] ++ start ++ start
    ++ [.settle 0 (.ok ⟨"r", true⟩), .settle 1 (.ok ⟨"r", true⟩), .fill (.ok .parallel) (.ok ()), .race 0,
      .commit (.result "r" false (.ok ())), .commit (.result "r" false (.ok ()))]
  prompted ++ asked ++ [.finish .stop [⟨"c", "read", ""⟩, ⟨"c", "read", ""⟩] (.ok ())] ++ calls.map .tool

def BreaksBrackets (acts : List (DriverAct String)) : Prop :=
  ∃ (s : Driver String) (typed : List TypedEvent) (error : JsError),
    Machine.exec step (init 2 0 {}) acts = some s ∧ Logs (-1) (eventsOf s.moments) typed
      ∧ runTrace freshTrace typed = .error error

theorem refusedEnd_breaks : BreaksBrackets refusedEnd := by
  have hrun : (Machine.exec step (init 2 0 {}) refusedEnd).map
      (fun s : Driver String => eventsOf s.moments)
      = some [.spliced .nextTurn 0 0 ["m"] false, .turnStart 1, .spliced .nextTurn 0 1 [] false,
        .stepStart 1 1, .turnEnd 1 (.error (.error "refused"))] := by
    decide +kernel
  obtain ⟨s, hs, hevents⟩ := Option.map_eq_some_iff.mp hrun
  refine ⟨s, [plainEvent "agent/inbox/spliced" 0 rfl, startedTurn 1,
    plainEvent "agent/inbox/spliced" 2 rfl, startedStep 3 1, turnCloser (.int 1) 4 0], _, hs, ?_, rfl⟩
  rw [hevents]
  exact .cons rfl (by decide) <| .cons rfl (by decide) <| .cons rfl (by decide) <|
    .cons rfl (by decide) <| .cons rfl (by decide) <| .nil _

theorem doubledCall_breaks : BreaksBrackets doubledCall := by
  have hrun : (Machine.exec step (init 2 0 {}) doubledCall).map
      (fun s : Driver String => eventsOf s.moments)
      = some [.spliced .nextTurn 0 0 ["m"] false, .turnStart 1, .spliced .nextTurn 0 1 [] false,
        .stepStart 1 1, .userMessage "m", .assistantMessage 1 1 ["c", "c"] false,
        .toolCall 1 1 "c", .toolCall 1 1 "c", .toolResult 1 1 "c", .toolResult 1 1 "c"] := by
    decide +kernel
  obtain ⟨s, hs, hevents⟩ := Option.map_eq_some_iff.mp hrun
  refine ⟨s, [plainEvent "agent/inbox/spliced" 0 rfl, startedTurn 1,
    plainEvent "agent/inbox/spliced" 2 rfl, startedStep 3 1, plainEvent "user/message" 4 rfl,
    assistantAnswer 5 true, recordedCall 6 1 "c", recordedCall 7 1 "c",
    callResult 8 1 "c" "r" (.str "append") trivial [6],
    callResult 9 1 "c" "r" (.str "append") trivial [7]], _, hs, ?_, rfl⟩
  rw [hevents]
  exact .cons rfl (by decide) <| .cons rfl (by decide) <| .cons rfl (by decide) <|
    .cons rfl (by decide) <| .cons rfl (by decide) <| .cons rfl (by decide) <|
    .cons rfl (by decide) <| .cons rfl (by decide) <|
    .cons ⟨false, none, by simp [callResult]⟩ (by decide) <|
    .cons ⟨false, none, by simp [callResult]⟩ (by decide) <| .nil _

/-- **Brackets that break**, where the session refuses the end of a step, or two calls of one id are in flight. -/
theorem driver_breaks_brackets : BreaksBrackets refusedEnd ∧ BreaksBrackets doubledCall :=
  ⟨refusedEnd_breaks, doubledCall_breaks⟩

end Driver

end CocoHarness.Agent
