/-
# CocoHarness.Agent.DriverDebts — what a turn that ends well leaves owed.

The model is owed a request while the last message of the turn asks for tool calls.  A turn ends completed
with nothing owed, unless a batch of its last step concluded it, and ends with no steering left, unless a
pre-step decision entered nothing.  What a step came to is carried from its end to the end of the turn;
`Settled` says at each point what that says of what the driver has done.
-/
import CocoHarness.Agent.DriverSteps

namespace CocoHarness.Agent

open Lib Lib.SafeInteger SessionLog List

variable {Result : Type}

/-! ## What has been done in a turn -/

structure Debts where
  /-- The last message of the turn asks for tool calls, and no request has been sent since. -/
  owes : Bool := false
  /-- A batch of the last step concluded the turn. -/
  concludes : Bool := false
  /-- The last step was truncated. -/
  truncates : Bool := false
  deriving DecidableEq

def Debts.after (debts : Debts) : Moment → Debts
  | .requested => { debts with owes := false }
  | .concluded => { debts with concludes := true }
  | .appended (.turnStart _) => {}
  | .appended (.stepStart _ _) => { debts with concludes := false, truncates := false }
  | .appended (.assistantMessage _ _ toolCalls truncated) =>
    { debts with owes := toolCalls ≠ [], truncates := truncated }
  | .appended _ => debts

def debtsOf (moments : List Moment) : Debts := moments.foldl Debts.after {}

def Moment.plain : Moment → Bool
  | .appended (.turnStart _) | .appended (.stepStart _ _) | .appended (.assistantMessage _ _ _ _)
  | .requested | .concluded => false
  | .appended _ => true

theorem Debts.after_plain (debts : Debts) {moment : Moment} (h : moment.plain = true) :
    debts.after moment = debts := by
  cases moment with
  | appended event => cases event <;> first | rfl | cases h
  | requested | concluded => cases h

@[simp] theorem debtsOf_snoc (moments : List Moment) (moment : Moment) :
    debtsOf (moments ++ [moment]) = (debtsOf moments).after moment := by
  rw [debtsOf, foldl_append]
  rfl

theorem debtsOf_plain (moments : List Moment) {new : List Moment}
    (h : ∀ moment ∈ new, moment.plain = true) : debtsOf (moments ++ new) = debtsOf moments := by
  induction new generalizing moments with
  | nil => rw [append_nil]
  | cons moment new ih =>
    rw [← singleton_append, ← append_assoc,
      ih (moments ++ [moment]) fun m hm => h m (mem_cons_of_mem _ hm), debtsOf_snoc]
    exact (debtsOf moments).after_plain (h moment mem_cons_self)

theorem DriverEvent.plain_of_quiet {event : DriverEvent} (h : event.quiet = true) :
    (Moment.appended event).plain = true := by
  cases event <;> first | rfl | cases h

theorem plain_of_quiet {events : List DriverEvent} (h : ∀ event ∈ events, event.quiet = true) :
    ∀ moment ∈ events.map Moment.appended, moment.plain = true := by
  intro moment hmem
  obtain ⟨event, hevent, rfl⟩ := mem_map.mp hmem
  exact DriverEvent.plain_of_quiet (h event hevent)

theorem toolEvent_plain (turn step : Int) (event : ToolEvent Result) :
    (Driver.toolEvent turn step event).plain = true := by
  cases event <;> rfl

theorem fadd_one_pos {n : Int} (h : 0 ≤ n) : 0 < fadd n 1 := by
  by_cases hsafe : IsSafe n
  · rw [fadd_one_of_isSafe hsafe]
    omega
  · have hle : 9007199254740992 ≤ roundNat (n + 1).natAbs := le_roundNat (by simp only [IsSafe] at hsafe; omega)
    rw [fadd, roundInt, if_neg (by omega)]
    omega

namespace Driver

variable {s s' : Driver Result}

/-! ## How a turn stands where the driver is -/

/-- If the turn is to end completed, nothing is owed, or a batch concluded it. -/
def Paid (s : Driver Result) (stepEnd : Option StepEndReason) : Prop :=
  stepEnd = some .completed → (debtsOf s.moments).owes = true → (debtsOf s.moments).concludes = true

def Stands (s : Driver Result) : Prop :=
  match s.point with
  | .begin => s.phase.step = 0
  | .head | .preStep _ =>
    0 ≤ s.phase.step ∧ (s.phase.step = 0 → (debtsOf s.moments).owes = false) ∧ s.Paid s.turnEnds
  | .entering _ | .building | .dispatching | .streaming | .recovering _ | .tools _
  | .closing (.error _) | .closed (.error _) => 0 < s.phase.step
  | .closing (.ok stepEnd) => 0 < s.phase.step ∧ s.Paid stepEnd
  | .closed (.ok _) | .stopping => 0 < s.phase.step ∧ s.Paid s.turnEnds
  | .failing reason => reason ≠ .completed ∧ reason ≠ .maxTokens
  | .rest | .caught _ | .ended | .leaving => True

structure Settled (s : Driver Result) : Prop where
  truncated : (debtsOf s.moments).truncates = true → (debtsOf s.moments).owes = false
  here : s.Stands

theorem Around.settled (h : s.Around s') (hsteady : s.Steady) (hs : s.Settled) : s'.Settled := by
  obtain ⟨events, hquiet, hmoments⟩ := h.moments
  have hdebts : debtsOf s'.moments = debtsOf s.moments := by rw [hmoments, debtsOf_plain _ (plain_of_quiet hquiet)]
  have hpaid (stepEnd : Option StepEndReason) : s'.Paid stepEnd ↔ s.Paid stepEnd := by rw [Paid, Paid, hdebts]
  refine ⟨hdebts ▸ hs.truncated, ?_⟩
  have hhere := hs.here
  rcases h.point with ⟨hsame, -, hstep⟩ | ⟨-, -, hbegin, hzero⟩
  · by_cases hrest : s.point = .rest
    · simp only [Stands, hsame.rest.mpr hrest]
    · have hstep := hstep (hsteady.mpr hrest)
      generalize hp : s.point = p at hsame
      generalize hq : s'.point = q at hsame
      cases hsame with
      | signalled scheduler =>
        simp only [Stands, hp, hq] at hhere ⊢
        rwa [hstep]
      | same =>
        simp only [Stands, hp, hq, hdebts, hstep, hpaid, h.turnEnds] at hhere ⊢
        exact hhere
  · simp only [Stands, hbegin]
    exact hzero

/-! ## Steps -/

theorem append_debts (s : Driver Result) {event : DriverEvent} (hplain : (Moment.appended event).plain = true) :
    debtsOf (s.append event).moments = debtsOf s.moments := by
  refine debtsOf_plain _ fun moment hmem => ?_
  rw [mem_singleton.mp hmem]
  exact hplain

theorem Settled.to (hs : s.Settled) (hdebts : debtsOf s'.moments = debtsOf s.moments)
    (h : s'.Stands) : s'.Settled := ⟨hdebts ▸ hs.truncated, h⟩

theorem Settled.throws (hs : s.Settled) (error : JsError) : (s.throws error).Settled := hs.to rfl trivial

theorem Settled.endTurn (hs : s.Settled) (reason : TurnEndReason) {next : DriverPoint Result}
    (hnext : next = .leaving ∨ next = .ended) (appended : Except JsError Unit) :
    (s.endTurn reason next appended).Settled := by
  cases appended with
  | error error => exact hs.to rfl trivial
  | ok _ =>
    refine hs.to (append_debts s rfl) ?_
    rcases hnext with rfl | rfl <;> trivial

theorem Settled.fails (hs : s.Settled) (hpos : 0 < s.phase.step) (error : JsError) :
    (s.close (.error error)).Settled := hs.to rfl hpos

theorem Settled.begin (hs : s.Settled) (hpoint : s.point = .begin) (appended : Except JsError Unit) :
    (s.begin appended).Settled := by
  have hhere := hs.here
  simp only [Stands, hpoint] at hhere
  unfold Driver.begin
  split
  · exact hs.to rfl trivial
  · split
    · exact hs.to rfl trivial
    · have hdebts : debtsOf (s.moments ++ [.appended (.turnStart (fadd s.phase.turn 1))]) = {} := debtsOf_snoc _ _
      have hnone : (debtsOf (s.moments ++ [.appended (.turnStart (fadd s.phase.turn 1))])).owes = false := by
        rw [hdebts]
      exact ⟨fun _ => hnone, hhere.ge, fun _ => hnone, nofun⟩

theorem Settled.head (hs : s.Settled) (hpoint : s.point = .head) (steps turns : Except JsError Unit) :
    (s.head steps turns).Settled := by
  have hhere := hs.here
  simp only [Stands, hpoint] at hhere
  obtain ⟨events, hquiet, hclaim⟩ := claim_spliced s steps turns
  have hdebts : debtsOf (s.claim steps turns).1.moments = debtsOf s.moments := by
    rw [hclaim]
    exact debtsOf_plain _ (plain_of_quiet hquiet)
  have hphase : (s.claim steps turns).1.phase = s.phase := by
    rw [hclaim]
    rfl
  have hends : (s.claim steps turns).1.turnEnds = s.turnEnds := by
    rw [hclaim]
    rfl
  unfold Driver.head
  split
  · exact hs.throws abortError
  · split
    · next s' error heq =>
      rw [heq] at hdebts
      exact hs.to hdebts trivial
    · next s' claimed heq =>
      rw [heq] at hdebts hphase hends
      refine hs.to hdebts ⟨hphase ▸ hhere.1, ?_, ?_⟩
      · show s'.phase.step = 0 → (debtsOf s'.moments).owes = false
        rw [hphase, hdebts]
        exact hhere.2.1
      · show s'.Paid s'.turnEnds
        rw [Paid, hdebts, hends]
        exact hhere.2.2

theorem Settled.openStep (hs : s.Settled) (hnonneg : 0 ≤ s.phase.step) (messages : List MessageId)
    (appended : Except JsError Unit) : (s.openStep messages appended).Settled := by
  cases appended with
  | error error => exact hs.throws error
  | ok _ =>
    refine ⟨fun htruncated => ?_, fadd_one_pos hnonneg⟩
    have hnot : (debtsOf (s.moments
        ++ [.appended (.stepStart s.phase.turn (fadd s.phase.step 1))])).truncates = false := by
      rw [debtsOf_snoc]
      rfl
    exact absurd (hnot.symm.trans htruncated) nofun

theorem Settled.decided (hs : s.Settled) (hpoint : ∃ claimed, s.point = .preStep claimed)
    (decision : Except JsError PreStepDecision) (opened ended : Except JsError Unit) :
    (s.decided decision opened ended).Settled := by
  have hhere := hs.here
  obtain ⟨claimed, hpoint⟩ := hpoint
  simp only [Stands, hpoint] at hhere
  unfold Driver.decided
  split
  · exact hs.throws _
  · split
    · exact hs.throws _
    · split
      · exact hs.endTurn _ (.inl rfl) ended
      · split
        · exact hs.endTurn _ (.inr rfl) ended
        · split
          · exact hs.endTurn _ (.inl rfl) ended
          · exact hs.openStep hhere.1 _ opened

theorem Settled.enter (hs : s.Settled) {messages : List MessageId} (hpoint : s.point = .entering messages)
    (appended : Except JsError Unit) : (s.enter messages appended).Settled := by
  have hhere := hs.here
  simp only [Stands, hpoint] at hhere
  unfold Driver.enter
  split
  · split
    · exact hs.fails hhere _
    · exact hs.to rfl hhere
  · split
    · exact hs.fails hhere _
    · exact hs.to (append_debts s rfl) hhere

theorem Settled.build (hs : s.Settled) (hpoint : s.point = .building) (prepared : Except JsError Unit)
    (header context : Option (Except JsError Unit)) : (s.build prepared header context).Settled := by
  have hhere := hs.here
  simp only [Stands, hpoint] at hhere
  have hone : debtsOf (s.append .request).moments = debtsOf s.moments := append_debts s rfl
  unfold Driver.build
  split
  · exact hs.fails hhere _
  · split
    · exact hs.fails hhere _
    · split
      · exact hs.fails hhere _
      · exact hs.to hone hhere
      · exact hs.fails hhere _
      · exact hs.to ((append_debts _ rfl).trans hone) hhere
      · exact hs.to hone hhere
      · exact hs.to hone hhere
      · exact hs.to rfl hhere

theorem Settled.dispatch (hs : s.Settled) (hpoint : s.point = .dispatching)
    (opened : Except JsError Unit) : (s.dispatch opened).Settled := by
  have hhere := hs.here
  simp only [Stands, hpoint] at hhere
  unfold Driver.dispatch
  split
  · exact hs.fails hhere _
  · split
    · exact hs.fails hhere _
    · have hdebts : debtsOf (s.moments ++ [.requested]) = { debtsOf s.moments with owes := false } :=
        debtsOf_snoc _ _
      refine ⟨fun _ => ?_, hhere⟩
      show (debtsOf (s.moments ++ [.requested])).owes = false
      rw [hdebts]

theorem Settled.chunk (hs : s.Settled) (hpoint : s.point = .streaming)
    (appended : Except JsError Unit) : (s.chunk appended).Settled := by
  have hhere := hs.here
  simp only [Stands, hpoint] at hhere
  unfold Driver.chunk
  split
  · exact hs.fails hhere _
  · split
    · exact hs.fails hhere _
    · refine hs.to (append_debts s rfl) ?_
      simp only [Stands, Driver.append, did, hpoint]
      exact hhere

theorem Settled.finish (hs : s.Settled) (hpoint : s.point = .streaming) (finish : FinishReason)
    (toolCalls : List ToolCallBlock) (appended : Except JsError Unit) :
    (s.finish finish toolCalls appended).Settled := by
  have hhere := hs.here
  simp only [Stands, hpoint] at hhere
  have hmessage (calls : List String) (truncated : Bool) :
      debtsOf (s.append (.assistantMessage s.phase.turn s.phase.step calls truncated)).moments
        = { debtsOf s.moments with owes := calls ≠ [], truncates := truncated } := debtsOf_snoc _ _
  unfold Driver.finish
  split
  · exact hs.fails hhere _
  · split
    · exact hs.to rfl hhere
    · exact hs.fails hhere _
    · refine ⟨fun _ => ?_, hhere, nofun⟩
      show (debtsOf (s.append _).moments).owes = false
      rw [hmessage]
      rfl
    · dsimp only
      split
      · next hnone =>
        have hpaid : (debtsOf (s.append (.assistantMessage s.phase.turn s.phase.step
            (toolCalls.map (·.id)) false)).moments).owes = false := by
          rw [hmessage, hnone]
          rfl
        exact ⟨fun _ => hpaid, hhere, fun _ howes => absurd (hpaid.symm.trans howes) nofun⟩
      · refine ⟨fun htruncated => ?_, hhere⟩
        have hnot : (debtsOf (s.append (.assistantMessage s.phase.turn s.phase.step
            (toolCalls.map (·.id)) false)).moments).truncates = false := by
          rw [hmessage]
        exact absurd (hnot.symm.trans htruncated) nofun

theorem Settled.recovered (hs : s.Settled) {failure : JsError} (hpoint : s.point = .recovering failure)
    (retry : Except JsError Bool) : (s.recovered failure retry).Settled := by
  have hhere := hs.here
  simp only [Stands, hpoint] at hhere
  unfold Driver.recovered
  split
  · exact hs.fails hhere _
  · split
    · exact hs.fails hhere _
    · split
      · exact hs.to rfl hhere
      · exact hs.fails hhere _

variable {scheduler : Scheduler Result}

theorem Settled.schedule (hs : s.Settled) (hpoint : s.point = .tools scheduler) (scheduler' : Scheduler Result) :
    (s.schedule scheduler scheduler').Settled := by
  have hhere := hs.here
  simp only [Stands, hpoint] at hhere
  refine hs.to (debtsOf_plain _ fun moment hmem => ?_) hhere
  obtain ⟨event, -, rfl⟩ := mem_map.mp hmem
  exact toolEvent_plain _ _ event

theorem Settled.scheduled (hs : s.Settled)
    (hpoint : s.point = .tools scheduler) (h : s.scheduled scheduler = some s') : s'.Settled := by
  have hhere := hs.here
  simp only [Stands, hpoint] at hhere
  unfold Driver.scheduled at h
  split at h
  · split at h
    · cases h
      have hdebts : debtsOf (s.moments ++ [.concluded]) = { debtsOf s.moments with concludes := true } :=
        debtsOf_snoc _ _
      refine ⟨?_, hhere, fun _ _ => ?_⟩
      · show (debtsOf (s.moments ++ [.concluded])).truncates = true
          → (debtsOf (s.moments ++ [.concluded])).owes = false
        rw [hdebts]
        exact hs.truncated
      · show (debtsOf (s.moments ++ [.concluded])).concludes = true
        rw [hdebts]
    · cases h
      exact hs.to rfl ⟨hhere, nofun⟩
  · cases h
    exact hs.fails hhere _
  · cases h

/-- What the step came to is what the turn is to end for, unless it was truncated before. -/
theorem keep_turnEnds (s : Driver Result) (stepEnd : Option StepEndReason) : (s.keep (.ok stepEnd)).turnEnds = stepEnd
      ∨ (s.keep (.ok stepEnd)).turnEnds = some .maxTokens := by
  unfold keep
  dsimp only
  split
  · next hsticky => exact .inr hsticky
  · exact .inl rfl

theorem Settled.closeStep (hs : s.Settled) {outcome : Except JsError (Option StepEndReason)}
    (hpoint : s.point = .closing outcome) (appended : Except JsError Unit) :
    (s.closeStep outcome appended).Settled := by
  have hhere := hs.here
  simp only [Stands, hpoint] at hhere
  have hkept : debtsOf (s.keep outcome).moments = debtsOf s.moments := by rw [keep_moments]
  cases appended with
  | error error => exact hs.to hkept trivial
  | ok _ =>
    have hdebts : debtsOf ((s.keep outcome).append (.stepEnd s.phase.turn s.phase.step)).moments
        = debtsOf s.moments := (append_debts _ rfl).trans hkept
    refine hs.to hdebts ?_
    have hphase := keep_phase s outcome
    cases outcome with
    | error error =>
      show 0 < (s.keep (.error error)).phase.step
      rw [hphase]
      exact hhere
    | ok stepEnd =>
      refine ⟨?_, ?_⟩
      · show 0 < (s.keep (.ok stepEnd)).phase.step
        rw [hphase]
        exact hhere.1
      · show Paid ((s.keep (.ok stepEnd)).append _) (s.keep (.ok stepEnd)).turnEnds
        rw [Paid, hdebts]
        intro hcompleted
        rcases keep_turnEnds s stepEnd with hkeep | hsticky
        · exact hhere.2 (hkeep.symm.trans hcompleted)
        · exact absurd (hsticky.symm.trans hcompleted) nofun

theorem Settled.boundary (hs : s.Settled) {outcome : Except JsError Unit}
    (hpoint : s.point = .closed outcome) : (s.boundary outcome).Settled := by
  have hhere := hs.here
  simp only [Stands, hpoint] at hhere
  unfold Driver.boundary
  split
  · exact hs.throws _
  · split
    · exact hs.throws _
    · split
      · exact hs.to rfl hhere
      · exact hs.to rfl ⟨hhere.1.le, fun hzero => absurd hzero hhere.1.ne', hhere.2⟩

theorem Settled.stopped (hs : s.Settled) (hpoint : s.point = .stopping)
    (outcome ended : Except JsError Unit) : (s.stopped outcome ended).Settled := by
  have hhere := hs.here
  simp only [Stands, hpoint] at hhere
  unfold Driver.stopped
  split
  · exact hs.throws _
  · split
    · exact hs.throws _
    · split
      · exact hs.endTurn _ (.inr rfl) ended
      · exact hs.to rfl ⟨hhere.1.le, fun hzero => absurd hzero hhere.1.ne', hhere.2⟩

theorem failure_ne (s : Driver Result) (error : JsError) :
    s.failure error ≠ .completed ∧ s.failure error ≠ .maxTokens := by
  unfold failure
  split <;> exact ⟨nofun, nofun⟩

theorem Settled.step (hs : s.Settled) (hsteady : s.Steady) {act : DriverAct Result}
    (h : s.step act = some s') : s'.Settled := by
  have htakes := step_takes h
  have hhere := hs.here
  cases act with
  | begin appended =>
    obtain ⟨hpoint, rfl⟩ := htakes
    exact hs.begin hpoint appended
  | head steps turns =>
    obtain ⟨hpoint, rfl⟩ := htakes
    exact hs.head hpoint steps turns
  | decided decision opened ended =>
    obtain ⟨hpoint, rfl⟩ := htakes
    exact hs.decided hpoint decision opened ended
  | enter appended =>
    obtain ⟨messages, hpoint, rfl⟩ := htakes
    exact hs.enter hpoint appended
  | build prepared header context =>
    obtain ⟨hpoint, rfl⟩ := htakes
    exact hs.build hpoint prepared header context
  | dispatch opened =>
    obtain ⟨hpoint, rfl⟩ := htakes
    exact hs.dispatch hpoint opened
  | chunk appended =>
    obtain ⟨hpoint, rfl⟩ := htakes
    exact hs.chunk hpoint appended
  | broken error =>
    obtain ⟨hpoint, rfl⟩ := htakes
    simp only [Stands, hpoint] at hhere
    exact hs.fails hhere error
  | finish finish toolCalls appended =>
    obtain ⟨hpoint, rfl⟩ := htakes
    exact hs.finish hpoint finish toolCalls appended
  | recovered retry =>
    obtain ⟨error, hpoint, rfl⟩ := htakes
    exact hs.recovered hpoint retry
  | tool act =>
    obtain ⟨scheduler, scheduler', hpoint, -, rfl⟩ := htakes
    exact hs.schedule hpoint scheduler'
  | scheduled =>
    obtain ⟨scheduler, hpoint, hscheduled⟩ := htakes
    exact hs.scheduled hpoint hscheduled
  | closeStep appended =>
    obtain ⟨outcome, hpoint, rfl⟩ := htakes
    exact hs.closeStep hpoint appended
  | boundary =>
    obtain ⟨outcome, hpoint, rfl⟩ := htakes
    exact hs.boundary hpoint
  | stopped outcome ended =>
    obtain ⟨hpoint, rfl⟩ := htakes
    exact hs.stopped hpoint outcome ended
  | caught =>
    obtain ⟨error, hpoint, rfl⟩ := htakes
    exact hs.to rfl (failure_ne s error)
  | fail appended =>
    obtain ⟨reason, hpoint, rfl⟩ := htakes
    exact hs.endTurn reason (.inl rfl) appended
  | look =>
    obtain ⟨hpoint, rfl⟩ := htakes
    unfold look
    split
    · exact hs.to rfl trivial
    · exact hs.to rfl rfl
  | leave =>
    obtain ⟨hpoint, rfl⟩ := htakes
    exact hs.to rfl trivial
  | _ => exact Around.settled htakes hsteady hs

/-! ## The end of a turn -/

def Ends (s s' : Driver Result) (turn : Int) (reason : TurnEndReason) : Prop :=
  .appended (.turnEnd turn reason) ∈ s'.moments.drop s.moments.length

section

variable {turn : Int} {reason : TurnEndReason}

theorem ends_append {new : List Moment} (hmoments : s'.moments = s.moments ++ new) :
    s.Ends s' turn reason ↔ .appended (.turnEnd turn reason) ∈ new := by
  rw [Ends, hmoments, drop_left]

theorem not_ends_of_eq (hmoments : s'.moments = s.moments) : ¬ s.Ends s' turn reason := by
  rw [Ends, hmoments, drop_length]
  exact not_mem_nil

theorem not_ends_of_snoc {moment : Moment} (hmoments : s'.moments = s.moments ++ [moment])
    (hne : moment ≠ .appended (.turnEnd turn reason)) : ¬ s.Ends s' turn reason := by
  rw [ends_append hmoments]
  exact fun hmem => hne (mem_singleton.mp hmem).symm

theorem not_ends_of_quiet {events : List DriverEvent} (h : ∀ event ∈ events, event.quiet = true)
    (hmoments : s'.moments = s.moments ++ events.map .appended) : ¬ s.Ends s' turn reason := by
  rw [ends_append hmoments]
  intro hmem
  obtain ⟨event, hevent, heq⟩ := mem_map.mp hmem
  cases heq
  cases h _ hevent

theorem endTurn_ends {reason' : TurnEndReason} {next : DriverPoint Result}
    {appended : Except JsError Unit} (h : s.Ends (s.endTurn reason' next appended) turn reason) :
    reason = reason' ∧ (s.endTurn reason' next appended).inbox = s.inbox
      ∧ debtsOf (s.endTurn reason' next appended).moments = debtsOf s.moments := by
  cases appended with
  | error error => exact absurd h (not_ends_of_eq rfl)
  | ok _ =>
    have hmem := (ends_append rfl).mp h
    cases mem_singleton.mp hmem
    exact ⟨rfl, rfl, append_debts s rfl⟩

theorem openStep_not_ends (s : Driver Result) (messages : List MessageId)
    (appended : Except JsError Unit) : ¬ s.Ends (s.openStep messages appended) turn reason := by
  cases appended with
  | error error => exact not_ends_of_eq rfl
  | ok _ => exact not_ends_of_snoc rfl nofun

theorem decided_cases (s : Driver Result) (decision : Except JsError PreStepDecision)
    (opened ended : Except JsError Unit) :
    (∃ error, s.decided decision opened ended = s.throws error)
      ∨ (decision = .ok .reject ∧ s.decided decision opened ended = s.endTurn .blocked .leaving ended)
      ∨ (∃ stepEnd, decision = .ok (.enter []) ∧ s.turnEnds = some stepEnd
          ∧ s.decided decision opened ended = s.endTurn stepEnd.toTurnEnd .ended ended)
      ∨ (decision = .ok (.enter []) ∧ s.phase.step = 0
          ∧ s.decided decision opened ended = s.endTurn .completed .leaving ended)
      ∨ ∃ messages, s.decided decision opened ended = s.openStep messages opened := by
  unfold decided
  cases decision with
  | error error => exact .inl ⟨error, rfl⟩
  | ok decision =>
    dsimp only
    split
    · exact .inl ⟨abortError, rfl⟩
    · cases decision with
      | reject => exact .inr (.inl ⟨rfl, rfl⟩)
      | enter messages =>
        dsimp only
        split
        · next stepEnd hturnEnds => exact .inr (.inr (.inl ⟨stepEnd, rfl, hturnEnds, rfl⟩))
        · split
          · next hfirst =>
            obtain ⟨hzero, rfl⟩ := hfirst
            exact .inr (.inr (.inr (.inl ⟨rfl, hzero, rfl⟩)))
          · exact .inr (.inr (.inr (.inr ⟨_, rfl⟩)))

inductive EndsFor (s : Driver Result) (act : DriverAct Result) (reason : TurnEndReason) : Prop where
  | rejected (hreason : reason = .blocked)
  | emptied (opened ended : Except JsError Unit) (claimed : List MessageId)
      (hact : act = .decided (.ok (.enter [])) opened ended) (hpoint : s.point = .preStep claimed)
      (hreason : (∃ stepEnd, s.turnEnds = some stepEnd ∧ reason = stepEnd.toTurnEnd)
        ∨ s.phase.step = 0 ∧ reason = .completed)
  | stopped (stepEnd : StepEndReason) (hpoint : s.point = .stopping) (hnone : s.inbox.nextStep = [])
      (hturnEnds : s.turnEnds = some stepEnd) (hreason : reason = stepEnd.toTurnEnd)
  | failed (hpoint : s.point = .failing reason)

/-- **Where turns end.** -/
theorem step_ends {act : DriverAct Result} (h : s.step act = some s') (hends : s.Ends s' turn reason) :
    s.EndsFor act reason ∧ s'.inbox = s.inbox ∧ debtsOf s'.moments = debtsOf s.moments := by
  have htakes := step_takes h
  cases act with
  | begin appended =>
    obtain ⟨-, rfl⟩ := htakes
    refine absurd hends ?_
    unfold Driver.begin
    split
    · exact not_ends_of_eq rfl
    · split
      · exact not_ends_of_eq rfl
      · exact not_ends_of_snoc rfl nofun
  | head steps turns =>
    obtain ⟨-, rfl⟩ := htakes
    refine absurd hends ?_
    obtain ⟨events, hquiet, hclaim⟩ := claim_spliced s steps turns
    have hmoments : (s.claim steps turns).1.moments = s.moments ++ events.map .appended := by
      rw [hclaim]
      rfl
    unfold Driver.head
    split
    · exact not_ends_of_eq rfl
    · split
      · next heq =>
        rw [heq] at hmoments
        exact not_ends_of_quiet hquiet hmoments
      · next heq =>
        rw [heq] at hmoments
        exact not_ends_of_quiet hquiet hmoments
  | decided decision opened ended =>
    obtain ⟨⟨claimed, hpoint⟩, rfl⟩ := htakes
    rcases decided_cases s decision opened ended with ⟨error, heq⟩ | ⟨rfl, heq⟩
      | ⟨stepEnd, rfl, hturnEnds, heq⟩ | ⟨rfl, hzero, heq⟩ | ⟨messages, heq⟩
    · rw [heq] at hends
      exact absurd hends (not_ends_of_eq rfl)
    · rw [heq] at hends ⊢
      obtain ⟨hreason, hsame⟩ := endTurn_ends hends
      exact ⟨.rejected hreason, hsame⟩
    · rw [heq] at hends ⊢
      obtain ⟨hreason, hsame⟩ := endTurn_ends hends
      exact ⟨.emptied opened ended claimed rfl hpoint (.inl ⟨stepEnd, hturnEnds, hreason⟩), hsame⟩
    · rw [heq] at hends ⊢
      obtain ⟨hreason, hsame⟩ := endTurn_ends hends
      exact ⟨.emptied opened ended claimed rfl hpoint (.inr ⟨hzero, hreason⟩), hsame⟩
    · rw [heq] at hends
      exact absurd hends (openStep_not_ends s messages opened)
  | enter appended =>
    obtain ⟨messages, -, rfl⟩ := htakes
    refine absurd hends ?_
    unfold Driver.enter
    split
    · split <;> exact not_ends_of_eq rfl
    · split
      · exact not_ends_of_eq rfl
      · exact not_ends_of_snoc rfl nofun
  | build prepared header context =>
    obtain ⟨-, rfl⟩ := htakes
    refine absurd hends ?_
    unfold Driver.build
    split
    · exact not_ends_of_eq rfl
    · split
      · exact not_ends_of_eq rfl
      · split
        · exact not_ends_of_eq rfl
        · exact not_ends_of_snoc rfl nofun
        · exact not_ends_of_eq rfl
        · rw [ends_append (append_assoc ..)]
          simp
        · exact not_ends_of_snoc rfl nofun
        · exact not_ends_of_snoc rfl nofun
        · exact not_ends_of_eq rfl
  | dispatch opened =>
    obtain ⟨-, rfl⟩ := htakes
    refine absurd hends ?_
    unfold Driver.dispatch
    split
    · exact not_ends_of_eq rfl
    · split
      · exact not_ends_of_eq rfl
      · exact not_ends_of_snoc rfl nofun
  | chunk appended =>
    obtain ⟨-, rfl⟩ := htakes
    refine absurd hends ?_
    unfold Driver.chunk
    split
    · exact not_ends_of_eq rfl
    · split
      · exact not_ends_of_eq rfl
      · exact not_ends_of_snoc rfl nofun
  | broken error | leave =>
    obtain ⟨-, rfl⟩ := htakes
    exact absurd hends (not_ends_of_eq rfl)
  | finish finish toolCalls appended =>
    obtain ⟨-, rfl⟩ := htakes
    refine absurd hends ?_
    unfold Driver.finish
    split
    · exact not_ends_of_eq rfl
    · split
      · exact not_ends_of_eq rfl
      · exact not_ends_of_eq rfl
      · exact not_ends_of_snoc rfl nofun
      · dsimp only
        split <;> exact not_ends_of_snoc rfl nofun
  | recovered retry =>
    obtain ⟨error, -, rfl⟩ := htakes
    refine absurd hends ?_
    unfold Driver.recovered
    split
    · exact not_ends_of_eq rfl
    · split
      · exact not_ends_of_eq rfl
      · split <;> exact not_ends_of_eq rfl
  | tool act =>
    obtain ⟨scheduler, scheduler', -, -, rfl⟩ := htakes
    have hmem := (ends_append rfl).mp hends
    obtain ⟨event, -, heq⟩ := mem_map.mp hmem
    cases event <;> cases heq
  | scheduled =>
    obtain ⟨scheduler, -, hscheduled⟩ := htakes
    refine absurd hends ?_
    unfold Driver.scheduled at hscheduled
    split at hscheduled
    · split at hscheduled
      · cases hscheduled
        exact not_ends_of_snoc rfl nofun
      · cases hscheduled
        exact not_ends_of_eq rfl
    · cases hscheduled
      exact not_ends_of_eq rfl
    · cases hscheduled
  | closeStep appended =>
    obtain ⟨outcome, -, rfl⟩ := htakes
    refine absurd hends ?_
    cases appended with
    | error error => exact not_ends_of_eq (keep_moments s outcome)
    | ok _ =>
      have hmoments : (s.closeStep outcome (.ok ())).moments
          = s.moments ++ [.appended (.stepEnd s.phase.turn s.phase.step)] :=
        congrArg (· ++ _) (keep_moments s outcome)
      exact not_ends_of_snoc hmoments nofun
  | boundary =>
    obtain ⟨outcome, -, rfl⟩ := htakes
    refine absurd hends ?_
    unfold Driver.boundary
    split
    · exact not_ends_of_eq rfl
    · split
      · exact not_ends_of_eq rfl
      · split <;> exact not_ends_of_eq rfl
  | stopped outcome ended =>
    obtain ⟨hpoint, rfl⟩ := htakes
    unfold Driver.stopped at hends ⊢
    split at hends
    · exact absurd hends (not_ends_of_eq rfl)
    · next hlive =>
      split at hends
      · exact absurd hends (not_ends_of_eq rfl)
      · next hlive =>
        split at hends
        · next stepEnd hturnEnds hnone =>
          rw [if_neg hlive]
          obtain ⟨hreason, hsame⟩ := endTurn_ends hends
          exact ⟨.stopped stepEnd hpoint hnone hturnEnds hreason, hsame⟩
        · exact absurd hends (not_ends_of_eq rfl)
  | caught =>
    obtain ⟨error, -, rfl⟩ := htakes
    exact absurd hends (not_ends_of_eq rfl)
  | fail appended =>
    obtain ⟨reason', hpoint, rfl⟩ := htakes
    obtain ⟨rfl, hsame⟩ := endTurn_ends hends
    exact ⟨.failed hpoint, hsame⟩
  | look =>
    obtain ⟨-, rfl⟩ := htakes
    refine absurd hends ?_
    unfold look
    split <;> exact not_ends_of_eq rfl
  | _ =>
    obtain ⟨events, hquiet, hmoments⟩ := Around.moments htakes
    exact absurd hends (not_ends_of_quiet hquiet hmoments)

end

/-! ## Runs -/

theorem settled_init (maxParallelToolCalls : Nat) (lastTurn : Int) (inbox : Queues) :
    Settled (init maxParallelToolCalls lastTurn inbox : Driver Result) := ⟨nofun, trivial⟩

/-- **A turn that ends well.**  Where a turn ends completed or for max-tokens: no steering is left, unless it ends at
a decision that enters no messages; if it ends completed, the tool calls of its last step have been answered to the
model, unless a batch of them concluded the turn; and a truncated last step asked for none. -/
theorem turn_ends_run {turn : Int} {reason : TurnEndReason} {maxParallelToolCalls : Nat} {lastTurn : Int} {inbox : Queues} {acts : List (DriverAct Result)}
    (h : Machine.exec step (init maxParallelToolCalls lastTurn inbox) acts = some s)
    {act : DriverAct Result} (hstep : s.step act = some s')
    (hends : s.Ends s' turn reason) (hwell : reason = .completed ∨ reason = .maxTokens) :
    (s'.inbox.nextStep = [] ∨ ∃ opened ended, act = .decided (.ok (.enter [])) opened ended)
      ∧ (reason = .completed → (debtsOf s'.moments).owes = true → (debtsOf s'.moments).concludes = true)
      ∧ ((debtsOf s'.moments).truncates = true → (debtsOf s'.moments).owes = false) := by
  have hinv : s.Steady ∧ s.Settled := by
    refine Machine.exec_invariant (I := fun t => t.Steady ∧ t.Settled) ?_
      ⟨steady_init .., settled_init ..⟩ h
    rintro act - t t' ⟨hsteady, ht⟩ hstep
    exact ⟨hsteady.step hstep, ht.step hsteady hstep⟩
  obtain ⟨-, hsettled⟩ := hinv
  have hhere := hsettled.here
  obtain ⟨hfor, hinbox, hdebts⟩ := step_ends hstep hends
  rw [hdebts, hinbox]
  cases hfor with
  | rejected hreason => rcases hwell with rfl | rfl <;> cases hreason
  | emptied opened ended claimed hact hpoint hreason =>
    simp only [Stands, hpoint] at hhere
    refine ⟨.inr ⟨opened, ended, hact⟩, fun hcompleted howes => ?_, hsettled.truncated⟩
    rcases hreason with ⟨stepEnd, hturnEnds, hreason⟩ | ⟨hzero, -⟩
    · cases stepEnd with
      | completed => exact hhere.2.2 hturnEnds howes
      | maxTokens => exact absurd (hcompleted.symm.trans hreason) nofun
    · exact absurd ((hhere.2.1 hzero).symm.trans howes) nofun
  | stopped stepEnd hpoint hnone hturnEnds hreason =>
    simp only [Stands, hpoint] at hhere
    refine ⟨.inl hnone, fun hcompleted howes => ?_, hsettled.truncated⟩
    cases stepEnd with
    | completed => exact hhere.2 hturnEnds howes
    | maxTokens => exact absurd (hcompleted.symm.trans hreason) nofun
  | failed hpoint =>
    simp only [Stands, hpoint] at hhere
    rcases hwell with rfl | rfl
    · exact absurd rfl hhere.1
    · exact absurd rfl hhere.2

/-- A prompt the model answers. -/
theorem turn_ends_run_of_answer : ∃ (s s' : Driver String) (act : DriverAct String),
      Machine.exec step (init 1 0 {}) (prompted ++ asked
        ++ [.finish .stop [] (.ok ()), .closeStep (.ok ()), .boundary]) = some s
      ∧ s.step act = some s' ∧ s.Ends s' 1 .completed ∧ s'.inbox.nextStep = [] := by
  have hrun : ((Machine.exec step (init 1 0 {}) (prompted ++ asked
      ++ [.finish .stop [] (.ok ()), .closeStep (.ok ()), .boundary])).bind fun s : Driver String =>
        (s.step (.stopped (.ok ()) (.ok ()))).map fun s' => s'.moments.drop s.moments.length)
      = some [.appended (.turnEnd 1 .completed)] := by
    decide +kernel
  obtain ⟨s, hs, hrest⟩ := Option.bind_eq_some_iff.mp hrun
  obtain ⟨s', hstep, hnew⟩ := Option.map_eq_some_iff.mp hrest
  have hends : s.Ends s' 1 .completed := by
    rw [Ends, hnew]
    exact List.mem_singleton_self _
  rcases (turn_ends_run hs hstep hends (.inl rfl)).1 with hnone | ⟨opened, ended, hact⟩
  · exact ⟨s, s', _, hs, hstep, hends, hnone⟩
  · cases hact

/-- The calls of a step: an exclusive one whose result concludes the turn, or does not. -/
def exclusiveCall (concludesTurn : Bool) : List (DriverAct String) :=
  let calls : List (ToolAct String) := [.select (.ok .exclusive), .fill (.ok .exclusive) (.ok ()),
    .prepared (.ok (.finalResult "r")), .commit (.result "r" concludesTurn (.ok ())),
    .commit (.threw (.error "")), .fill (.ok .exclusive) (.ok ()), .race 0, .select (.ok .exclusive)]
  [.finish .stop [⟨"c", "read", ""⟩] (.ok ())] ++ calls.map .tool ++ [.scheduled, .closeStep (.ok ()), .boundary]

def concludedTurn : List (DriverAct String) := prompted ++ asked ++ exclusiveCall true

/-- Steering continues an answered turn, is rewritten to nothing, and more of it has arrived. -/
def emptiedTurn : List (DriverAct String) :=
  prompted ++ asked ++ [.finish .stop [] (.ok ()), .closeStep (.ok ()),
    .send "s" .nextStep true (.ok ()), .wake, .boundary, .head (.ok ()) (.ok ()),
    .send "t" .nextStep true (.ok ()), .wake]

/-- A truncated step, and after it, for steering, one that asks for a tool call. -/
def truncatedTurn : List (DriverAct String) :=
  prompted ++ asked ++ [.finish .maxTokens [] (.ok ()), .closeStep (.ok ()),
      .send "s" .nextStep true (.ok ()), .wake, .boundary, .head (.ok ()) (.ok ()),
      .decided (.ok (.enter ["s"])) (.ok ()) (.ok ())]
    ++ asked ++ exclusiveCall false

/-- The actions end turn 1 well, with tool results no request has carried or with steering left. -/
def EndsOwing (acts : List (DriverAct String)) (act : DriverAct String) : Prop :=
  ∃ (s s' : Driver String) (reason : TurnEndReason),
    Machine.exec step (init 1 0 {}) acts = some s ∧ s.step act = some s'
      ∧ s.Ends s' 1 reason ∧ (reason = .completed ∨ reason = .maxTokens)
      ∧ ((debtsOf s'.moments).owes = true ∨ s'.inbox.nextStep ≠ [])

theorem endsOwing {acts : List (DriverAct String)} {act : DriverAct String} (reason : TurnEndReason)
    (hwell : reason = .completed ∨ reason = .maxTokens) (owed : Bool × List MessageId)
    (howed : owed.1 = true ∨ owed.2 ≠ [])
    (h : ((Machine.exec step (init 1 0 {}) acts).bind fun s : Driver String =>
      (s.step act).map fun s' => (s'.moments.drop s.moments.length, (debtsOf s'.moments).owes, s'.inbox.nextStep))
      = some ([.appended (.turnEnd 1 reason)], owed)) : EndsOwing acts act := by
  obtain ⟨s, hs, hrest⟩ := Option.bind_eq_some_iff.mp h
  obtain ⟨s', hstep, heq⟩ := Option.map_eq_some_iff.mp hrest
  obtain ⟨hnew, rfl⟩ := Prod.mk.inj heq
  refine ⟨s, s', reason, hs, hstep, ?_, hwell, howed⟩
  rw [Ends, hnew]
  exact mem_singleton_self _

/-- **Turns that end well and leave something owed**: a concluded turn, a turn that keeps the reason of an earlier
truncated step, and one that ends at an emptied decision. -/
theorem turn_ends_owing : EndsOwing concludedTurn (.stopped (.ok ()) (.ok ()))
      ∧ EndsOwing emptiedTurn (.decided (.ok (.enter [])) (.ok ()) (.ok ()))
      ∧ EndsOwing truncatedTurn (.stopped (.ok ()) (.ok ())) := by
  refine ⟨?_, ?_, ?_⟩
  · exact endsOwing .completed (.inl rfl) (true, []) (.inl rfl) (by decide +kernel)
  · exact endsOwing .completed (.inl rfl) (false, ["t"]) (.inr nofun) (by decide +kernel)
  · exact endsOwing .maxTokens (.inr rfl) (true, []) (.inl rfl) (by decide +kernel)

end Driver

end CocoHarness.Agent
