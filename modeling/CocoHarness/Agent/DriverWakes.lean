/-
# CocoHarness.Agent.DriverWakes — a waking message is not left behind.

A watch goes along with a driver and keeps the waking messages it owes a turn: those accepted into the
inbox of a running agent whose signal is not aborted, while they are pending, the run has not failed, and no
turn start has been rejected meanwhile.  In a run whose actions all meet a condition (`Watch.meets`) the
driver never goes idle with such a message (`woken_run`).

The condition is needed.  A running driver is trusted to claim what is queued, but there are two places where
it no longer looks: once it has seen the inbox empty, it goes idle only later (`lateSteer`); and a turn whose
first decision enters nothing is left without a look at the inbox (`emptiedStart`).
-/
import CocoHarness.Agent.DriverSteps

namespace CocoHarness.Agent

open Lib SessionLog Driver Option

variable {Result : Type}

/-! ## The watch -/

structure Watch (Result : Type) where
  driver : Driver Result
  /-- The run has failed, or was cancelled, and is on its way to the idle phase. -/
  failed : Bool := false
  /-- The waking messages accepted and still to be claimed. -/
  owed : List MessageId := []

namespace Watch

/-- Whether the run fails with the action: the turn's body threw, it never started, or its end was refused. -/
def fails (w : Watch Result) (act : DriverAct Result) (point : DriverPoint Result) : Bool :=
  match point, act with
  | .caught _, _ | .failing _, _ => true
  | .leaving, .begin _ | .leaving, .decided _ _ (.error _) | .leaving, .stopped _ (.error _)
  | .leaving, .fail _ => true
  | .leaving, _ => w.failed
  | _, _ => false

def rejects : DriverAct Result → Bool
  | .decided (.ok .reject) _ _ => true
  | _ => false

/-- A waking message that is new to the inbox of a running agent whose signal is not aborted. -/
def accepts (w : Watch Result) : DriverAct Result → List MessageId
  | .send message _ true _ =>
    if w.driver.phase.kind = .running ∧ w.driver.aborted = false ∧ message ∉ w.driver.inbox.pending then [message]
    else []
  | _ => []

def step (w : Watch Result) (act : DriverAct Result) : Option (Watch Result) :=
  (w.driver.step act).map fun driver =>
    let failed := w.fails act driver.point
    { driver
      failed
      owed := if failed || rejects act then []
        else (w.owed ++ w.accepts act).filter (· ∈ driver.inbox.pending) }

def init (maxParallelToolCalls : Nat) (lastTurn : Int) (inbox : Queues) : Watch Result :=
  { driver := .init maxParallelToolCalls lastTurn inbox }

/-- **The condition.**  No waking message is accepted once the driver is leaving, unless the run has failed
or is aborted; and no turn start is emptied while a message is owed. -/
def meets (w : Watch Result) : DriverAct Result → Bool
  | .send message _ true (.ok ()) =>
    match w.driver.point with
    | .leaving => w.failed || w.driver.aborted || message ∈ w.driver.inbox.pending
    | _ => true
  | .decided (.ok (.enter [])) _ (.ok ()) =>
    w.driver.turnEnds.isSome || w.driver.phase.step ≠ 0 || w.driver.aborted || w.owed.isEmpty
  | _ => true

end Watch

/-! ## How a driver comes to leave -/

theorem Queues.hasPending_eq_false {q : Queues} : q.hasPending = false ↔ q.pending = [] := by
  simp [hasPending, pending]

namespace Driver

variable {s s' : Driver Result} {act : DriverAct Result}

inductive Leaves (s : Driver Result) : DriverAct Result → Prop where
  | leaving {act : DriverAct Result} (hpoint : s.point = .leaving) (houtside : act.outside = true) :
      Leaves s act
  | begin (appended : Except JsError Unit) : Leaves s (.begin appended)
  | refusedEnd (decision : Except JsError PreStepDecision) (opened : Except JsError Unit)
      (error : JsError) : Leaves s (.decided decision opened (.error error))
  | refusedStop (outcome : Except JsError Unit) (error : JsError) :
      Leaves s (.stopped outcome (.error error))
  | fail (appended : Except JsError Unit) : Leaves s (.fail appended)
  | rejected (opened : Except JsError Unit) : Leaves s (.decided (.ok .reject) opened (.ok ()))
  | emptied (opened : Except JsError Unit) (hends : s.turnEnds = none) (hstep : s.phase.step = 0)
      (habort : s.aborted = false) : Leaves s (.decided (.ok (.enter [])) opened (.ok ()))
  | looked (hinbox : s.inbox.hasPending = false) : Leaves s .look

theorem endTurn_leaves {reason : TurnEndReason} {next : DriverPoint Result}
    {appended : Except JsError Unit} (h : (s.endTurn reason next appended).point = .leaving) :
    next = .leaving ∨ ∃ error, appended = .error error := by
  cases appended with
  | error error => exact .inr ⟨error, rfl⟩
  | ok _ => exact .inl h

theorem decided_leaves {decision : Except JsError PreStepDecision} {opened ended : Except JsError Unit}
    (h : (s.decided decision opened ended).point = .leaving) :
    s.Leaves (.decided decision opened ended) := by
  cases ended with
  | error error => exact .refusedEnd decision opened error
  | ok _ =>
    unfold decided at h
    split at h
    · cases h
    · next decision =>
      split at h
      · cases h
      · next habort =>
        cases decision with
        | reject => exact .rejected opened
        | enter messages =>
          dsimp only at h
          split at h
          · rcases endTurn_leaves h with hnext | ⟨error, herror⟩
            · cases hnext
            · cases herror
          · next hends =>
            split at h
            · next hfirst =>
              obtain ⟨hstep, rfl⟩ := hfirst
              have hnone : s.turnEnds = none := by
                cases hturn : s.turnEnds with
                | none => rfl
                | some reason => exact absurd rfl (hends reason hturn)
              exact .emptied opened hnone hstep (by simpa using habort)
            · exact absurd h (goes_openStep s _ opened).stays

theorem stopped_leaves {outcome ended : Except JsError Unit}
    (h : (s.stopped outcome ended).point = .leaving) : s.Leaves (.stopped outcome ended) := by
  unfold stopped at h
  split at h
  · cases h
  · split at h
    · cases h
    · split at h
      · rcases endTurn_leaves h with hnext | ⟨error, rfl⟩
        · cases hnext
        · exact .refusedStop _ error
      · cases h

theorem look_leaves (h : s.look.point = .leaving) : s.Leaves .look := by
  unfold look at h
  split at h
  · next hinbox => exact .looked (by simpa using hinbox)
  · cases h

theorem SamePoint.leaving {p q : DriverPoint Result} (h : SamePoint p q) : q = .leaving ↔ p = .leaving := by
  cases h with
  | same => exact Iff.rfl
  | signalled scheduler => constructor <;> nofun

theorem Around.leaves (h : s.Around s') (houtside : act.outside = true) (hleaving : s'.point = .leaving) :
    s.Leaves act := by
  rcases h.point with ⟨hsame, -, -⟩ | ⟨-, -, hbegin, -⟩
  · exact .leaving (hsame.leaving.mp hleaving) houtside
  · rw [hbegin] at hleaving
    cases hleaving

/-- **How a driver comes to leave.** -/
theorem step_leaves (h : s.step act = some s') (hleaving : s'.point = .leaving) : s.Leaves act := by
  have htakes := step_takes h
  cases act with
  | begin appended => exact .begin appended
  | decided decision opened ended =>
    obtain ⟨-, rfl⟩ := htakes
    exact decided_leaves hleaving
  | stopped outcome ended =>
    obtain ⟨-, rfl⟩ := htakes
    exact stopped_leaves hleaving
  | fail appended => exact .fail appended
  | look =>
    obtain ⟨-, rfl⟩ := htakes
    exact look_leaves hleaving
  | leave =>
    obtain ⟨-, rfl⟩ := htakes
    cases hleaving
  | head | enter | build | dispatch | chunk | broken | finish | recovered | tool | scheduled | closeStep
  | boundary | caught => exact absurd hleaving (htakes.goes rfl).stays
  | _ => exact Around.leaves htakes rfl hleaving

theorem step_rest (h : s.step act = some s') (hrest : s'.point = .rest) : s.point = .rest ∨ s.point = .leaving := by
  have htakes := step_takes h
  cases hown : act.outside with
  | true =>
    rcases (step_around hown h).point with ⟨hsame, -, -⟩ | ⟨-, -, hbegin, -⟩
    · exact .inl (hsame.rest.mp hrest)
    · rw [hrest] at hbegin
      cases hbegin
  | false =>
    rcases htakes.runs hown with ⟨-, hpoint⟩ | ⟨-, hleaving, -⟩
    · exact absurd hrest hpoint
    · exact .inr hleaving

end Driver

/-! ## What is owed -/

namespace Watch

variable {w w' : Watch Result} {act : DriverAct Result}

/-- **The watch's invariant.**  What is owed is pending, with a driver that will look at the inbox again. -/
structure Awake (w : Watch Result) : Prop where
  steady : w.driver.Steady
  pending : ∀ message ∈ w.owed, message ∈ w.driver.inbox.pending
  awake : w.owed ≠ [] → w.driver.point ≠ .leaving ∧ w.driver.point ≠ .rest

variable {message : MessageId}

theorem mem_accepts (h : message ∈ w.accepts act) :
    w.driver.phase.kind = .running ∧ w.driver.aborted = false ∧ message ∉ w.driver.inbox.pending
      ∧ ∃ target appended, act = .send message target true appended := by
  unfold accepts at h
  split at h
  · next sent target appended =>
    split at h
    · next hsend =>
      obtain rfl := List.mem_singleton.mp h
      exact ⟨hsend.1, hsend.2.1, hsend.2.2, target, appended, rfl⟩
    · cases h
  · cases h

theorem mutate_refused (s : Driver Result) (target : InboxTarget) (start deleteCount : JsNumber)
    {inserted : List MessageId} (hinserted : inserted ≠ []) (discardRemoved : Bool) (error : JsError) :
    ∃ refused, s.mutate target start deleteCount inserted discardRemoved (.error error) = .error refused := by
  unfold mutate
  dsimp only
  rw [if_neg fun hnothing => hinserted hnothing.2]
  split
  · exact ⟨_, rfl⟩
  · exact ⟨_, rfl⟩

theorem send_refused (s : Driver Result) (message : MessageId) (target : InboxTarget) (error : JsError) :
    s.send message target true (.error error) = s := by
  unfold send
  dsimp only
  split
  · rfl
  · next target' _ hsent =>
    obtain ⟨refused, hrefused⟩ := mutate_refused s
      (if (true && decide (s.phase.kind ≠ .idle) && s.aborted) = true then .nextTurn else target)
      (.infinity false) (.finite (.int 0)) (List.cons_ne_nil message []) true error
    rw [hrefused] at hsent
    cases hsent

theorem mem_owed (h : w.step act = some w') (hmem : message ∈ w'.owed) :
    w.driver.step act = some w'.driver ∧ w.fails act w'.driver.point = false ∧ rejects act = false
      ∧ message ∈ w'.driver.inbox.pending ∧ (message ∈ w.owed ∨ message ∈ w.accepts act) := by
  obtain ⟨driver, hstep, rfl⟩ := map_eq_some_iff.mp h
  dsimp only at hmem
  split at hmem
  · cases hmem
  · next hclear =>
    obtain ⟨hfails, hrejects⟩ := Bool.or_eq_false_iff.mp (Bool.eq_false_iff.mpr hclear)
    obtain ⟨hold, hpending⟩ := List.mem_filter.mp hmem
    exact ⟨hstep, hfails, hrejects, of_decide_eq_true hpending, List.mem_append.mp hold⟩

/-- A message owed after an action that meets the condition was owed to a driver at work. -/
theorem Awake.before (hw : w.Awake) (hmeets : w.meets act = true) (h : w.step act = some w')
    (hmem : message ∈ w'.owed) : w.driver.point ≠ .leaving ∧ w.driver.point ≠ .rest := by
  obtain ⟨hstep, hfails, -, hpending, hold | hnew⟩ := mem_owed h hmem
  · exact hw.awake (List.ne_nil_of_mem hold)
  · obtain ⟨hrunning, habort, hfresh, target, appended, rfl⟩ := mem_accepts hnew
    refine ⟨fun hleaving => ?_, hw.steady.mp hrunning⟩
    have hstays : w'.driver.point = .leaving := by
      have hsent := (step_around rfl hstep).point
      rcases hsent with ⟨hsame, -, -⟩ | ⟨hidle, -, -, -⟩
      · exact hsame.leaving.mpr hleaving
      · exact absurd hrunning hidle
    cases appended with
    | error error =>
      have hsame := (some.inj hstep).symm.trans (send_refused w.driver message target error)
      rw [hsame] at hpending
      exact hfresh hpending
    | ok _ =>
      simp only [meets, hleaving, habort, Bool.or_false, Bool.or_eq_true, decide_eq_true_eq] at hmeets
      rcases hmeets with hfailed | hpending
      · -- a failed run owes nothing
        simp only [fails, hstays] at hfails
        rw [hfails] at hfailed
        cases hfailed
      · exact hfresh hpending

/-- **One action.** -/
theorem Awake.step (hw : w.Awake) (hmeets : w.meets act = true) (h : w.step act = some w') : w'.Awake := by
  have hdriver : w.driver.step act = some w'.driver := by
    obtain ⟨driver, hstep, rfl⟩ := map_eq_some_iff.mp h
    exact hstep
  refine ⟨hw.steady.step hdriver, fun message hmem => (mem_owed h hmem).2.2.2.1, fun howed => ?_⟩
  obtain ⟨message, hmem⟩ := List.exists_mem_of_ne_nil _ howed
  obtain ⟨hstep, hfails, hrejects, hpending, hsource⟩ := mem_owed h hmem
  obtain ⟨hstaying, hawake⟩ := hw.before hmeets h hmem
  refine ⟨fun hleaving => ?_, fun hrest => ?_⟩
  · cases step_leaves hstep hleaving with
    | leaving hpoint => exact hstaying hpoint
    | begin appended | refusedEnd decision opened error | refusedStop outcome error | fail appended =>
      simp [fails, hleaving] at hfails
    | rejected opened => cases hrejects
    | emptied opened hends hfirst habort =>
      have hnone : w.owed = [] := by simpa [meets, hends, hfirst, habort] using hmeets
      rcases hsource with hold | hnew
      · rw [hnone] at hold
        cases hold
      · cases hnew
    | looked hinbox =>
      rcases hsource with hold | hnew
      · exact List.ne_nil_of_mem (hw.pending message hold) (Queues.hasPending_eq_false.mp hinbox)
      · cases hnew
  · rcases step_rest hstep hrest with hpoint | hpoint
    · exact hawake hpoint
    · exact hstaying hpoint

/-! ## Runs -/

end Watch

end CocoHarness.Agent
