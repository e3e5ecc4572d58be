/-
# CocoHarness.SessionLog.SurfaceManager — the incremental surface.

The manager shares the log array with its owner, who pushes events behind its back.  It keeps the fold state of the
events it has processed, a watermark, and the plan of the candidate it validated last, which it reuses when exactly
that event object turns up at exactly that seq.  Against it stands the manager that keeps nothing but the log and
folds it from scratch on every call (`scratchStep`); the two answer every operation alike
(`surfaceManager_refines_fold`).
-/
import CocoHarness.Lib.Machine
import CocoHarness.SessionLog.SurfacePartition

namespace CocoHarness.SessionLog

open Lib

/-- A JavaScript event object: its identity, which `===` compares, and what it holds. -/
structure EventRef where
  ref : Nat
  event : SessionEvent
  deriving DecidableEq

def eventsOf (log : List EventRef) : List SessionEvent := log.map (·.event)

structure PendingPlan where
  event : EventRef
  expectedSeq : Int
  plan : Option SurfacePlan

/-- Incremental ordered surface view and append-boundary validator. -/
structure SurfaceManager where
  log : List EventRef
  baseSeq : Int := 0
  state : SurfaceFoldState := {}
  lastProcessedSeq : Int := baseSeq - 1
  pendingPlan : Option PendingPlan := none

namespace SurfaceManager

/-! ## The manager -/

variable (m : SurfaceManager)

def tailSeq : Int := m.baseSeq + m.log.length - 1

/-- One iteration of `processDelta`; the validated candidate is folded by its pending plan. -/
def processEvent (event : EventRef) : Except JsError SurfaceManager := do
  let seq := m.lastProcessedSeq + 1
  let state ←
    match m.pendingPlan.filter fun p => p.event = event ∧ p.expectedSeq = seq with
    | some pending => pure (applySurfacePlan m.state pending.plan).1
    | none => do
      let (state, _) ← applySurfaceEvent m.state event.event seq (eventsOf m.log) m.baseSeq
      pure state
  return { m with
    state
    pendingPlan := m.pendingPlan.filter fun p => seq < p.expectedSeq
    lastProcessedSeq := seq }

/-- The loop of `processDelta`; a throw keeps the events processed before it. -/
def processLoop (m : SurfaceManager) : List EventRef → SurfaceManager × Except JsError Unit
  | [] => (m, .ok ())
  | event :: rest =>
    match m.processEvent event with
    | .ok m' => m'.processLoop rest
    | .error e => (m, .error e)

def processDelta : SurfaceManager × Except JsError Unit :=
  if m.lastProcessedSeq < m.tailSeq then
    m.processLoop (m.log.drop (m.lastProcessedSeq + 1 - m.baseSeq).toNat)
  else (m, .ok ())

/-- Validate the next candidate without mutating the committed surface. -/
def validateNext (event : EventRef) : SurfaceManager × Except JsError Unit :=
  match m.processDelta with
  | (m, .error e) => (m, .error e)
  | (m, .ok ()) =>
    let expectedSeq := m.baseSeq + m.log.length
    match planSurfaceEvent m.state event.event expectedSeq (eventsOf m.log) m.baseSeq with
    | .ok plan => ({ m with pendingPlan := some { event, expectedSeq, plan } }, .ok ())
    | .error e => (m, .error e)

def replaceGeneration : SurfaceManager × Except JsError Nat :=
  match m.processDelta with
  | (m, .error e) => (m, .error e)
  | (m, .ok ()) => (m, .ok m.state.replaceGeneration)

def nodes : SurfaceManager × Except JsError (List Int) :=
  match m.processDelta with
  | (m, .error e) => (m, .error e)
  | (m, .ok ()) => (m, .ok m.state.nodes)

def push (event : EventRef) : SurfaceManager := { m with log := m.log ++ [event] }

end SurfaceManager

/-! ## Operations -/

inductive ManagerOp where
  | validateNext (event : EventRef)
  | push (event : EventRef)
  | readNodes
  | readGeneration

inductive ManagerReply where
  | done
  | nodes (nodes : List Int)
  | generation (generation : Nat)
  | threw (error : JsError)

def ManagerReply.of {α : Type} (ok : α → ManagerReply) : Except JsError α → ManagerReply
  | .ok a => ok a
  | .error e => .threw e

def managerStep (m : SurfaceManager) : ManagerOp → SurfaceManager × ManagerReply
  | .validateNext event => (m.validateNext event).map id (.of fun _ => .done)
  | .push event => (m.push event, .done)
  | .readNodes => m.nodes.map id (.of .nodes)
  | .readGeneration => m.replaceGeneration.map id (.of .generation)

/-- The same operations on nothing but the log: every answer folds the log from scratch. -/
def scratchStep (log : List EventRef) : ManagerOp → List EventRef × ManagerReply
  | .validateNext event => (log, .of (fun _ => .done) do
      let result ← foldSurface (eventsOf log)
      planSurfaceEvent ⟨result.nodes, result.replacements.length⟩ event.event log.length
        (eventsOf log) 0)
  | .push event => (log ++ [event], .done)
  | .readNodes => (log, .of .nodes ((foldSurface (eventsOf log)).map (·.nodes)))
  | .readGeneration => (log, .of .generation ((foldSurface (eventsOf log)).map (·.replacements.length)))

/-! ## The invariant -/

variable {events : List SessionEvent}

theorem surfaceAfter_error_append {err : JsError} (h : surfaceAfter events = .error err) (more : List SessionEvent) :
    surfaceAfter (events ++ more) = .error err := by
  induction more using List.reverseRecOn with
  | nil => simpa using h
  | append_singleton more e ih => rw [← List.append_assoc, surfaceAfter_snoc, ih]; rfl

theorem surfaceAfter_generation {state : SurfaceFoldState} {rs : List SurfaceFoldReplacement} (h : surfaceAfter events = .ok (state, rs)) : state.replaceGeneration = rs.length := by
  induction events using List.reverseRecOn generalizing state rs with
  | nil =>
    simp only [surfaceAfter, foldSurfaceLoop, Except.ok.injEq, Prod.mk.injEq] at h
    obtain ⟨rfl, rfl⟩ := h
    rfl
  | append_singleton events e ih =>
    obtain ⟨state₁, rs₁, plan, hbefore, -, rfl, rfl⟩ := surfaceAfter_snoc_ok h
    have hcount := ih hbefore
    cases plan with
    | none => simpa [applySurfacePlan] using hcount
    | some plan => cases plan <;> simp [applySurfacePlan, hcount]

@[simp] theorem eventsOf_append (xs ys : List EventRef) :
    eventsOf (xs ++ ys) = eventsOf xs ++ eventsOf ys := by simp [eventsOf]

@[simp] theorem eventsOf_length (xs : List EventRef) : (eventsOf xs).length = xs.length := by simp [eventsOf]

namespace SurfaceManager

/-- The state is the fold of the prefix `done`, and a pending plan is its candidate's at its end. -/
structure Inv (m : SurfaceManager) (done rest : List EventRef) : Prop where
  base : m.baseSeq = 0
  log : m.log = done ++ rest
  watermark : m.lastProcessedSeq = done.length - 1
  state : ∃ rs, surfaceAfter (eventsOf done) = .ok (m.state, rs)
  pending : ∀ p, m.pendingPlan = some p → p.expectedSeq = done.length ∧
    planSurfaceEvent m.state p.event.event done.length (eventsOf done) 0 = .ok p.plan

theorem inv_new (log : List EventRef) : Inv { log } [] log := ⟨rfl, rfl, rfl, ⟨[], rfl⟩, by simp⟩

variable {m : SurfaceManager} {done rest : List EventRef}

/-- By its pending plan or afresh, the next event is folded as the scratch fold does. -/
theorem Inv.processEvent {e : EventRef} (h : m.Inv done (e :: rest)) : m.processEvent e =
      (applySurfaceEvent m.state e.event done.length (eventsOf done) 0).map fun p =>
        { m with state := p.1, pendingPlan := none, lastProcessedSeq := done.length } := by
  obtain ⟨hbase, hlog, hwater, ⟨rs, hstate⟩, hpending⟩ := h
  have hseq : m.lastProcessedSeq + 1 = done.length := by omega
  have hfresh : applySurfaceEvent m.state e.event done.length (eventsOf m.log) m.baseSeq
      = applySurfaceEvent m.state e.event done.length (eventsOf done) 0 := by
    rw [hbase, hlog]
    exact applySurfaceEvent_congr (by simpa using surfaceAfter_below hstate) (by simp)
  have hcleared : (m.pendingPlan.filter fun p => (done.length : Int) < p.expectedSeq) = none := by
    rw [Option.filter_eq_none_iff]
    intro p hp
    simp [(hpending p hp).1]
  rw [SurfaceManager.processEvent, hseq, hcleared, hfresh]
  dsimp only
  split
  · next p hp =>
    obtain ⟨hp, hmatch⟩ := Option.filter_eq_some_iff.mp hp
    simp only [decide_eq_true_eq] at hmatch
    have hplan := (hpending p hp).2
    rw [hmatch.1] at hplan
    simp [applySurfaceEvent, hplan, Except.map]
  · cases applySurfaceEvent m.state e.event done.length (eventsOf done) 0 <;> rfl

/-- **Catching up** ends with the state or the error of the scratch fold, and the invariant holds again. -/
theorem Inv.processLoop (h : m.Inv done rest) :
    ∃ m' done' rest', m.processLoop rest = (m', (surfaceAfter (eventsOf m.log)).map fun _ => ()) ∧
      m'.log = m.log ∧ m'.Inv done' rest' ∧
      ∀ r, surfaceAfter (eventsOf m.log) = .ok r → rest' = [] := by
  induction rest generalizing m done with
  | nil =>
    obtain ⟨rs, hstate⟩ := h.state
    have hall : surfaceAfter (eventsOf m.log) = .ok (m.state, rs) := by rw [h.log, List.append_nil, hstate]
    exact ⟨m, done, [], by rw [hall]; rfl, rfl, h, fun _ _ => rfl⟩
  | cons e rest ih =>
    obtain ⟨rs, hstate⟩ := h.state
    have hsnoc := surfaceAfter_snoc (eventsOf done) e.event
    rw [hstate, ok_bind, eventsOf_length] at hsnoc
    dsimp only at hsnoc
    have hlog : m.log = (done ++ [e]) ++ rest := by simp [h.log]
    rw [SurfaceManager.processLoop, h.processEvent]
    cases happly : applySurfaceEvent m.state e.event done.length (eventsOf done) 0 with
    | error err =>
      rw [happly, error_bind] at hsnoc
      have hall : surfaceAfter (eventsOf m.log) = .error err := by
        rw [hlog, eventsOf_append, eventsOf_append]
        exact surfaceAfter_error_append hsnoc _
      exact ⟨m, done, e :: rest, by rw [hall]; rfl, rfl, h, fun r hr => by simp [hall] at hr⟩
    | ok p =>
      obtain ⟨state, r⟩ := p
      rw [happly, ok_bind] at hsnoc
      have hnext : Inv { m with state, pendingPlan := none, lastProcessedSeq := done.length }
          (done ++ [e]) rest :=
        ⟨h.base, hlog, by simp, ⟨_, by rw [eventsOf_append]; exact hsnoc⟩, by simp⟩
      exact ih hnext

theorem Inv.processDelta (h : m.Inv done rest) :
    ∃ m' done' rest', m.processDelta = (m', (surfaceAfter (eventsOf m.log)).map fun _ => ()) ∧
      m'.log = m.log ∧ m'.Inv done' rest' ∧
      ∀ r, surfaceAfter (eventsOf m.log) = .ok r → rest' = [] := by
  have hdrop : m.log.drop (m.lastProcessedSeq + 1 - m.baseSeq).toNat = rest := by
    rw [h.log, h.watermark, h.base]
    simp
  unfold SurfaceManager.processDelta
  split
  · rw [hdrop]
    exact h.processLoop
  · next hdone =>
    have hrest : rest = [] := by
      have hlen : m.log.length = done.length + rest.length := by simp [h.log]
      have hzero : rest.length = 0 := by
        rw [tailSeq, h.base, h.watermark, hlen] at hdone
        push_cast at hdone
        omega
      exact List.eq_nil_of_length_eq_zero hzero
    subst hrest
    simpa [SurfaceManager.processLoop] using h.processLoop

/-! ## Every operation answers as the scratch fold does -/

theorem Inv.scratch (h : m.Inv done []) : ∃ rs, surfaceAfter (eventsOf m.log) = .ok (m.state, rs) ∧
      foldSurface (eventsOf m.log) = .ok ⟨m.state.nodes, rs⟩ ∧
      (⟨m.state.nodes, rs.length⟩ : SurfaceFoldState) = m.state := by
  obtain ⟨rs, hstate⟩ := h.state
  have hlog : m.log = done := by simpa using h.log
  rw [hlog]
  refine ⟨rs, hstate, foldSurface_of_surfaceAfter hstate, ?_⟩
  rw [← surfaceAfter_generation hstate]

theorem Inv.processDelta_cases (h : m.Inv done rest) : (∃ m' err, m.processDelta = (m', .error err) ∧ m'.log = m.log ∧
        (∃ done' rest', m'.Inv done' rest') ∧ foldSurface (eventsOf m.log) = .error err) ∨
      (∃ m', m.processDelta = (m', .ok ()) ∧ m'.log = m.log ∧ m'.Inv m.log []) := by
  obtain ⟨m', done', rest', hdelta, hlog, hinv, hcaught⟩ := h.processDelta
  cases hafter : surfaceAfter (eventsOf m.log) with
  | error err =>
    rw [hafter] at hdelta
    exact .inl ⟨m', err, hdelta, hlog, ⟨done', rest', hinv⟩, by simp [foldSurface_eq, hafter, Except.map]⟩
  | ok r =>
    have hrest := hcaught r hafter
    subst hrest
    have hdone : done' = m.log := by rw [← hlog, hinv.log, List.append_nil]
    subst hdone
    rw [hafter] at hdelta
    exact .inr ⟨m', hdelta, hlog, hinv⟩

def Represents (m : SurfaceManager) (log : List EventRef) : Prop := m.log = log ∧ ∃ done rest, m.Inv done rest

theorem represents_validateNext {log : List EventRef} (h : m.Represents log) (e : EventRef) :
    (managerStep m (.validateNext e)).2 = (scratchStep log (.validateNext e)).2 ∧
      (managerStep m (.validateNext e)).1.Represents (scratchStep log (.validateNext e)).1 := by
  obtain ⟨rfl, done, rest, hinv⟩ := h
  simp only [managerStep, scratchStep, validateNext]
  rcases hinv.processDelta_cases with
    ⟨m', err, hdelta, hlog, hinv', hfold⟩ | ⟨m', hdelta, hlog, hinv'⟩
  · rw [hdelta, hfold]
    exact ⟨rfl, hlog, hinv'⟩
  · obtain ⟨rs, -, hfold, hstate⟩ := hinv'.scratch
    rw [hlog] at hfold
    rw [hdelta, hfold]
    have hexpected : m'.baseSeq + m'.log.length = m.log.length := by rw [hinv'.base, hlog, zero_add]
    have hplan_eq : planSurfaceEvent m'.state e.event (m'.baseSeq + m'.log.length)
        (eventsOf m'.log) m'.baseSeq = planSurfaceEvent m'.state e.event m.log.length (eventsOf m.log) 0 := by
      rw [hexpected, hinv'.base, hlog]
    simp only [ok_bind, hstate, hplan_eq]
    cases hplan : planSurfaceEvent m'.state e.event m.log.length (eventsOf m.log) 0 with
    | error err => exact ⟨rfl, hlog, _, _, hinv'⟩
    | ok plan =>
      refine ⟨rfl, hlog, m.log, [], hinv'.base, hinv'.log, hinv'.watermark, hinv'.state, ?_⟩
      intro p hp
      cases hp
      exact ⟨hexpected, hplan⟩

theorem represents_step {log : List EventRef} (h : m.Represents log) (op : ManagerOp) :
    (managerStep m op).2 = (scratchStep log op).2 ∧ (managerStep m op).1.Represents (scratchStep log op).1 := by
  cases op with
  | validateNext e => exact represents_validateNext h e
  | push e =>
    obtain ⟨rfl, done, rest, hinv⟩ := h
    refine ⟨rfl, rfl, done, rest ++ [e], hinv.base, ?_, hinv.watermark, hinv.state, hinv.pending⟩
    simp [managerStep, push, hinv.log]
  | readNodes =>
    obtain ⟨rfl, done, rest, hinv⟩ := h
    simp only [managerStep, scratchStep, nodes]
    rcases hinv.processDelta_cases with
      ⟨m', err, hdelta, hlog, hinv', hfold⟩ | ⟨m', hdelta, hlog, hinv'⟩
    · rw [hdelta, hfold]
      exact ⟨rfl, hlog, hinv'⟩
    · obtain ⟨rs, -, hfold, -⟩ := hinv'.scratch
      rw [hlog] at hfold
      rw [hdelta, hfold]
      exact ⟨rfl, hlog, _, _, hinv'⟩
  | readGeneration =>
    obtain ⟨rfl, done, rest, hinv⟩ := h
    simp only [managerStep, scratchStep, replaceGeneration]
    rcases hinv.processDelta_cases with
      ⟨m', err, hdelta, hlog, hinv', hfold⟩ | ⟨m', hdelta, hlog, hinv'⟩
    · rw [hdelta, hfold]
      exact ⟨rfl, hlog, hinv'⟩
    · obtain ⟨rs, hafter, hfold, -⟩ := hinv'.scratch
      rw [hlog] at hfold hafter
      rw [hdelta, hfold]
      refine ⟨?_, hlog, _, _, hinv'⟩
      simp [ManagerReply.of, Except.map, surfaceAfter_generation hafter]

theorem represents_new (log : List EventRef) : Represents { log } log := ⟨rfl, [], log, inv_new log⟩

/-! ## On an accepted log -/

section Accepted

variable {log : List EventRef} {state : SurfaceFoldState} {rs : List SurfaceFoldReplacement}

theorem Represents.push (h : m.Represents log) (e : EventRef) : (m.push e).Represents (log ++ [e]) :=
  (represents_step h (.push e)).2

theorem Represents.processDelta (h : m.Represents log) (hlog : surfaceAfter (eventsOf log) = .ok (state, rs)) :
    ∃ m', m.processDelta = (m', .ok ()) ∧ m'.log = log ∧ m'.state = state ∧ m'.Inv log [] := by
  obtain ⟨rfl, done, rest, hinv⟩ := h
  rcases hinv.processDelta_cases with ⟨m', err, -, -, -, hfold⟩ | ⟨m', hdelta, hlog', hinv'⟩
  · rw [foldSurface_of_surfaceAfter hlog] at hfold
    simp at hfold
  · obtain ⟨rs', hstate⟩ := hinv'.state
    rw [hlog, Except.ok.injEq, Prod.mk.injEq] at hstate
    exact ⟨m', hdelta, hlog', hstate.1.symm, hinv'⟩

theorem Represents.nodes (h : m.Represents log) (hlog : surfaceAfter (eventsOf log) = .ok (state, rs)) :
    ∃ m', m.nodes = (m', .ok state.nodes) ∧ m'.Represents log := by
  obtain ⟨m', hdelta, hlog', hstate, hinv⟩ := h.processDelta hlog
  exact ⟨m', by rw [SurfaceManager.nodes, hdelta, ← hstate], hlog', _, _, hinv⟩

theorem Represents.replaceGeneration (h : m.Represents log) (hlog : surfaceAfter (eventsOf log) = .ok (state, rs)) :
    ∃ m', m.replaceGeneration = (m', .ok state.replaceGeneration) ∧ m'.Represents log := by
  obtain ⟨m', hdelta, hlog', hstate, hinv⟩ := h.processDelta hlog
  exact ⟨m', by rw [SurfaceManager.replaceGeneration, hdelta, ← hstate], hlog', _, _, hinv⟩

/-- Validation decides by the plan from scratch, and the manager still stands at the log. -/
theorem Represents.validateNext (h : m.Represents log)
    (hlog : surfaceAfter (eventsOf log) = .ok (state, rs)) (e : EventRef) :
    ∃ m', m.validateNext e = (m', (planSurfaceEvent state e.event log.length (eventsOf log) 0).map fun _ => ()) ∧
      m'.Represents log := by
  obtain ⟨m', hdelta, hlog', hstate, hinv⟩ := h.processDelta hlog
  have hrep := (represents_step h (.validateNext e)).2
  have hplan : planSurfaceEvent m'.state e.event (m'.baseSeq + m'.log.length) (eventsOf m'.log)
      m'.baseSeq = planSurfaceEvent state e.event log.length (eventsOf log) 0 := by
    rw [hinv.base, hlog', hstate, zero_add]
  simp only [managerStep, scratchStep, SurfaceManager.validateNext, hdelta, hplan] at hrep ⊢
  cases hres : planSurfaceEvent state e.event log.length (eventsOf log) 0 with
  | error err | ok plan => exact ⟨_, rfl, by simpa [hres] using hrep⟩

end Accepted

end SurfaceManager

theorem scratchStep_validateNext (log : List EventRef) (e : EventRef) :
    (scratchStep log (.validateNext e)).1 = log := rfl

/-- **The incremental surface is the fold.**  Over every run the manager answers as folding the log from scratch does,
and dropping a validation changes no later answer. -/
theorem surfaceManager_refines_fold (log : List EventRef) (ops : List ManagerOp) :
    (Machine.run managerStep { log } ops).2 = (Machine.run scratchStep log ops).2 ∧
      ∀ before e after, ops = before ++ .validateNext e :: after →
        (Machine.run managerStep { log } ops).2.drop (before.length + 1) =
          (Machine.run managerStep { log } (before ++ after)).2.drop before.length := by
  have hscratch : ∀ ops : List ManagerOp,
      (Machine.run managerStep { log } ops).2 = (Machine.run scratchStep log ops).2 := fun ops =>
    (Machine.run_simulates (R := SurfaceManager.Represents) (fun _ _ op h => SurfaceManager.represents_step h op)
      (SurfaceManager.represents_new log) ops).1
  refine ⟨hscratch ops, ?_⟩
  rintro before e after rfl
  rw [hscratch, hscratch, Machine.run_append, Machine.run_append, Machine.run_cons,
    scratchStep_validateNext, List.append_cons]
  rw [List.drop_left' (by simp), List.drop_left' (by simp)]

end CocoHarness.SessionLog
