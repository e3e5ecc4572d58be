/-
# CocoHarness.Goal.Agreement — the goal service and the strict fold agree.

The log is always one the strict fold reads, and the cache is what it makes of the events observed (`Inv`).
-/
import CocoHarness.Lib.Machine
import CocoHarness.Goal.Mutations

namespace CocoHarness.Goal

open Lib Lib.SafeInteger SessionLog List Option

/-! ## Events not observed -/

def settled (pending : Option (Int × GoalActivation)) (activation : GoalActivation) (events : List SessionEvent) :
    GoalActivation :=
  events.foldl (activationAfter pending) activation

theorem settled_snoc (pending : Option (Int × GoalActivation)) (activation : GoalActivation) (events : List SessionEvent)
    (event : SessionEvent) :
    settled pending activation (events ++ [event]) = activationAfter pending (settled pending activation events) event := by
  rw [settled, foldl_append]
  rfl

variable {events : List SessionEvent}

theorem settled_clear {seq : Int} {pending activation : GoalActivation}
    (hother : ∀ e ∈ events, e.seq ≠ seq) : settled (some (seq, pending)) activation events = settled none activation events := by
  induction events generalizing activation with
  | nil => rfl
  | cons event events ih =>
    have hafter : activationAfter (some (seq, pending)) activation event = activationAfter none activation event := by
      have hne := hother event mem_cons_self
      simp only [activationAfter, if_neg (Ne.symm hne)]
    show settled _ (activationAfter _ activation event) events = settled _ (activationAfter _ activation event) events
    rw [hafter]
    exact ih fun e he => hother e (mem_cons_of_mem event he)

theorem settled_disarmed (events : List SessionEvent) : settled none .disarmed events = .disarmed := by
  induction events with
  | nil => rfl
  | cons event events ih =>
    have hafter : activationAfter none .disarmed event = .disarmed := by simp [activationAfter]
    show settled none (activationAfter none .disarmed event) events = .disarmed
    rw [hafter]
    exact ih

theorem syncEvents_ok {cache : GoalCache} {state : GoalFoldState} (h : events.foldlM applyGoalEvent cache.state = .ok state) : syncEvents cache events =
      ({ cache with
        state, activation := settled cache.pendingActivation cache.activation events
        observedSeq := cache.observedSeq + events.length }, .ok ()) := by
  induction events generalizing cache with
  | nil =>
    cases h
    rfl
  | cons event events ih =>
    rw [foldlM_cons] at h
    obtain ⟨next, hnext, hrest⟩ := bind_eq_ok_iff.mp h
    simp only [syncEvents, hnext]
    rw [ih hrest]
    simp only [settled, foldl_cons, length_cons, Prod.mk.injEq, GoalCache.mk.injEq, and_true, true_and]
    omega

namespace GoalService

variable {config : ResolvedConfig} {m m' : GoalService} {state : GoalFoldState}

/-! ## Invariant -/

structure Inv (m : GoalService) (state : GoalFoldState) : Prop where
  log : foldState m.log.events = .ok state
  observed : ∀ cache, m.cache = some cache →
    cache.observedSeq ≤ m.log.events.length ∧ foldState (m.log.events.take cache.observedSeq) = .ok cache.state
  -- a slot is filled while an append of the service is published
  pending : ∀ cache seq activation, m.cache = some cache → cache.pendingActivation = some (seq, activation) →
    ∃ publication leaves, m.publication = some publication ∧ publication.mine = some leaves ∧
      publication.event.seq = seq ∧ (activation = .armed → leaves = true)
  next : ∀ publication, m.publication = some publication → publication.committed = false →
    publication.event.seq = m.log.events.length ∧ ∃ next, applyGoalEvent state publication.event = .ok next
  mine : ∀ publication leaves, m.publication = some publication → publication.mine = some leaves →
    publication.event.type = "goal/change"
  armed : ∀ cache, m.cache = some cache →
    settled cache.pendingActivation cache.activation (m.log.events.drop cache.observedSeq) = .armed → m.armed = true

def caughtUp (m : GoalService) (state : GoalFoldState) : GoalCache :=
  match m.cache with
  | none => { state, observedSeq := m.log.events.length }
  | some cache =>
    { cache with
      state, observedSeq := m.log.events.length
      activation := settled cache.pendingActivation cache.activation (m.log.events.drop cache.observedSeq) }

variable {cache : GoalCache}

theorem Inv.unseen (h : Inv m state) (hcache : m.cache = some cache) :
    (m.log.events.drop cache.observedSeq).foldlM applyGoalEvent cache.state = .ok state := by
  have hall := h.log
  rw [← take_append_drop cache.observedSeq m.log.events, foldState_append, (h.observed cache hcache).2] at hall
  exact hall

theorem Inv.sync_eq (h : Inv m state) :
    m.sync = ({ m with cache := some (m.caughtUp state) }, .ok (m.caughtUp state)) := by
  unfold sync caughtUp
  cases hcache : m.cache with
  | none => simp only [h.log]
  | some cache =>
    have hlength : cache.observedSeq + (m.log.events.drop cache.observedSeq).length = m.log.events.length := by
      have := (h.observed cache hcache).1
      rw [length_drop]
      omega
    simp only [syncEvents_ok (h.unseen hcache), hlength]

theorem caughtUp_observedSeq (m : GoalService) (state : GoalFoldState) :
    (m.caughtUp state).observedSeq = m.log.events.length := by
  unfold caughtUp
  split <;> rfl

theorem caughtUp_state (m : GoalService) (state : GoalFoldState) : (m.caughtUp state).state = state := by
  unfold caughtUp
  split <;> rfl

theorem Inv.caughtUp_armed (h : Inv m state) (harmed : (m.caughtUp state).activation = .armed) : m.armed = true := by
  unfold caughtUp at harmed
  split at harmed
  · cases harmed
  · next cache hcache => exact h.armed cache hcache harmed

theorem Inv.caughtUp_pending (h : Inv m state) {seq : Int} {activation : GoalActivation}
    (hpending : (m.caughtUp state).pendingActivation = some (seq, activation)) :
    ∃ publication leaves, m.publication = some publication ∧ publication.mine = some leaves ∧
      publication.event.seq = seq ∧ (activation = .armed → leaves = true) := by
  unfold caughtUp at hpending
  split at hpending
  · cases hpending
  · next cache hcache => exact h.pending cache seq activation hcache hpending

theorem Inv.withCache (h : Inv m state) (cache : GoalCache) {armed : Bool} (hstate : cache.state = state)
    (hobserved : cache.observedSeq = m.log.events.length)
    (hpending : ∀ seq activation, cache.pendingActivation = some (seq, activation) →
      ∃ publication leaves, m.publication = some publication ∧ publication.mine = some leaves ∧
        publication.event.seq = seq ∧ (activation = .armed → leaves = true))
    (harmed : cache.activation = .armed → armed = true) : Inv { m with cache := some cache, armed } state := by
  refine ⟨h.log, fun other hother => ?_, fun other seq activation hother => ?_, h.next, h.mine, fun other hother => ?_⟩
  · cases hother
    show cache.observedSeq ≤ _ ∧ foldState (m.log.events.take cache.observedSeq) = .ok cache.state
    rw [hobserved, take_length, hstate]
    exact ⟨Nat.le_refl _, h.log⟩
  · cases hother
    exact hpending seq activation
  · cases hother
    show settled _ _ (m.log.events.drop cache.observedSeq) = .armed → armed = true
    rw [hobserved, drop_length]
    exact harmed

theorem Inv.sync (h : Inv m state) : Inv m.sync.1 state := by
  rw [h.sync_eq]
  exact h.withCache _ (caughtUp_state ..) (caughtUp_observedSeq ..) (fun _ _ => h.caughtUp_pending) h.caughtUp_armed

/-! ## What a read finds -/

/-- The state and the activation that whoever reads next is shown. -/
def reads (m : GoalService) : Except Thrown (GoalFoldState × GoalActivation) :=
  m.sync.2.map fun cache => (cache.state, cache.activation)

theorem Inv.reads_eq (h : Inv m state) : m.reads = .ok (state, (m.caughtUp state).activation) := by
  rw [reads, h.sync_eq]
  show Except.ok ((m.caughtUp state).state, _) = _
  rw [caughtUp_state]

theorem Inv.reads_withCache (h : Inv m' state) (hcache : m'.cache = some cache)
    (hobserved : cache.observedSeq = m'.log.events.length) : m'.reads = .ok (state, cache.activation) := by
  rw [h.reads_eq, caughtUp, hcache]
  show Except.ok (state, settled _ cache.activation (m'.log.events.drop cache.observedSeq)) = _
  rw [hobserved, drop_length]
  rfl

/-! ## Reads, and operations up to their append -/

theorem Inv.prepareMutation (h : Inv m state) (live : Bool) : m.prepareMutation live = (m, .error m.agentNotLive) ∨
      m.prepareMutation live = ({ m with cache := some (m.caughtUp state) }, .ok (m.caughtUp state)) := by
  unfold GoalService.prepareMutation
  split
  · exact .inr h.sync_eq
  · exact .inl rfl

theorem Inv.get (h : Inv m state) (live : Bool) : Inv (m.get live).1 state := by
  have hsynced := h.sync
  rw [h.sync_eq] at hsynced
  unfold GoalService.get
  rcases h.prepareMutation live with hprepare | hprepare
  · rw [hprepare]
    exact h
  · rw [hprepare]
    exact hsynced

theorem Inv.disarm (h : Inv m state) (live : Bool) : Inv (m.disarm live).1 state := by
  unfold GoalService.disarm
  rcases h.prepareMutation live with hprepare | hprepare
  · rw [hprepare]
    exact h
  · rw [hprepare]
    exact h.withCache { m.caughtUp state with activation := .disarmed } (caughtUp_state ..)
      (caughtUp_observedSeq ..) (fun _ _ => h.caughtUp_pending) nofun

theorem Inv.no_pending (h : Inv m state) (hnone : m.publication = none) (hcache : m.cache = some cache) :
    cache.pendingActivation = none := by
  cases hpending : cache.pendingActivation with
  | none => rfl
  | some pending =>
    obtain ⟨publication, leaves, hpublication, -⟩ := h.pending cache pending.1 pending.2 hcache hpending
    rw [hnone] at hpublication
    cases hpublication

theorem Inv.sessionStart (h : Inv m state) (hnone : m.publication = none) : Inv m.sessionStart.1 state := by
  unfold GoalService.sessionStart
  split
  · next cache hcache =>
    have hpending := h.no_pending hnone hcache
    refine { h with
      observed := fun other hother => ?_
      pending := fun other seq activation hother => ?_
      armed := fun other hother => ?_ }
    · cases hother
      exact h.observed cache hcache
    · cases hother
      exact h.pending cache seq activation hcache
    · cases hother
      show settled cache.pendingActivation .disarmed _ = .armed → _
      rw [hpending, settled_disarmed]
      exact nofun
  · rw [h.sync_eq]
    exact h.withCache { m.caughtUp state with activation := .disarmed } (caughtUp_state ..)
      (caughtUp_observedSeq ..) (fun _ _ => h.caughtUp_pending) nofun

variable {live : Bool} {operation : Operation} {now : WallClock}

/-- **An operation up to its append**: it stops, or its change is one the fold admits, and is being published. -/
theorem Inv.start_cases {P : GoalService × Except Thrown Unit → Prop} (h : Inv m state) (hfresh : m.isFresh operation = true)
    (hstops : ∀ error, P (m, .error error))
    (hreads : ∀ error, P ({ m with cache := some (m.caughtUp state) }, .error error))
    (hreenters : ∀ error, m.publication ≠ none →
      P ({ m with cache := some { m.caughtUp state with pendingActivation := none } }, .error error))
    (hpublishes : ∀ (mutation : Mutation) (event : SessionEvent), m.publication = none →
      event.type = "goal/change" → event.seq = m.log.events.length → (∃ next, applyGoalEvent state event = .ok next) →
      (mutation.activation = .armed → operation.leaves m.armed = true) →
      P ({ m with
        cache := some { m.caughtUp state with pendingActivation := some ((m.log.events.length : Int), mutation.activation) }
        publication := some { event, mine := some (operation.leaves m.armed) } }, .ok ())) :
    P (m.start config live operation now) := by
  unfold GoalService.start
  split
  · exact hstops _
  · next change hplan =>
    rcases h.prepareMutation live with hprepare | hprepare
    · rw [hprepare]
      exact hstops _
    · rw [hprepare]
      dsimp only
      split
      · exact hreads _
      · next mutation hmutation =>
        have hfold : FoldInv (m.caughtUp state).state m.log.events.length := by
          rw [caughtUp_state]
          exact foldState_inv h.log
        have hnew : ∀ request uuid, operation = .create request uuid →
            s!"goal-{uuid}" ∉ (m.caughtUp state).state.seenGoalIds := by
          rintro request uuid rfl
          rw [caughtUp_state]
          simpa [isFresh, h.log, Except.toOption] using hfresh
        obtain ⟨haccepted, hleaves⟩ := plan_accepted hfold m.log.bounded hnew h.caughtUp_armed hplan hmutation
        unfold commit
        dsimp only
        split
        · next hpublication => exact hreenters _ (isSome_iff_ne_none.mp hpublication)
        · next hpublication =>
          rw [caughtUp_state] at haccepted
          exact hpublishes mutation _ (not_isSome_iff_eq_none.mp hpublication) rfl rfl (haccepted.event rfl rfl)
            hleaves

theorem Inv.start (h : Inv m state)
    (hfresh : m.isFresh operation = true) : Inv (m.start config live operation now).1 state := by
  have hsynced := h.sync
  rw [h.sync_eq] at hsynced
  refine h.start_cases (P := fun result => Inv result.1 state) hfresh ?_ ?_ ?_ ?_
  · exact fun _ => h
  · exact fun _ => hsynced
  · intro _ _
    exact h.withCache { m.caughtUp state with pendingActivation := none } (caughtUp_state ..)
      (caughtUp_observedSeq ..) nofun h.caughtUp_armed
  · intro mutation event hnone htype hseq haccepts hleaves
    refine
      { log := h.log
        observed := fun cache hcache => ?_
        pending := fun cache seq activation hcache hpending => ?_
        next := fun publication hpublication _ => ?_
        mine := fun publication leaves hpublication _ => ?_
        armed := fun cache hcache => ?_ }
    · cases hcache
      exact hsynced.observed (m.caughtUp state) rfl
    · cases hcache
      cases Option.some.inj hpending
      exact ⟨_, _, rfl, rfl, hseq, hleaves⟩
    · cases hpublication
      exact ⟨hseq, haccepts⟩
    · cases hpublication
      exact htype
    · cases hcache
      show settled _ (m.caughtUp state).activation (m.log.events.drop (m.caughtUp state).observedSeq) = .armed → _
      rw [caughtUp_observedSeq, drop_length]
      exact h.caughtUp_armed

/-! ## Publication -/

variable {event : SessionEvent}

theorem Inv.append (h : Inv m state) (hnone : m.publication = none)
    (hseq : event.seq = m.log.events.length) (hadmits : m.admits event = true) :
    Inv { m with publication := some { event } } state := by
  refine
    { h with
      pending := fun cache seq activation hcache hpending => ?_
      next := fun publication hpublication _ => ?_
      mine := fun publication leaves hpublication hmine => ?_ }
  · rw [h.no_pending hnone hcache] at hpending
    cases hpending
  · cases hpublication
    refine ⟨hseq, ?_⟩
    unfold admits at hadmits
    rw [foldState_snoc, h.log, ok_bind] at hadmits
    show ∃ next, applyGoalEvent state event = .ok next
    cases happlied : applyGoalEvent state event with
    | error e =>
      rw [happlied] at hadmits
      cases hadmits
    | ok next => exact ⟨next, rfl⟩
  · cases hpublication
    cases hmine

/-- **The event is in the log**, and the fold goes on. -/
theorem Inv.push (h : Inv m state) (hnext : m.push = some m') : ∃ state', Inv m' state' := by
  obtain ⟨publication, hpublication, hnext⟩ := bind_eq_some_iff.mp hnext
  obtain ⟨⟨⟩, hcommitted, hnext⟩ := bind_eq_some_iff.mp hnext
  obtain ⟨log, hlog, hnext⟩ := bind_eq_some_iff.mp hnext
  have hcommitted : publication.committed = false := (guard_eq_some' _).mp hcommitted
  obtain ⟨hseq, state', hstate'⟩ := h.next publication hpublication hcommitted
  have hevents : log.events = m.log.events ++ [publication.event] := by
    unfold EventLog.push at hlog
    split at hlog
    · exact (Option.some.inj hlog) ▸ rfl
    · cases hlog
  cases hnext
  refine ⟨state', ?_, fun cache hcache => ?_, fun cache seq activation hcache hpending => ?_, fun other hother => ?_,
    fun other leaves hother hmine => ?_, fun cache hcache harmed => ?_⟩
  · show foldState log.events = .ok state'
    rw [hevents, foldState_snoc, h.log, ok_bind, hstate']
  · obtain ⟨hle, hfold⟩ := h.observed cache hcache
    show cache.observedSeq ≤ log.events.length ∧ foldState (log.events.take cache.observedSeq) = _
    rw [hevents, take_append_of_le_length hle, length_append]
    exact ⟨Nat.le_add_right_of_le hle, hfold⟩
  · obtain ⟨other, leaves, hother, hmine, hseq, hleaves⟩ := h.pending cache seq activation hcache hpending
    rw [hpublication] at hother
    cases hother
    exact ⟨_, leaves, rfl, hmine, hseq, hleaves⟩
  · cases hother
    exact nofun
  · cases hother
    exact h.mine publication leaves hpublication hmine
  · have hle := (h.observed cache hcache).1
    have harmed : settled cache.pendingActivation cache.activation (log.events.drop cache.observedSeq) = .armed := harmed
    rw [hevents, drop_append_of_le_length hle, settled_snoc] at harmed
    show publication.mine.getD (m.armed && publication.event.type ≠ "goal/change") = true
    unfold activationAfter at harmed
    split at harmed
    · next htype =>
      -- a goal change arms only as the one that is awaited
      split at harmed
      · next seq activation hpending =>
        split at harmed
        · obtain ⟨other, leaves, hother, hmine, -, hleaves⟩ := h.pending cache seq activation hcache hpending
          rw [hpublication] at hother
          cases hother
          rw [hmine]
          exact hleaves harmed
        · cases harmed
      · cases harmed
    · next htype =>
      have hmine : publication.mine = none := by
        cases hmine : publication.mine with
        | none => rfl
        | some leaves => exact absurd (h.mine publication leaves hpublication hmine) htype
      rw [hmine]
      simpa [htype] using h.armed cache hcache harmed

theorem Inv.over (h : Inv m state) (hclear : ∀ cache, m.cache = some cache → cache.pendingActivation = none) :
    Inv { m with publication := none } state where
  log := h.log
  observed := h.observed
  pending cache seq activation hcache hpending := by
    rw [hclear cache hcache] at hpending
    cases hpending
  next _ hpublication := by cases hpublication
  mine _ _ hpublication := by cases hpublication
  armed := h.armed

theorem Inv.clearPending (h : Inv m state)
    (hunseen : ∀ cache seq activation, m.cache = some cache → cache.pendingActivation = some (seq, activation) →
      ∀ e ∈ m.log.events.drop cache.observedSeq, e.seq ≠ seq) :
    Inv { m.clearPending with publication := none } state ∧
      reads { m.clearPending with publication := none } = m.reads := by
  have hsettled : ∀ cache, m.cache = some cache → settled none cache.activation (m.log.events.drop cache.observedSeq)
        = settled cache.pendingActivation cache.activation (m.log.events.drop cache.observedSeq) := by
    intro cache hcache
    cases hpending : cache.pendingActivation with
    | none => rfl
    | some pending => exact (settled_clear (hunseen cache pending.1 pending.2 hcache hpending)).symm
  have hinv : Inv { m.clearPending with publication := none } state := by
    refine
      { log := h.log
        observed := fun other hother => ?_
        pending := fun other seq activation hother hpending => ?_
        next := fun publication hpublication => by cases hpublication
        mine := fun publication leaves hpublication => by cases hpublication
        armed := fun other hother harmed => ?_ }
    all_goals
      obtain ⟨cache, hcache, rfl⟩ := map_eq_some_iff.mp hother
    · exact h.observed cache hcache
    · cases hpending
    · exact h.armed cache hcache (hsettled cache hcache ▸ harmed)
  refine ⟨hinv, ?_⟩
  rw [hinv.reads_eq, h.reads_eq]
  unfold caughtUp
  cases hcache : m.cache with
  | none => simp only [GoalService.clearPending, hcache, map_none]
  | some cache =>
    simp only [GoalService.clearPending, hcache, map_some]
    rw [hsettled cache hcache]

/-- **A veto** changes neither the log nor what a read finds. -/
theorem Inv.veto (h : Inv m state) (hnext : m.veto = some m') :
    Inv m' state ∧ m'.log = m.log ∧ m'.reads = m.reads := by
  obtain ⟨publication, hpublication, hnext⟩ := bind_eq_some_iff.mp hnext
  obtain ⟨⟨⟩, hcommitted, hnext⟩ := bind_eq_some_iff.mp hnext
  have hcommitted : publication.committed = false := (guard_eq_some' _).mp hcommitted
  have hseq := (h.next publication hpublication hcommitted).1
  have hunseen : ∀ cache seq activation, m.cache = some cache → cache.pendingActivation = some (seq, activation) →
      ∀ e ∈ m.log.events.drop cache.observedSeq, e.seq ≠ seq := by
    intro cache seq activation hcache hpending e he heq
    obtain ⟨other, -, hother, -, hawaited, -⟩ := h.pending cache seq activation hcache hpending
    rw [hpublication] at hother
    cases hother
    obtain ⟨i, hi, hget⟩ := getElem_of_mem (mem_of_mem_drop he)
    have hplace := m.log.contiguous i e (List.getElem?_eq_some_iff.mpr ⟨hi, hget⟩)
    omega
  cases hnext
  split
  · obtain ⟨hinv, hreads⟩ := h.clearPending hunseen
    exact ⟨hinv, rfl, hreads⟩
  · next hforeign =>
    have hclear : ∀ cache, m.cache = some cache → cache.pendingActivation = none := by
      intro cache hcache
      cases hpending : cache.pendingActivation with
      | none => rfl
      | some pending =>
        obtain ⟨other, leaves, hother, hmine, -⟩ := h.pending cache pending.1 pending.2 hcache hpending
        rw [hpublication] at hother
        cases hother
        rw [hmine] at hforeign
        exact absurd rfl hforeign
    have hinv := h.over hclear
    refine ⟨hinv, rfl, ?_⟩
    rw [hinv.reads_eq, h.reads_eq]
    rfl

theorem Inv.finish (h : Inv m state) (hnext : m.finish = some m') : Inv m' state := by
  obtain ⟨publication, hpublication, hnext⟩ := bind_eq_some_iff.mp hnext
  obtain ⟨-, -, hnext⟩ := bind_eq_some_iff.mp hnext
  cases hnext
  split
  · refine (h.sync.clearPending fun cache seq activation hcache _ e he => ?_).1
    rw [h.sync_eq] at hcache he
    cases hcache
    have he : e ∈ m.log.events.drop (m.caughtUp state).observedSeq := he
    rw [caughtUp_observedSeq, drop_length] at he
    cases he
  · next hforeign =>
    refine h.over fun cache hcache => ?_
    cases hpending : cache.pendingActivation with
    | none => rfl
    | some pending =>
      obtain ⟨other, leaves, hother, hmine, -⟩ := h.pending cache pending.1 pending.2 hcache hpending
      rw [hpublication] at hother
      cases hother
      rw [hmine] at hforeign
      exact absurd rfl hforeign

/-! ## Runs -/

theorem applyGoalEvent_plain (hplain : isPlain event = true) : applyGoalEvent state event = .ok state := by
  have hplain : event.type ≠ "goal/change" ∧ event.type ≠ "user/message" := of_decide_eq_true hplain
  rw [applyGoalEvent, if_neg hplain.1, if_neg hplain.2]
  rfl

variable {events : List SessionEvent}

theorem foldlM_plain (hplain : events.all isPlain = true) : events.foldlM applyGoalEvent state = .ok state := by
  induction events with
  | nil => rfl
  | cons event events ih =>
    rw [all_cons, Bool.and_eq_true] at hplain
    rw [foldlM_cons, applyGoalEvent_plain hplain.1, ok_bind]
    exact ih hplain.2

/-- A part of a log that is read is read too, with what is not of the goal domain after it. -/
theorem foldState_restart {log : List SessionEvent} {kept : Nat} (h : foldState log = .ok state)
    (hkept : events.take kept = log.take kept) (hplain : (events.drop kept).all isPlain = true) :
    ∃ state', foldState events = .ok state' := by
  rw [← take_append_drop kept log, foldState_append] at h
  obtain ⟨state', hstate', -⟩ := bind_eq_ok_iff.mp h
  refine ⟨state', ?_⟩
  rw [← take_append_drop kept events, foldState_append, hkept, hstate', ok_bind]
  exact foldlM_plain hplain

theorem Inv.boot {agent : String} {log : EventLog} (hlog : foldState log.events = .ok state) :
    Inv (boot agent log) state where
  log := hlog
  observed _ hcache := by cases hcache
  pending _ _ _ hcache := by cases hcache
  next _ hpublication := by cases hpublication
  mine _ _ hpublication := by cases hpublication
  armed _ hcache := by cases hcache

/-- **One step** of the service, of others who append, and of the process. -/
theorem Inv.step (h : Inv m state) {act : Act} (hnext : m.step config act = some m') : ∃ state', Inv m' state' := by
  cases act with
  | get live =>
    cases hnext
    exact ⟨state, h.get live⟩
  | disarm live =>
    cases hnext
    exact ⟨state, h.disarm live⟩
  | sessionStart =>
    simp only [GoalService.step] at hnext
    split at hnext
    · next hnone =>
      cases hnext
      exact ⟨state, h.sessionStart (isNone_iff_eq_none.mp hnone)⟩
    · cases hnext
  | call live operation now =>
    simp only [GoalService.step] at hnext
    split at hnext
    · next hfresh =>
      cases hnext
      exact ⟨state, h.start hfresh⟩
    · cases hnext
  | append event =>
    simp only [GoalService.step] at hnext
    split at hnext
    · next hguard =>
      obtain ⟨hnone, hseq, hadmits⟩ := hguard
      cases hnext
      exact ⟨state, h.append (isNone_iff_eq_none.mp hnone) hseq hadmits⟩
    · cases hnext
  | push => exact h.push hnext
  | veto => exact ⟨state, (h.veto hnext).1⟩
  | finish => exact ⟨state, h.finish hnext⟩
  | restart log kept =>
    simp only [GoalService.step] at hnext
    split at hnext
    · next hguard =>
      obtain ⟨state', hstate'⟩ := foldState_restart h.log hguard.1 hguard.2
      cases hnext
      exact ⟨state', .boot hstate'⟩
    · cases hnext

/-- **The service and the fold agree.**  After every run the strict fold reads the log, and whoever reads next finds
what it makes of it, armed only when the last goal change of the process has left the goal armed and nothing has
disarmed it since. The cache is what the fold makes of the events observed. Up to its event an operation changes
neither the log nor what a read finds, and one that is rejected or vetoed leaves the service as it was or as a read
leaves it. -/
theorem service_agrees {agent : String} {log : EventLog} {folded : FoldedGoal} {acts : List Act}
    (hlog : foldGoal log.events = .ok folded) (hrun : Machine.exec (step config) (boot agent log) acts = some m) :
    (∃ cache, m.sync.2 = .ok cache ∧ foldGoal m.log.events = .ok cache.state.folded ∧
      (cache.activation = .armed → m.armed = true)) ∧
    (∀ cache, m.cache = some cache → foldGoal (m.log.events.take cache.observedSeq) = .ok cache.state.folded) ∧
    (∀ live operation now, m.isFresh operation = true →
      (m.start config live operation now).1.log = m.log ∧ (m.start config live operation now).1.reads = m.reads ∧
      ∀ error, (m.start config live operation now).2 = .error error → m.publication = none →
        (m.start config live operation now).1 = m ∨ (m.start config live operation now).1 = m.sync.1) ∧
    (∀ m', m.veto = some m' → m'.log = m.log ∧ m'.reads = m.reads) := by
  obtain ⟨state₀, hstate₀, -⟩ := except_map_ok hlog
  have hboot : ∃ state, Inv (boot agent log) state := ⟨state₀, .boot hstate₀⟩
  have hreach : ∃ state, Inv m state :=
    Machine.exec_invariant (I := fun m => ∃ state, Inv m state) (fun _ _ _ _ ⟨_, hinv⟩ hnext => hinv.step hnext) hboot hrun
  obtain ⟨state, h⟩ := hreach
  refine ⟨⟨m.caughtUp state, by rw [h.sync_eq], ?_, h.caughtUp_armed⟩, fun cache hcache => ?_,
    fun live operation now hfresh => ?_, fun m' hnext => (h.veto hnext).2⟩
  · rw [foldGoal, h.log, caughtUp_state]
    rfl
  · rw [foldGoal, (h.observed cache hcache).2]
    rfl
  · have hreads : ∀ cache, cache.observedSeq = m.log.events.length → cache.activation = (m.caughtUp state).activation →
        ∀ m' : GoalService, Inv m' state → m'.log = m.log → m'.cache = some cache → m'.reads = m.reads := by
      intro cache hobserved hactivation m' hinv hlog hcache
      rw [hinv.reads_withCache hcache (by rw [hlog, hobserved]), hactivation, h.reads_eq]
    have hinv : Inv (m.start config live operation now).1 state := h.start hfresh
    revert hinv
    refine h.start_cases (P := fun result => Inv result.1 state → result.1.log = m.log ∧ result.1.reads = m.reads ∧
      ∀ error, result.2 = .error error → m.publication = none → result.1 = m ∨ result.1 = m.sync.1) hfresh ?_ ?_ ?_ ?_
    · exact fun _ _ => ⟨rfl, rfl, fun _ _ _ => .inl rfl⟩
    · intro _ hinv
      exact ⟨rfl, hreads (m.caughtUp state) (caughtUp_observedSeq ..) rfl _ hinv rfl rfl, fun _ _ _ => .inr (by rw [h.sync_eq])⟩
    · intro _ hpublication hinv
      exact ⟨rfl, hreads { m.caughtUp state with pendingActivation := none } (caughtUp_observedSeq ..) rfl _ hinv rfl rfl,
        fun _ _ hnone => absurd hnone hpublication⟩
    · intro mutation event _ _ _ _ _ hinv
      exact ⟨rfl, hreads { m.caughtUp state with
        pendingActivation := some ((m.log.events.length : Int), mutation.activation) } (caughtUp_observedSeq ..) rfl _ hinv
        rfl rfl, nofun⟩

def emptyLog : EventLog := ⟨[], nofun, Nat.zero_le _⟩

/-- Created, paused while the clock steps back, resumed; with a stale ref, a vetoed edit, and an observer that
disarms. -/
def resumeRun : List Act :=
  [.call true (.create ⟨some (.str " ship "), none⟩ "1") ⟨50, by decide⟩, .push, .get true, .finish,
    .call true (.pause ⟨"goal-1", 1⟩) ⟨20, by decide⟩, .push, .finish,
    .call true (.complete ⟨"goal-1", 1⟩) ⟨60, by decide⟩,
    .call true (.edit ⟨"goal-1", 2⟩ ⟨none, some (.num (.int 7))⟩) ⟨60, by decide⟩, .get true, .veto,
    .call true (.resume ⟨"goal-1", 2⟩) ⟨70, by decide⟩, .push, .disarm true, .finish]

theorem service_agrees_resumed :
    ∃ m, Machine.exec (step ⟨256, by decide, by decide⟩) (boot "a" emptyLog) resumeRun = some m ∧
    m.log.events.length = 3 ∧ m.armed = false ∧
    (∃ cache, m.sync.2 = .ok cache ∧ foldGoal m.log.events = .ok cache.state.folded ∧
      (cache.activation = .armed → m.armed = true)) := by
  have hrun : (Machine.exec (step ⟨256, by decide, by decide⟩) (boot "a" emptyLog) resumeRun).any
      (fun m => m.log.events.length = 3 ∧ m.armed = false) = true := by
    decide +kernel
  obtain ⟨m, hm, hfacts⟩ := (any_eq_true _ _).mp hrun
  obtain ⟨hlength, harmed⟩ := of_decide_eq_true hfacts
  have hlog : foldGoal emptyLog.events = .ok emptyGoalFoldState.folded := rfl
  exact ⟨m, hm, hlength, harmed, (service_agrees hlog hm).1⟩

/-- **A new process reads what the old one read**, whatever happened before, and starts disarmed. -/
theorem restart_reads {agent : String} {log : EventLog} {folded : FoldedGoal} {acts : List Act}
    (hlog : foldGoal log.events = .ok folded) (hrun : Machine.exec (step config) (boot agent log) acts = some m) :
    ∃ state activation, m.reads = .ok (state, activation) ∧ (boot m.agent m.log).reads = .ok (state, .disarmed) := by
  obtain ⟨state₀, hstate₀, -⟩ := except_map_ok hlog
  obtain ⟨state, h⟩ := Machine.exec_invariant (I := fun m => ∃ state, Inv m state)
    (fun _ _ _ _ ⟨_, hinv⟩ hnext => hinv.step hnext) ⟨state₀, .boot hstate₀⟩ hrun
  exact ⟨state, _, h.reads_eq, (Inv.boot h.log).reads_eq⟩

theorem restart_reads_resumed : ∃ m : GoalService, Machine.exec (step ⟨256, by decide, by decide⟩) (boot "a" emptyLog) resumeRun
      = some m ∧ ∃ state activation, m.reads = .ok (state, activation) ∧ (boot m.agent m.log).reads = .ok (state, .disarmed) := by
  obtain ⟨m, hrun⟩ := Option.isSome_iff_exists.mp (show (Machine.exec (step ⟨256, by decide, by decide⟩)
    (boot "a" emptyLog) resumeRun).isSome = true by decide +kernel)
  have hlog : foldGoal emptyLog.events = .ok emptyGoalFoldState.folded := rfl
  exact ⟨m, hrun, restart_reads hlog hrun⟩

end GoalService

end CocoHarness.Goal
