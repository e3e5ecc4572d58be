/-
# CocoHarness.SessionTitle.Revisions — a revision is reserved once.

Pending work, a deferred start and a provider call hold the revision they were reserved.  No two of them hold one
revision of one state object (`Inv.unique`): a revision is reserved for pending work or for the call of a refresh, and
passes from pending work to the task that starts it and from the task to the call.
-/
import CocoHarness.SessionTitle.Service

namespace CocoHarness.SessionTitle

open Lib Function Option Nat SessionTitleService

namespace SessionTitleService

variable {m m' : SessionTitleService}

inductive Holder where
  | pending
  | task (i : Nat)
  | run (w : Nat)
  deriving DecidableEq

def Holds (m : SessionTitleService) (st revision : Nat) : Holder → Prop
  | .pending => ∃ pending, (m.states st).pending = some pending ∧ pending.revision = revision
  | .task i => ∃ s pending route, m.tasks i = some (.start s st pending route) ∧ pending.revision = revision
  | .run w => w < m.runCount ∧ (m.runs w).state = st ∧ (m.runs w).revision = revision

structure Inv (m : SessionTitleService) : Prop where
  unique : ∀ st revision h h', m.Holds st revision h → m.Holds st revision h' → h = h'
  reserved : ∀ st revision h, m.Holds st revision h → st < m.stateCount ∧ revision ≤ (m.states st).revision
  active : ∀ st w, (m.states st).active = some w → w < m.runCount ∧ (m.runs w).state = st
  work : ∀ s st, m.work s = some st → st < m.stateCount
  owner : ∀ s s' st, m.work s = some st → m.work s' = some st → s = s'
  queued : ∀ i task, m.tasks i = some task → i < m.taskCount
  unstarted : ∀ w, m.runCount ≤ w → (m.runs w).stage = .over
  committed : ∀ w ∈ m.committed, w < m.runCount ∧ (m.runs w).stage = .over
  once : m.committed.Nodup

/-- A step that reserves nothing: work may be dropped and aborted, and revisions passed over. -/
structure Drops (m m' : SessionTitleService) : Prop where
  holds : ∀ st revision h, m'.Holds st revision h → m.Holds st revision h
  revision : ∀ st, (m.states st).revision ≤ (m'.states st).revision
  active : ∀ st w, (m'.states st).active = some w → (m.states st).active = some w
  runs : ∀ w, (m'.runs w).state = (m.runs w).state ∧ ((m.runs w).stage = .over → (m'.runs w).stage = .over)
  aborted : ∀ w, (m.runs w).aborted = true → (m'.runs w).aborted = true
  work : ∀ s, m'.work s = m.work s ∨ m'.work s = none
  queued : ∀ i task, m'.tasks i = some task → m.tasks i = some task
  counts : m'.stateCount = m.stateCount ∧ m'.runCount = m.runCount ∧ m'.taskCount = m.taskCount
  committed : m'.committed = m.committed

theorem Inv.drops (h : Inv m) (hdrops : Drops m m') : Inv m' := by
  obtain ⟨hstates, hruns, htasks⟩ := hdrops.counts
  have hwork : ∀ s st, m'.work s = some st → m.work s = some st := by
    intro s st hst
    rcases hdrops.work s with hsame | hnone
    · rwa [hsame] at hst
    · rw [hnone] at hst
      cases hst
  refine
    { unique := fun st revision first second hfirst hsecond =>
        h.unique st revision first second (hdrops.holds _ _ _ hfirst) (hdrops.holds _ _ _ hsecond)
      reserved := fun st revision holder hholds => ?_
      active := fun st w hactive => ?_
      work := fun s st hst => hstates ▸ h.work s st (hwork s st hst)
      owner := fun s s' st hst hst' => h.owner s s' st (hwork s st hst) (hwork s' st hst')
      queued := fun i task htask => htasks ▸ h.queued i task (hdrops.queued i task htask)
      unstarted := fun w hw => (hdrops.runs w).2 (h.unstarted w (hruns ▸ hw))
      committed := fun w hw => ?_
      once := hdrops.committed ▸ h.once }
  · obtain ⟨hst, hrevision⟩ := h.reserved st revision holder (hdrops.holds _ _ _ hholds)
    exact ⟨hstates ▸ hst, le_trans hrevision (hdrops.revision st)⟩
  · rw [hruns, (hdrops.runs w).1]
    exact h.active st w (hdrops.active st w hactive)
  · rw [hdrops.committed] at hw
    obtain ⟨hlt, hover⟩ := h.committed w hw
    exact ⟨hruns ▸ hlt, (hdrops.runs w).2 hover⟩

/-! ## State objects -/

theorem Inv.stateFor (h : Inv m) (s : Nat) :
    Inv (m.stateFor s).1 ∧ (m.stateFor s).1.work s = some (m.stateFor s).2 := by
  unfold SessionTitleService.stateFor
  split
  · next st hst => exact ⟨h, hst⟩
  · next hnone =>
    refine ⟨?_, by simp⟩
    have hholds : ∀ st revision holder, Holds { m with
        work := update m.work s (some m.stateCount)
        states := update m.states m.stateCount {}
        stateCount := m.stateCount + 1 } st revision holder → m.Holds st revision holder := by
      intro st revision holder hholds
      match holder with
      | .pending =>
        obtain ⟨pending, hpending, hrevision⟩ := hholds
        by_cases hst : st = m.stateCount
        · subst hst
          simp at hpending
        · exact ⟨pending, by simpa [hst] using hpending, hrevision⟩
      | .task i => exact hholds
      | .run w => exact hholds
    have hrevision : ∀ st, st < m.stateCount → update m.states m.stateCount {} st = m.states st :=
      fun st hst => update_of_ne (Nat.ne_of_lt hst) ..
    have hwork : ∀ other st, update m.work s (some m.stateCount) other = some st →
        (other = s ∧ st = m.stateCount) ∨ m.work other = some st := by
      intro other st hst
      by_cases hother : other = s
      · subst hother
        rw [update_self] at hst
        exact .inl ⟨rfl, (some.inj hst).symm⟩
      · rw [update_of_ne hother] at hst
        exact .inr hst
    refine
      { h with
        unique := fun st revision first second hfirst hsecond =>
          h.unique st revision first second (hholds _ _ _ hfirst) (hholds _ _ _ hsecond)
        reserved := fun st revision holder hheld => ?_
        active := fun st w hactive => ?_
        work := fun other st hst => ?_
        owner := fun other other' st hst hst' => ?_ }
    · obtain ⟨hst, hle⟩ := h.reserved st revision holder (hholds _ _ _ hheld)
      refine ⟨Nat.lt_succ_of_lt hst, ?_⟩
      show _ ≤ (update m.states m.stateCount {} st).revision
      rwa [hrevision st hst]
    · by_cases hst : st = m.stateCount
      · subst hst
        simp at hactive
      · exact h.active st w (by simpa [hst] using hactive)
    · rcases hwork other st hst with ⟨-, rfl⟩ | hst
      · exact lt_succ_self _
      · exact Nat.lt_succ_of_lt (h.work other st hst)
    · rcases hwork other st hst with ⟨rfl, rfl⟩ | hold
      · rcases hwork other' _ hst' with ⟨rfl, -⟩ | hold'
        · rfl
        · exact absurd (h.work other' _ hold') (lt_irrefl _)
      · rcases hwork other' st hst' with ⟨rfl, rfl⟩ | hold'
        · exact absurd (h.work other _ hold) (lt_irrefl _)
        · exact h.owner other other' st hold hold'

variable {st : Nat}

theorem Drops.modifyState {f : SessionTitleWorkState → SessionTitleWorkState}
    (hpending : ∀ pending, (f (m.states st)).pending = some pending → (m.states st).pending = some pending)
    (hrevision : (m.states st).revision ≤ (f (m.states st)).revision)
    (hactive : ∀ w, (f (m.states st)).active = some w → (m.states st).active = some w) :
    Drops m (m.modifyState st f) := by
  have hstates : ∀ other, (m.modifyState st f).states other = if other = st then f (m.states st) else m.states other :=
    fun other => update_apply ..
  refine ⟨fun other revision holder hholds => ?_, fun other => ?_, fun other w hw => ?_, fun _ => ⟨rfl, id⟩,
    fun _ => id, fun _ => .inl rfl, fun _ _ => id, ⟨rfl, rfl, rfl⟩, rfl⟩
  · match holder with
    | .pending =>
      obtain ⟨pending, hheld, hsame⟩ := hholds
      rw [hstates] at hheld
      split at hheld
      · next hother => exact ⟨pending, by rw [hother]; exact hpending pending hheld, hsame⟩
      · exact ⟨pending, hheld, hsame⟩
    | .task i => exact hholds
    | .run w => exact hholds
  · rw [hstates]
    split
    · next hother => rw [hother]; exact hrevision
    · exact le_refl _
  · rw [hstates] at hw
    split at hw
    · next hother => rw [hother]; exact hactive w hw
    · exact hw

variable {w : Nat}

theorem Drops.modifyRun {f : ActiveProviderWork → ActiveProviderWork}
    (hf : (f (m.runs w)).state = (m.runs w).state ∧ (f (m.runs w)).revision = (m.runs w).revision)
    (hstage : (m.runs w).stage = .over → (f (m.runs w)).stage = .over)
    (haborted : (m.runs w).aborted = true → (f (m.runs w)).aborted = true) :
    Drops m (m.modifyRun w f) := by
  have hruns : ∀ other, (m.modifyRun w f).runs other = if other = w then f (m.runs w) else m.runs other :=
    fun other => update_apply ..
  refine ⟨fun st revision holder hholds => ?_, fun _ => le_refl _, fun _ _ => id, fun other => ?_,
    fun other habort => ?_, fun _ => .inl rfl, fun _ _ => id, ⟨rfl, rfl, rfl⟩, rfl⟩
  · match holder with
    | .pending => exact hholds
    | .task i => exact hholds
    | .run other =>
      obtain ⟨hlt, hstate, hrevision⟩ := hholds
      rw [hruns] at hstate hrevision
      split at hstate
      · next hother => exact ⟨hlt, by rw [hother, ← hf.1]; exact hstate, by rw [hother, ← hf.2]; simpa [hother] using hrevision⟩
      · next hother => exact ⟨hlt, hstate, by simpa [hother] using hrevision⟩
  · rw [hruns]
    split
    · next hother => rw [hother]; exact ⟨hf.1, hstage⟩
    · exact ⟨rfl, id⟩
  · rw [hruns]
    split
    · next hother => exact haborted (hother ▸ habort)
    · exact habort

theorem Drops.trans {mid : SessionTitleService} (h : Drops m mid) (h' : Drops mid m') : Drops m m' where
  holds st revision holder hholds := h.holds _ _ _ (h'.holds _ _ _ hholds)
  revision st := le_trans (h.revision st) (h'.revision st)
  active st w hw := h.active st w (h'.active st w hw)
  runs w := ⟨(h'.runs w).1.trans (h.runs w).1, fun hover => (h'.runs w).2 ((h.runs w).2 hover)⟩
  aborted w habort := h'.aborted w (h.aborted w habort)
  work s := by
    rcases h'.work s with hsame | hnone
    · rw [hsame]
      exact h.work s
    · exact .inr hnone
  queued i task htask := h.queued i task (h'.queued i task htask)
  counts := ⟨h'.counts.1.trans h.counts.1, h'.counts.2.1.trans h.counts.2.1, h'.counts.2.2.trans h.counts.2.2⟩
  committed := h'.committed.trans h.committed

theorem Drops.frame (hstates : m'.states = m.states) (hruns : m'.runs = m.runs) (htasks : m'.tasks = m.tasks)
    (hwork : m'.work = m.work)
    (hcounts : m'.stateCount = m.stateCount ∧ m'.runCount = m.runCount ∧ m'.taskCount = m.taskCount)
    (hcommitted : m'.committed = m.committed) : Drops m m' where
  holds st revision holder hholds := by
    match holder with
    | .pending => simpa only [Holds, hstates] using hholds
    | .task i => simpa only [Holds, htasks] using hholds
    | .run w => simpa only [Holds, hruns, hcounts.2.1] using hholds
  revision st := le_of_eq (by rw [hstates])
  active st w hw := by rwa [hstates] at hw
  runs w := by rw [hruns]; exact ⟨Eq.refl _, id⟩
  aborted w := by rw [hruns]; exact id
  work s := .inl (by rw [hwork])
  queued i task htask := by rwa [htasks] at htask
  counts := hcounts
  committed := hcommitted

theorem Drops.rfl : Drops m m :=
  .frame (Eq.refl _) (Eq.refl _) (Eq.refl _) (Eq.refl _) ⟨Eq.refl _, Eq.refl _, Eq.refl _⟩ (Eq.refl _)

theorem Drops.abort (w : Nat) : Drops m (m.abort w) := .modifyRun ⟨Eq.refl _, Eq.refl _⟩ id fun _ => Eq.refl _

/-- **The next revision is free**: `supersede` passes over the one before. -/
theorem supersede_spec (h : Inv m) (st : Nat) :
    Drops m (m.supersede st) ∧ ((m.supersede st).states st).pending = none ∧
      ∀ revision holder, (m.supersede st).Holds st revision holder →
        revision < ((m.supersede st).states st).revision := by
  have haborted : Drops m ((m.states st).active.elim m m.abort) := by
    cases (m.states st).active with
    | none => exact .rfl
    | some w => exact .abort w
  have hsuperseded : Drops ((m.states st).active.elim m m.abort) (m.supersede st) :=
    .modifyState nofun (le_succ _) fun _ hw => hw
  have hstate : (m.supersede st).states st
      = { m.states st with pending := none, revision := (m.states st).revision + 1 } := by
    rw [supersede]
    cases (m.states st).active with
    | none | some w => exact update_self ..
  have hdrops := haborted.trans hsuperseded
  refine ⟨hdrops, by rw [hstate], fun revision holder hholds => ?_⟩
  rw [hstate]
  exact lt_succ_of_le (h.reserved st revision holder (hdrops.holds _ _ _ hholds)).2

/-! ## Reserving a revision, and passing it on -/

def Free (m : SessionTitleService) (st revision : Nat) : Prop :=
  st < m.stateCount ∧ revision ≤ (m.states st).revision ∧ ∀ holder, ¬ m.Holds st revision holder

variable {st₀ revision₀ : Nat} {holder₀ : Holder}

theorem unique_of_reserved (h : Inv m) (hfree : m.Free st₀ revision₀)
    (hholds : ∀ st revision holder, m'.Holds st revision holder →
      m.Holds st revision holder ∨ (st = st₀ ∧ revision = revision₀ ∧ holder = holder₀)) :
    ∀ st revision first second, m'.Holds st revision first → m'.Holds st revision second → first = second := by
  intro st revision first second hfirst hsecond
  rcases hholds _ _ _ hfirst with hold | ⟨rfl, rfl, rfl⟩
  · rcases hholds _ _ _ hsecond with hold' | ⟨rfl, rfl, rfl⟩
    · exact h.unique st revision first second hold hold'
    · exact absurd hold (hfree.2.2 first)
  · rcases hholds _ _ _ hsecond with hold' | ⟨-, -, rfl⟩
    · exact absurd hold' (hfree.2.2 second)
    · rfl

theorem reserved_of_reserved (h : Inv m) (hfree : m.Free st₀ revision₀)
    (hstates : m'.stateCount = m.stateCount) (hrevision : ∀ st, (m'.states st).revision = (m.states st).revision)
    (hholds : ∀ st revision holder, m'.Holds st revision holder →
      m.Holds st revision holder ∨ (st = st₀ ∧ revision = revision₀ ∧ holder = holder₀)) :
    ∀ st revision holder, m'.Holds st revision holder → st < m'.stateCount ∧ revision ≤ (m'.states st).revision := by
  intro st revision holder hheld
  rw [hstates, hrevision]
  rcases hholds _ _ _ hheld with hold | ⟨rfl, rfl, -⟩
  · exact h.reserved st revision holder hold
  · exact ⟨hfree.1, hfree.2.1⟩

variable {pending : PendingAutomaticWork}

theorem Inv.pend (h : Inv m) (hfree : m.Free st pending.revision) :
    Inv (m.modifyState st fun state => { state with pending := some pending }) := by
  have hstates : ∀ other, (m.modifyState st fun state => { state with pending := some pending }).states other
      = if other = st then { m.states st with pending := some pending } else m.states other :=
    fun other => update_apply ..
  have hholds : ∀ other revision holder,
      (m.modifyState st fun state => { state with pending := some pending }).Holds other revision holder →
      m.Holds other revision holder ∨ (other = st ∧ revision = pending.revision ∧ holder = .pending) := by
    intro other revision holder hheld
    match holder with
    | .pending =>
      obtain ⟨held, hheld, hrevision⟩ := hheld
      rw [hstates] at hheld
      split at hheld
      · next hother =>
        cases hheld
        exact .inr ⟨hother, hrevision.symm, rfl⟩
      · exact .inl ⟨held, hheld, hrevision⟩
    | .task i => exact .inl hheld
    | .run w => exact .inl hheld
  have hrevision : ∀ other, ((m.modifyState st fun state => { state with pending := some pending }).states
      other).revision = (m.states other).revision := by
    intro other
    rw [hstates]
    split
    · next hother => rw [hother]
    · rfl
  refine
    { h with
      unique := unique_of_reserved h hfree hholds
      reserved := reserved_of_reserved h hfree rfl hrevision hholds
      active := fun other w hw => h.active other w ?_ }
  rw [hstates] at hw
  split at hw
  · next hother => rw [hother]; exact hw
  · exact hw

theorem Inv.defer (h : Inv m) (task : Task)
    (hfree : ∀ s st pending route, task = .start s st pending route → m.Free st pending.revision) :
    Inv (m.defer task) := by
  have htasks : ∀ i, (m.defer task).tasks i = if i = m.taskCount then some task else m.tasks i :=
    fun i => update_apply ..
  have hqueued : ∀ i other, (m.defer task).tasks i = some other → i < m.taskCount + 1 := by
    intro i other hi
    rw [htasks] at hi
    split at hi
    · next hlast => omega
    · exact Nat.lt_succ_of_lt (h.queued i other hi)
  match htask : task with
  | .fallback s =>
    have hholds : ∀ st revision holder, (m.defer (.fallback s)).Holds st revision holder →
        m.Holds st revision holder := by
      intro st revision holder hheld
      match holder with
      | .pending => exact hheld
      | .task i =>
        obtain ⟨s', pending, route, hi, hrevision⟩ := hheld
        rw [htasks] at hi
        split at hi
        · cases hi
        · exact ⟨s', pending, route, hi, hrevision⟩
      | .run w => exact hheld
    exact
      { h with
        unique := fun st revision first second hfirst hsecond =>
          h.unique st revision first second (hholds _ _ _ hfirst) (hholds _ _ _ hsecond)
        reserved := fun st revision holder hheld => h.reserved st revision holder (hholds _ _ _ hheld)
        queued := hqueued }
  | .start s st pending route =>
    have hholds : ∀ other revision holder, (m.defer (.start s st pending route)).Holds other revision holder →
        m.Holds other revision holder ∨ (other = st ∧ revision = pending.revision ∧ holder = .task m.taskCount) := by
      intro other revision holder hheld
      match holder with
      | .pending => exact .inl hheld
      | .task i =>
        obtain ⟨s', held, route', hi, hrevision⟩ := hheld
        rw [htasks] at hi
        split at hi
        · next hlast =>
          cases hi
          exact .inr ⟨rfl, hrevision.symm, by rw [hlast]⟩
        · exact .inl ⟨s', held, route', hi, hrevision⟩
      | .run w => exact .inl hheld
    have hstart := hfree s st pending route rfl
    exact
      { h with
        unique := unique_of_reserved h hstart hholds
        reserved := reserved_of_reserved h hstart rfl (fun _ => rfl) hholds
        queued := hqueued }

theorem Inv.activate (h : Inv m) (s : Nat) (hfree : m.Free st pending.revision)
    (route : Option SessionTitleModelProvenance) (aborted : Bool) :
    Inv (m.activate s st pending route aborted) := by
  have hstates : ∀ other, (m.activate s st pending route aborted).states other
      = if other = st then { m.states st with active := some m.runCount } else m.states other :=
    fun other => update_apply ..
  have hruns : ∀ w, (m.activate s st pending route aborted).runs w
      = if w = m.runCount then { pending with session := s, state := st, route, aborted } else m.runs w :=
    fun w => update_apply ..
  have hholds : ∀ other revision holder, (m.activate s st pending route aborted).Holds other revision holder →
      m.Holds other revision holder ∨ (other = st ∧ revision = pending.revision ∧ holder = .run m.runCount) := by
    intro other revision holder hheld
    match holder with
    | .pending =>
      obtain ⟨held, hheld, hrevision⟩ := hheld
      rw [hstates] at hheld
      split at hheld
      · next hother => exact .inl ⟨held, by rw [hother]; exact hheld, hrevision⟩
      · exact .inl ⟨held, hheld, hrevision⟩
    | .task i => exact .inl hheld
    | .run w =>
      obtain ⟨hlt, hstate, hrevision⟩ := hheld
      rw [hruns] at hstate hrevision
      by_cases hw : w = m.runCount
      · rw [if_pos hw] at hstate hrevision
        exact .inr ⟨hstate.symm, hrevision.symm, by rw [hw]⟩
      · rw [if_neg hw] at hstate hrevision
        have : w < m.runCount + 1 := hlt
        exact .inl ⟨by omega, hstate, hrevision⟩
  have hrevision : ∀ other, ((m.activate s st pending route aborted).states other).revision
      = (m.states other).revision := by
    intro other
    rw [hstates]
    split
    · next hother => rw [hother]
    · rfl
  refine
    { h with
      unique := unique_of_reserved h hfree hholds
      reserved := reserved_of_reserved h hfree rfl hrevision hholds
      active := fun other w hw => ?_
      unstarted := fun w hw => ?_
      committed := fun w hw => ?_ }
  · rw [hruns]
    rw [hstates] at hw
    split at hw
    · next hother =>
      cases hw
      rw [if_pos rfl]
      exact ⟨lt_succ_self _, hother.symm⟩
    · obtain ⟨hlt, hstate⟩ := h.active other w hw
      rw [if_neg (Nat.ne_of_lt hlt)]
      exact ⟨Nat.lt_succ_of_lt hlt, hstate⟩
  · have hlt : m.runCount + 1 ≤ w := hw
    rw [hruns, if_neg (by omega)]
    exact h.unstarted w (by omega)
  · obtain ⟨hlt, hover⟩ := h.committed w hw
    rw [hruns, if_neg (Nat.ne_of_lt hlt)]
    exact ⟨Nat.lt_succ_of_lt hlt, hover⟩

/-! ## The calls of the service -/

variable {config : Config} {s : Nat} {f : Option Nat}

theorem ensureFallback_cases (hnext : m.ensureFallback config s = some (m', f)) :
    m' = m ∨ (m.get s = none ∧ Drops (m.stateFor s).1 m') := by
  unfold SessionTitleService.ensureFallback at hnext
  split at hnext
  · cases hnext
  · split at hnext
    · cases hnext
      exact .inl rfl
    · next hnone =>
      have hget : m.get s = none := by simpa using hnone
      split at hnext
      · cases hnext
        exact .inl rfl
      · dsimp only at hnext
        split at hnext
        · cases hnext
          exact .inl rfl
        · refine .inr ⟨hget, ?_⟩
          split at hnext
          · cases hnext
            exact .rfl
          · cases hnext
            have hkept : Drops (m.stateFor s).1 ((m.stateFor s).1.modifyState (m.stateFor s).2 fun state =>
                { state with fallback := some (m.stateFor s).1.fallbackCount }) :=
              .modifyState (fun _ => id) (le_refl _) fun _ => id
            exact hkept.trans (.frame rfl rfl rfl rfl ⟨rfl, rfl, rfl⟩ rfl)

theorem stateFor_frame (m : SessionTitleService) (s : Nat) :
    (m.stateFor s).1.log = m.log ∧ (m.stateFor s).1.runs = m.runs := by
  unfold SessionTitleService.stateFor
  split
  · exact ⟨rfl, rfl⟩
  · exact ⟨rfl, rfl⟩

theorem ensureFallback_frame (hnext : m.ensureFallback config s = some (m', f)) :
    m'.log = m.log ∧ m'.runs = m.runs := by
  unfold SessionTitleService.ensureFallback at hnext
  split at hnext
  · cases hnext
  · split at hnext
    · cases hnext
      exact ⟨rfl, rfl⟩
    · split at hnext
      · cases hnext
        exact ⟨rfl, rfl⟩
      · dsimp only at hnext
        split at hnext
        · cases hnext
          exact ⟨rfl, rfl⟩
        · split at hnext
          · cases hnext
            exact stateFor_frame m s
          · cases hnext
            exact stateFor_frame m s

theorem Inv.ensureFallback (h : Inv m) (hnext : m.ensureFallback config s = some (m', f)) : Inv m' := by
  rcases ensureFallback_cases hnext with rfl | ⟨-, hdrops⟩
  · exact h
  · exact (h.stateFor s).1.drops hdrops

theorem supersede_free (h : Inv m) (hst : st < m.stateCount) :
    (m.supersede st).Free st ((m.supersede st).states st).revision := by
  obtain ⟨hdrops, -, hpassed⟩ := supersede_spec h st
  exact ⟨by rw [hdrops.counts.1]; exact hst, le_refl _, fun holder hholds =>
    lt_irrefl _ (hpassed _ holder hholds)⟩

theorem Inv.supersede (h : Inv m) (st : Nat) : Inv (m.supersede st) := h.drops (supersede_spec h st).1

theorem Inv.onUserMessage (h : Inv m) (seq : Nat) (event : SessionEvent) (forked : Bool) :
    Inv (m.onUserMessage config s seq event forked) := by
  unfold SessionTitleService.onUserMessage
  split
  · exact h
  · split
    · exact h
    · split
      · exact h
      · apply Inv.defer
        · split
          · exact h
          · split
            · exact h
            · split
              · obtain ⟨hinv, hwork⟩ := h.stateFor s
                exact (hinv.supersede _).pend (supersede_free hinv (hinv.work s _ hwork))
              · exact h
        · nofun

theorem Inv.startPending (h : Inv m) (hpending : (m.states st).pending = some pending)
    (route : SessionTitleModelProvenance) : Inv (m.startPending s st pending route) := by
  have hdrops : Drops m (m.modifyState st fun state => { state with pending := none }) :=
    .modifyState nofun (le_refl _) fun _ => id
  have hholds : m.Holds st pending.revision .pending := ⟨pending, hpending, rfl⟩
  refine (h.drops hdrops).defer _ fun s' st' pending' route' hstart => ?_
  cases hstart
  obtain ⟨hst, hrevision⟩ := h.reserved st _ _ hholds
  refine ⟨hst, le_trans hrevision (hdrops.revision st), fun holder hheld => ?_⟩
  -- whoever holds the revision is the pending work, which is gone
  obtain rfl := h.unique st _ _ _ hholds (hdrops.holds _ _ _ hheld)
  obtain ⟨held, hgone, -⟩ := hheld
  simp [modifyState] at hgone

theorem Inv.onRequestHeader (h : Inv m) (seq : Nat) (route : SessionTitleModelProvenance) :
    Inv (m.onRequestHeader s seq route) := by
  unfold SessionTitleService.onRequestHeader
  split
  · exact h
  · split
    · exact h
    · split
      · exact h
      · next hpending =>
        split
        · exact h
        · exact h.startPending hpending route

theorem Inv.hear (h : Inv m) {forked : Bool} (hnext : m.hear config s forked = some m') : Inv m' := by
  obtain ⟨event, -, hnext⟩ := bind_eq_some_iff.mp hnext
  have hheard : Inv { m with heard := update m.heard s (m.heard s + 1) } :=
    h.drops (.frame rfl rfl rfl rfl ⟨rfl, rfl, rfl⟩ rfl)
  dsimp only at hnext
  split at hnext
  · cases hnext
    exact hheard.onUserMessage _ _ _
  · cases hnext
    exact hheard.onRequestHeader _ _
  · cases hnext
    exact hheard

theorem Inv.onMainRequest (h : Inv m) (options : SessionTitleModelProvenance) : Inv (m.onMainRequest s options) := by
  unfold SessionTitleService.onMainRequest
  split
  · exact h
  · split
    · exact h
    · split
      · exact h
      · next hpending =>
        split
        · exact h.startPending hpending options
        · exact h

theorem Drops.dequeue (i : Nat) : Drops m { m with tasks := update m.tasks i none } := by
  have htasks : ∀ j task, update m.tasks i none j = some task → m.tasks j = some task := by
    intro j task hj
    by_cases hij : j = i
    · subst hij
      simp at hj
    · rwa [update_of_ne hij] at hj
  refine ⟨fun st revision holder hholds => ?_, fun _ => le_refl _, fun _ _ => id, fun _ => ⟨Eq.refl _, id⟩, fun _ => id,
    fun _ => .inl (Eq.refl _), htasks, ⟨Eq.refl _, Eq.refl _, Eq.refl _⟩, Eq.refl _⟩
  match holder with
  | .pending => exact hholds
  | .task j =>
    obtain ⟨s, pending, route, hj, hrevision⟩ := hholds
    exact ⟨s, pending, route, htasks j _ hj, hrevision⟩
  | .run w => exact hholds

theorem Inv.runTask (h : Inv m) {i : Nat} (hnext : m.runTask config i = some m') : Inv m' := by
  obtain ⟨task, htask, hnext⟩ := bind_eq_some_iff.mp hnext
  have hdrops : Drops m { m with tasks := update m.tasks i none } := .dequeue i
  have hdequeued := h.drops hdrops
  dsimp only at hnext
  split at hnext
  · cases hnext
    exact hdequeued
  · split at hnext
    · next s =>
      cases hnext
      cases hfallback : SessionTitleService.ensureFallback config { m with tasks := update m.tasks i none } s with
      | none => exact hdequeued
      | some result => exact hdequeued.ensureFallback hfallback
    · next s st pending route =>
      split at hnext
      · cases hnext
        exact hdequeued
      · cases hnext
        have hholds : m.Holds st pending.revision (.task i) := ⟨s, pending, route, htask, rfl⟩
        obtain ⟨hst, hrevision⟩ := h.reserved st _ _ hholds
        refine hdequeued.activate s ⟨hst, hrevision, fun holder hheld => ?_⟩ _ _
        -- whoever holds the revision is the task, which has left the queue
        obtain rfl := h.unique st _ _ _ hholds (hdrops.holds _ _ _ hheld)
        obtain ⟨s', pending', route', hgone, -⟩ := hheld
        simp at hgone

theorem appendTitle_drops (data : SessionTitleEventData) : Drops m (m.appendTitle s data) :=
  .frame rfl rfl rfl rfl ⟨rfl, rfl, rfl⟩ rfl

theorem runFallback_drops {f : Nat} (hnext : m.runFallback f = some m') : Drops m m' := by
  obtain ⟨-, -, hnext⟩ := bind_eq_some_iff.mp hnext
  dsimp only at hnext
  split at hnext
  · cases hnext
    exact .frame rfl rfl rfl rfl ⟨rfl, rfl, rfl⟩ rfl
  · split at hnext
    · cases hnext
      exact .frame rfl rfl rfl rfl ⟨rfl, rfl, rfl⟩ rfl
    · cases hnext
      exact .frame rfl rfl rfl rfl ⟨rfl, rfl, rfl⟩ rfl

theorem forgetFallback_drops {f : Nat} (hnext : m.forgetFallback f = some m') : Drops m m' := by
  obtain ⟨-, -, hnext⟩ := bind_eq_some_iff.mp hnext
  cases hnext
  have hforgotten : Drops m (m.modifyState (m.fallbacks f).state fun state => { state with fallback := none }) :=
    .modifyState (fun _ => id) (le_refl _) fun _ => id
  exact hforgotten.trans (.frame rfl rfl rfl rfl ⟨rfl, rfl, rfl⟩ rfl)

theorem endRun_drops (w : Nat) : Drops m (m.endRun w) := by
  have hended : Drops m (m.modifyRun w fun run => { run with stage := .over }) :=
    .modifyRun ⟨rfl, rfl⟩ (fun _ => rfl) id
  unfold endRun
  split
  · exact hended
  · split
    · exact hended.trans (.modifyState (fun _ => id) (le_refl _) nofun)
    · exact hended

theorem Inv.beginRun (h : Inv m) (hnext : m.beginRun config w = some m') : Inv m' := by
  simp only [SessionTitleService.beginRun, bind_eq_bind, bind_eq_some_iff, guard_eq_some', pure_def] at hnext
  obtain ⟨-, hstage, hnext⟩ := hnext
  split at hnext
  · cases hnext
    exact h.drops (endRun_drops w)
  · split at hnext
    · cases hnext
      exact h.drops (endRun_drops w)
    · next before fallback hfallback =>
      cases hnext
      refine (h.ensureFallback hfallback).drops (.modifyRun ⟨rfl, rfl⟩ (fun hover => ?_) id)
      rw [(ensureFallback_frame hfallback).2, hstage] at hover
      cases hover

theorem continueRun_drops (hnext : m.continueRun config w = some m') : Drops m m' := by
  unfold continueRun at hnext
  split at hnext
  · next fallback hstage =>
    simp only [bind_eq_bind, bind_eq_some_iff, guard_eq_some', pure_def] at hnext
    obtain ⟨-, -, hnext⟩ := hnext
    split at hnext
    · cases hnext
      exact endRun_drops w
    · split at hnext
      · cases hnext
        exact endRun_drops w
      · cases hnext
        exact .modifyRun ⟨rfl, rfl⟩ (fun hover => by rw [hstage] at hover; cases hover) id
  · cases hnext

theorem endRun_stage (w : Nat) : ((m.endRun w).runs w).stage = .over := by
  have hended : ((m.modifyRun w fun run => { run with stage := .over }).runs w).stage = .over := by simp [modifyRun]
  unfold endRun
  split
  · exact hended
  · split
    · exact hended
    · exact hended

variable {result : Option SessionTitleProviderResult}

theorem completeRun_cases (hnext : m.completeRun config w result = some m') :
    (∃ messages, (m.runs w).stage = .generating messages) ∧ (m' = m.endRun w ∨ ∃ data model, m.isCurrent w = true ∧
        data.source = .provider (m.registrations (m.runs w).registration).id model ∧
        m' = { (m.appendTitle (m.runs w).session data).endRun w with committed := m.committed ++ [w] }) := by
  unfold completeRun at hnext
  split at hnext
  · next messages hstage =>
    refine ⟨⟨messages, hstage⟩, ?_⟩
    split at hnext
    · cases hnext
      exact .inl rfl
    · split at hnext
      · cases hnext
        exact .inl rfl
      · next hcurrent =>
        split at hnext
        · cases hnext
          exact .inl rfl
        · cases hnext
          exact .inr ⟨_, _, by simpa using hcurrent, rfl, rfl⟩
  · cases hnext

/-- **One result a call.** -/
theorem Inv.completeRun (h : Inv m) (hnext : m.completeRun config w result = some m') : Inv m' := by
  obtain ⟨⟨messages, hstage⟩, rfl | ⟨data, model, -, -, rfl⟩⟩ := completeRun_cases hnext
  · exact h.drops (endRun_drops w)
  · have happended : Drops m ((m.appendTitle (m.runs w).session data).endRun w) :=
      (appendTitle_drops data).trans (endRun_drops w)
    have hended := h.drops happended
    have hfresh : w ∉ m.committed := by
      intro hw
      have := (h.committed w hw).2
      rw [hstage] at this
      cases this
    have hlt : w < m.runCount := by
      by_contra hge
      have := h.unstarted w (not_lt.mp hge)
      rw [hstage] at this
      cases this
    refine { hended with committed := fun w' hw' => ?_, once := ?_ }
    · rcases List.mem_append.mp hw' with hold | hnew
      · exact hended.committed w' (by rw [happended.committed]; exact hold)
      · obtain rfl := List.mem_singleton.mp hnew
        exact ⟨by show _ < ((m.appendTitle _ data).endRun w').runCount; rw [happended.counts.2.1]; exact hlt, endRun_stage w'⟩
    · show (m.committed ++ [w]).Nodup
      exact List.nodup_append.mpr ⟨h.once, List.pairwise_singleton _ w, fun a ha b hb hab => by
        rw [List.mem_singleton.mp hb] at hab
        exact hfresh (hab ▸ ha)⟩

theorem Inv.rename (h : Inv m) (title : String) (appends : Bool) : Inv (m.rename config s title appends) := by
  unfold SessionTitleService.rename
  dsimp only
  split
  · exact h
  · have hsuperseded := (h.stateFor s).1.supersede (m.stateFor s).2
    split
    · exact hsuperseded.drops (appendTitle_drops _)
    · exact hsuperseded

theorem appendFallback_drops (first : SessionTitleUserMessage) (appends : Bool) :
    Drops m (m.appendFallback config s first appends) := by
  unfold appendFallback
  dsimp only
  split
  · exact .rfl
  · exact appendTitle_drops _

theorem Inv.refresh (h : Inv m) (aborted appends : Bool) : Inv (m.refresh config s aborted appends) := by
  have hfallback : Inv ((m.ensureFallback config s).elim m (·.1)) := by
    cases hfallback : m.ensureFallback config s with
    | none => exact h
    | some result => exact h.ensureFallback hfallback
  unfold SessionTitleService.refresh
  split
  · exact h
  · dsimp only
    split
    · obtain ⟨hinv, hwork⟩ := h.stateFor s
      exact (hinv.supersede _).activate s (supersede_free hinv (hinv.work s _ hwork)) _ _
    · split
      · split
        · exact h.drops (appendFallback_drops _ _)
        · exact hfallback
      · exact hfallback

/-! ## Lifetimes -/

theorem register_drops {id : String} {automatic : SessionTitleAutomaticMode}
    (hnext : m.register id automatic = some m') : Drops m m' := by
  obtain ⟨-, -, hnext⟩ := bind_eq_some_iff.mp hnext
  cases hnext
  exact .frame rfl rfl rfl rfl ⟨rfl, rfl, rfl⟩ rfl

theorem dropWork_drops (r : Nat) : Drops m (m.dropWork r) := by
  have hpending : ∀ st pending, ((m.states st).pending.filter fun pending => pending.registration ≠ r) = some pending →
      (m.states st).pending = some pending := fun st pending hfilter => (filter_eq_some_iff.mp hfilter).1
  have hruns : ∀ w, ((m.dropWork r).runs w).state = (m.runs w).state ∧
      ((m.dropWork r).runs w).revision = (m.runs w).revision ∧ ((m.dropWork r).runs w).stage = (m.runs w).stage ∧
      ((m.runs w).aborted = true → ((m.dropWork r).runs w).aborted = true) := by
    intro w
    simp only [dropWork]
    split
    · exact ⟨rfl, rfl, rfl, fun _ => rfl⟩
    · exact ⟨rfl, rfl, rfl, id⟩
  refine ⟨fun st revision holder hholds => ?_, fun _ => le_refl _, fun _ _ => id,
    fun w => ⟨(hruns w).1, fun hover => by rw [(hruns w).2.2.1]; exact hover⟩, fun w => (hruns w).2.2.2, fun _ => .inl rfl,
    fun _ _ => id, ⟨rfl, rfl, rfl⟩, rfl⟩
  match holder with
  | .pending =>
    obtain ⟨pending, hheld, hrevision⟩ := hholds
    exact ⟨pending, hpending st pending hheld, hrevision⟩
  | .task i => exact hholds
  | .run w =>
    obtain ⟨hlt, hstate, hrevision⟩ := hholds
    exact ⟨hlt, (hruns w).1 ▸ hstate, (hruns w).2.1 ▸ hrevision⟩

variable {r : Nat}

theorem unregister_drops (hnext : m.unregister r = some m') : Drops m m' := by
  obtain ⟨-, -, hnext⟩ := bind_eq_some_iff.mp hnext
  cases hnext
  have hclosing : Drops m { m with
      registrations := update m.registrations r { m.registrations r with closing := true } } :=
    .frame rfl rfl rfl rfl ⟨rfl, rfl, rfl⟩ rfl
  exact hclosing.trans (dropWork_drops r)

theorem drained_drops (hnext : m.drained r = some m') : Drops m m' := by
  obtain ⟨-, -, hnext⟩ := bind_eq_some_iff.mp hnext
  cases hnext
  split
  · exact .frame rfl rfl rfl rfl ⟨rfl, rfl, rfl⟩ rfl
  · exact .rfl

theorem dispose_drops : Drops m m.dispose := by
  refine ⟨fun st revision holder hholds => ?_, fun _ => le_refl _, fun _ _ => id, fun _ => ⟨rfl, id⟩, fun _ _ => rfl,
    fun _ => .inl rfl, fun _ _ => id, ⟨rfl, rfl, rfl⟩, rfl⟩
  match holder with
  | .pending =>
    obtain ⟨pending, hgone, -⟩ := hholds
    cases hgone
  | .task i => exact hholds
  | .run w => exact hholds

theorem Drops.forget {work : Nat → Option Nat} (hwork : ∀ s, work s = m.work s ∨ work s = none) :
    Drops m { m with work } := by
  refine ⟨fun st revision holder hholds => ?_, fun _ => le_refl _, fun _ _ => id, fun _ => ⟨Eq.refl _, id⟩,
    fun _ => id, hwork, fun _ _ => id, ⟨Eq.refl _, Eq.refl _, Eq.refl _⟩, Eq.refl _⟩
  match holder with
  | .pending => exact hholds
  | .task i => exact hholds
  | .run w => exact hholds

theorem clear_drops (hnext : m.clear = some m') : Drops m m' := by
  obtain ⟨-, -, hnext⟩ := bind_eq_some_iff.mp hnext
  cases hnext
  exact .forget fun _ => .inr rfl

theorem disposeSession_drops (s : Nat) : Drops m (m.disposeSession s) := by
  unfold disposeSession
  split
  · exact .rfl
  · next st hst =>
    have haborted : Drops m ((m.states st).active.elim m m.abort) := by
      cases (m.states st).active with
      | none => exact .rfl
      | some w => exact .abort w
    refine haborted.trans (.forget fun other => ?_)
    have hwork : ((m.states st).active.elim m m.abort).work = m.work := by
      cases (m.states st).active with
      | none | some w => rfl
    rw [hwork]
    by_cases hother : other = s
    · subst hother
      exact .inr (update_self ..)
    · exact .inl (update_of_ne hother ..)

/-- **One step** reserves no revision twice, and commits no call twice. -/
theorem Inv.step (h : Inv m) {act : Act} (hnext : m.step config act = some m') : Inv m' := by
  cases act with
  | append s event =>
    simp only [SessionTitleService.step] at hnext
    split at hnext
    · cases hnext
    · cases hnext
      exact h.drops (.frame rfl rfl rfl rfl ⟨rfl, rfl, rfl⟩ rfl)
  | hear s forked => exact h.hear hnext
  | mainRequest s options => exact some.inj hnext ▸ h.onMainRequest options
  | task i => exact h.runTask hnext
  | fallback f => exact h.drops (runFallback_drops hnext)
  | forget f => exact h.drops (forgetFallback_drops hnext)
  | begins w => exact h.beginRun hnext
  | continues w => exact h.drops (continueRun_drops hnext)
  | completes w result => exact h.completeRun hnext
  | rename s title appends => exact some.inj hnext ▸ h.rename title appends
  | refresh s aborted appends => exact some.inj hnext ▸ h.refresh aborted appends
  | cancel w => exact some.inj hnext ▸ h.drops (.abort w)
  | register id automatic => exact h.drops (register_drops hnext)
  | unregister r => exact h.drops (unregister_drops hnext)
  | drained r => exact h.drops (drained_drops hnext)
  | enters s | leaves s | unloads =>
    exact some.inj hnext ▸ h.drops (.frame rfl rfl rfl rfl ⟨rfl, rfl, rfl⟩ rfl)
  | sessionDisposed s => exact some.inj hnext ▸ h.drops (disposeSession_drops s)
  | dispose => exact some.inj hnext ▸ h.drops dispose_drops
  | clear => exact h.drops (clear_drops hnext)

theorem inv_initial (log : Nat → List SessionEvent) (live : Nat → Bool) : Inv (initial log live) where
  unique st revision first second hfirst := by
    match first with
    | .pending => obtain ⟨pending, hheld, -⟩ := hfirst; cases hheld
    | .task i => obtain ⟨s, pending, route, hheld, -⟩ := hfirst; cases hheld
    | .run w => exact absurd hfirst.1 (not_lt_zero w)
  reserved st revision holder hholds := by
    match holder with
    | .pending => obtain ⟨pending, hheld, -⟩ := hholds; cases hheld
    | .task i => obtain ⟨s, pending, route, hheld, -⟩ := hholds; cases hheld
    | .run w => exact absurd hholds.1 (not_lt_zero w)
  active := nofun
  work := nofun
  owner := nofun
  queued := nofun
  unstarted _ _ := rfl
  committed := nofun
  once := List.nodup_nil

end SessionTitleService

end CocoHarness.SessionTitle
