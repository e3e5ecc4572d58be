/-
# CocoHarness.SessionTitle.Pinned — a user's title sticks.

A rename passes over the revision and aborts the active call, and from then on nothing of the session is current and
nothing is scheduled (`Pinned`), until a refresh.
-/
import Mathlib.Data.List.Nodup
import CocoHarness.SessionTitle.Titles

namespace CocoHarness.SessionTitle

open Lib Function Option

namespace SessionTitleService

variable {config : Config} {m m' : SessionTitleService} {s : Nat}

/-! ## Nothing is current -/

/-- The user has titled the session, and no work of it is of the current revision. -/
structure Pinned (m : SessionTitleService) (s : Nat) : Prop where
  named : (m.get s).any (·.source = .user) = true
  unscheduled : ∀ st, m.work s = some st → (m.states st).pending = none
  aborted : ∀ st w, m.work s = some st → (m.states st).active = some w → (m.runs w).aborted = true
  passed : ∀ st, m.work s = some st → ∀ i t pending route, m.tasks i = some (.start t st pending route) →
    pending.revision < (m.states st).revision

theorem Pinned.drops (h : Pinned m s) (hdrops : Drops m m') (hget : m'.get s = m.get s) : Pinned m' s := by
  have hwork : ∀ st, m'.work s = some st → m.work s = some st := by
    intro st hst
    rcases hdrops.work s with hsame | hnone
    · rwa [hsame] at hst
    · rw [hnone] at hst
      cases hst
  refine ⟨by rw [hget]; exact h.named, fun st hst => ?_, fun st w hst hactive => ?_, fun st hst i t pending route hi => ?_⟩
  · by_contra hpending
    obtain ⟨pending, hpending⟩ := ne_none_iff_exists'.mp hpending
    obtain ⟨held, hheld, -⟩ := hdrops.holds st pending.revision .pending ⟨pending, hpending, rfl⟩
    rw [h.unscheduled st (hwork st hst)] at hheld
    cases hheld
  · exact hdrops.aborted w (h.aborted st w (hwork st hst) (hdrops.active st w hactive))
  · exact Nat.lt_of_lt_of_le (h.passed st (hwork st hst) i t pending route (hdrops.queued i _ hi)) (hdrops.revision st)

theorem Pinned.away (h : Pinned m s) (hinv : Inv m) (st₀ : Nat) (hother : m.work s ≠ some st₀) (hlog : m'.log s = m.log s)
    (hwork : m'.work s = m.work s) (hstates : ∀ st, st ≠ st₀ → m'.states st = m.states st)
    (hruns : ∀ w, w < m.runCount → m'.runs w = m.runs w)
    (htasks : ∀ i t st pending route, m'.tasks i = some (.start t st pending route) → st ≠ st₀ →
      m.tasks i = some (.start t st pending route)) : Pinned m' s := by
  have hown : ∀ st, m'.work s = some st → m.work s = some st ∧ st ≠ st₀ := by
    intro st hst
    rw [hwork] at hst
    exact ⟨hst, fun heq => hother (heq ▸ hst)⟩
  refine ⟨by rw [get, hlog]; exact h.named, fun st hst => ?_, fun st w hst hactive => ?_, fun st hst i t pending route hi => ?_⟩
  · obtain ⟨hst, hne⟩ := hown st hst
    rw [hstates st hne]
    exact h.unscheduled st hst
  · obtain ⟨hst, hne⟩ := hown st hst
    rw [hstates st hne] at hactive
    rw [hruns w (hinv.active st w hactive).1]
    exact h.aborted st w hst hactive
  · obtain ⟨hst, hne⟩ := hown st hst
    rw [hstates st hne]
    exact h.passed st hst i t pending route (htasks i t st pending route hi hne)

theorem Pinned.stateFor (h : Pinned m s) (hinv : Inv m) (t : Nat) : Pinned (m.stateFor t).1 s := by
  unfold SessionTitleService.stateFor
  split
  · exact h
  · next hnone =>
    by_cases hst : s = t
    · subst hst
      have hnew : ∀ st, update m.work s (some m.stateCount) s = some st → st = m.stateCount := by
        intro st hst
        rw [update_self] at hst
        exact (some.inj hst).symm
      refine ⟨h.named, fun st hst => ?_, fun st w hst hactive => ?_, fun st hst i t pending route hi => ?_⟩
      · obtain rfl := hnew st hst
        simp
      · obtain rfl := hnew st hst
        simp at hactive
      · obtain rfl := hnew st hst
        -- no task has waited for a state object that there was not yet
        have := (hinv.reserved _ _ (.task i) ⟨t, pending, route, hi, rfl⟩).1
        exact absurd this (Nat.lt_irrefl _)
    · refine h.away hinv m.stateCount (fun hwork => ?_) rfl (update_of_ne hst ..)
        (fun st hne => update_of_ne hne ..) (fun _ _ => rfl) fun _ _ _ _ _ hi _ => hi
      exact absurd (hinv.work s _ hwork) (Nat.lt_irrefl _)

theorem Pinned.defer (h : Pinned m s) {task : Task}
    (hother : ∀ t st pending route, task = .start t st pending route → m.work s ≠ some st) : Pinned (m.defer task) s := by
  refine ⟨h.named, h.unscheduled, h.aborted, fun st hst i t pending route hi => ?_⟩
  have hi : update m.tasks m.taskCount (some task) i = some (.start t st pending route) := hi
  by_cases hlast : i = m.taskCount
  · rw [hlast, update_self] at hi
    exact absurd hst (hother t st pending route (some.inj hi))
  · rw [update_of_ne hlast] at hi
    exact h.passed st hst i t pending route hi

variable {t st : Nat}

theorem Pinned.activate (h : Pinned m s) (hinv : Inv m) (hother : m.work s ≠ some st)
    (pending : PendingAutomaticWork) (route : Option SessionTitleModelProvenance) (aborted : Bool) :
    Pinned (m.activate t st pending route aborted) s := by
  apply h.away hinv st hother
  · rfl
  · rfl
  · exact fun other hne => update_of_ne hne ..
  · exact fun w hw => update_of_ne (Nat.ne_of_lt hw) ..
  · exact fun _ _ _ _ _ hi _ => hi

theorem work_ne (hinv : Inv m) (hne : t ≠ s) (hwork : m.work t = some st) : m.work s ≠ some st :=
  fun hst => hne (hinv.owner t s st hwork hst)

theorem Pinned.ensureFallback (h : Pinned m s) (hinv : Inv m) {f : Option Nat}
    (hnext : m.ensureFallback config t = some (m', f)) : Pinned m' s := by
  have hlog := (ensureFallback_frame hnext).1
  rcases ensureFallback_cases hnext with rfl | ⟨-, hdrops⟩
  · exact h
  · refine (h.stateFor hinv t).drops hdrops ?_
    show foldSessionTitle (m'.log s) = foldSessionTitle ((m.stateFor t).1.log s)
    rw [hlog, (stateFor_frame m t).1]

theorem Pinned.ensureFallback_elim (h : Pinned m s) (hinv : Inv m) (t : Nat) :
    Pinned ((m.ensureFallback config t).elim m (·.1)) s := by
  cases hfallback : m.ensureFallback config t with
  | none => exact h
  | some result => exact h.ensureFallback hinv hfallback

theorem Pinned.supersede (h : Pinned m s) (hinv : Inv m) (st : Nat) : Pinned (m.supersede st) s := by
  apply h.drops (supersede_spec hinv st).1
  rw [get, supersede_log, get]

theorem Pinned.onUserMessage (h : Pinned m s) (hinv : Inv m) (t seq : Nat) (event : SessionEvent) (forked : Bool) :
    Pinned (m.onUserMessage config t seq event forked) s := by
  unfold SessionTitleService.onUserMessage
  split
  · exact h
  · split
    · exact h
    · split
      · exact h
      · next huser =>
        -- the session itself has a title of its user
        have hne : t ≠ s := fun hts => huser (hts ▸ h.named)
        apply Pinned.defer
        · split
          · exact h
          · split
            · exact h
            · split
              · obtain ⟨hstate, hwork⟩ := hinv.stateFor t
                have hsuperseded := (h.stateFor hinv t).supersede hstate (m.stateFor t).2
                have hinv' := hstate.supersede (m.stateFor t).2
                apply hsuperseded.away hinv' (m.stateFor t).2
                · intro hst
                  rcases (supersede_spec hstate (m.stateFor t).2).1.work s with hsame | hnone
                  · rw [hsame] at hst
                    exact work_ne hstate hne hwork hst
                  · rw [hnone] at hst
                    cases hst
                · rfl
                · rfl
                · exact fun other hother => update_of_ne hother ..
                · exact fun _ _ => rfl
                · exact fun _ _ _ _ _ hi _ => hi
              · exact h
        · nofun

variable {pending : PendingAutomaticWork}

theorem Pinned.startPending (h : Pinned m s)
    (hother : m.work s ≠ some st) (route : SessionTitleModelProvenance) : Pinned (m.startPending t st pending route) s := by
  have hdropped : Pinned (m.modifyState st fun state => { state with pending := none }) s :=
    h.drops (.modifyState nofun (Nat.le_refl _) fun _ => id) rfl
  apply hdropped.defer
  intro t' st' pending' route' hstart
  cases hstart
  exact hother

theorem Pinned.work_ne_pending (h : Pinned m s) (hinv : Inv m)
    (hwork : m.work t = some st) (hpending : (m.states st).pending = some pending) : m.work s ≠ some st := by
  intro hst
  rw [h.unscheduled st hst] at hpending
  cases hpending

theorem Pinned.onRequestHeader (h : Pinned m s) (hinv : Inv m) (t seq : Nat) (route : SessionTitleModelProvenance) :
    Pinned (m.onRequestHeader t seq route) s := by
  unfold SessionTitleService.onRequestHeader
  split
  · exact h
  · split
    · exact h
    · split
      · exact h
      · next st hwork _ pending hpending =>
        split
        · exact h
        · exact h.startPending (h.work_ne_pending hinv hwork hpending) route

theorem Pinned.onMainRequest (h : Pinned m s) (hinv : Inv m) (t : Nat) (options : SessionTitleModelProvenance) :
    Pinned (m.onMainRequest t options) s := by
  unfold SessionTitleService.onMainRequest
  split
  · exact h
  · split
    · exact h
    · split
      · exact h
      · next st hwork _ pending hpending =>
        split
        · exact h.startPending (h.work_ne_pending hinv hwork hpending) options
        · exact h

theorem Pinned.hear (h : Pinned m s) (hinv : Inv m) {forked : Bool} (hnext : m.hear config t forked = some m') :
    Pinned m' s := by
  obtain ⟨event, -, hnext⟩ := bind_eq_some_iff.mp hnext
  have hdrops : Drops m { m with heard := update m.heard t (m.heard t + 1) } :=
    .frame rfl rfl rfl rfl ⟨rfl, rfl, rfl⟩ rfl
  have hheard := h.drops hdrops rfl
  have hinv' := hinv.drops hdrops
  dsimp only at hnext
  split at hnext
  · cases hnext
    exact hheard.onUserMessage hinv' ..
  · cases hnext
    exact hheard.onRequestHeader hinv' ..
  · cases hnext
    exact hheard

theorem Pinned.runTask (h : Pinned m s) (hinv : Inv m) {i : Nat} (hnext : m.runTask config i = some m') :
    Pinned m' s := by
  obtain ⟨task, htask, hnext⟩ := bind_eq_some_iff.mp hnext
  have hdrops : Drops m { m with tasks := update m.tasks i none } := .dequeue i
  have hdequeued := h.drops hdrops rfl
  have hinv' := hinv.drops hdrops
  dsimp only at hnext
  split at hnext
  · cases hnext
    exact hdequeued
  · split at hnext
    · cases hnext
      exact hdequeued.ensureFallback_elim hinv' _
    · next t st pending route =>
      split at hnext
      · cases hnext
        exact hdequeued
      · next hguard =>
        cases hnext
        apply hdequeued.activate hinv'
        -- what was scheduled for the session has been passed over
        intro hst
        have hpassed := h.passed st hst i t pending route htask
        simp only [not_or, not_not] at hguard
        exact absurd hguard.2.2.2 (Nat.ne_of_gt hpassed)

theorem Pinned.runFallback (h : Pinned m s) {f : Nat} (hnext : m.runFallback f = some m') : Pinned m' s := by
  refine h.drops (runFallback_drops hnext) ?_
  obtain ⟨-, -, hnext⟩ := bind_eq_some_iff.mp hnext
  dsimp only at hnext
  split at hnext
  · cases hnext
    rfl
  · split at hnext
    · cases hnext
      rfl
    · next hnone =>
      cases hnext
      apply get_congr
      apply update_of_ne
      -- the session has a title
      intro hst
      have hnamed := h.named
      rw [hst] at hnamed
      cases hget : m.get (m.fallbacks f).session with
      | none => rw [hget] at hnamed; cases hnamed
      | some data => rw [hget] at hnone; exact hnone rfl

theorem Pinned.completeRun (h : Pinned m s) {w : Nat} {result : Option SessionTitleProviderResult}
    (hnext : m.completeRun config w result = some m') : Pinned m' s := by
  obtain ⟨-, rfl | ⟨data, model, hcurrent, -, rfl⟩⟩ := completeRun_cases hnext
  · exact h.drops (endRun_drops w) (get_congr (by rw [endRun_log]))
  · have hdrops : Drops m ((m.appendTitle (m.runs w).session data).endRun w) :=
      (appendTitle_drops data).trans (endRun_drops w)
    have hpinned : Pinned ((m.appendTitle (m.runs w).session data).endRun w) s := by
      refine h.drops hdrops (get_congr ?_)
      rw [endRun_log]
      apply update_of_ne
      -- the session's active call is aborted
      rintro rfl
      simp only [isCurrent, Bool.and_eq_true, Bool.not_eq_true', any_eq_true] at hcurrent
      obtain ⟨⟨⟨⟨-, hlive⟩, -⟩, st, hst, hactive⟩, -⟩ := hcurrent
      have haborted := h.aborted st w hst (of_decide_eq_true hactive).1
      rw [hlive] at haborted
      cases haborted
    exact ⟨hpinned.named, hpinned.unscheduled, hpinned.aborted, hpinned.passed⟩

theorem Pinned.append (h : Pinned m s) {event : SessionEvent} (hplain : ∀ data, event ≠ .title data) :
    Pinned { m with log := update m.log t (m.log t ++ [event]) } s := by
  refine h.drops (.frame rfl rfl rfl rfl ⟨rfl, rfl, rfl⟩ rfl) ?_
  by_cases hst : s = t
  · subst hst
    show foldSessionTitle (update m.log s (m.log s ++ [event]) s) = foldSessionTitle (m.log s)
    rw [update_self, foldSessionTitle_snoc]
    cases event with
    | title data => exact absurd rfl (hplain data)
    | _ => rfl
  · exact get_congr (update_of_ne hst ..)

theorem Pinned.rename (h : Pinned m s) (hinv : Inv m) (t : Nat) (title : String) (appends : Bool) :
    Pinned (m.rename config t title appends) s := by
  unfold SessionTitleService.rename
  dsimp only
  split
  · exact h
  · have hsuperseded := (h.stateFor hinv t).supersede (hinv.stateFor t).1 (m.stateFor t).2
    split
    · by_cases hst : s = t
      · subst hst
        have hpinned := hsuperseded.drops (Drops.rfl) rfl
        refine ⟨?_, hpinned.unscheduled, hpinned.aborted, hpinned.passed⟩
        rw [get_appendTitle]
        rfl
      · exact hsuperseded.drops (appendTitle_drops _) (get_congr (update_of_ne hst ..))
    · exact hsuperseded

theorem Pinned.refresh (h : Pinned m s) (hinv : Inv m) (hne : t ≠ s) (aborted appends : Bool) :
    Pinned (m.refresh config t aborted appends) s := by
  unfold SessionTitleService.refresh
  split
  · exact h
  · dsimp only
    split
    · obtain ⟨hstate, hwork⟩ := hinv.stateFor t
      have hsuperseded := (h.stateFor hinv t).supersede hstate (m.stateFor t).2
      apply hsuperseded.activate (hstate.supersede _)
      exact work_ne (hstate.supersede _) hne (by rw [supersede_work, hwork])
    · split
      · split
        · unfold appendFallback
          dsimp only
          split
          · exact h
          · exact h.drops (appendTitle_drops _) (get_congr (update_of_ne (Ne.symm hne) ..))
        · exact h.ensureFallback_elim hinv t
      · exact h.ensureFallback_elim hinv t

variable {act : Act}

/-- **One step**, of anything but a refresh of the session. -/
theorem Pinned.step (h : Pinned m s) (hinv : Inv m) (hother : ∀ aborted appends, act ≠ .refresh s aborted appends)
    (hnext : m.step config act = some m') : Pinned m' s := by
  cases act with
  | append t event =>
    simp only [SessionTitleService.step] at hnext
    split at hnext
    · cases hnext
    · next hplain =>
      cases hnext
      exact h.append fun data heq => hplain data heq
  | hear t forked => exact h.hear hinv hnext
  | mainRequest t options => exact some.inj hnext ▸ h.onMainRequest hinv t options
  | task i => exact h.runTask hinv hnext
  | fallback f => exact h.runFallback hnext
  | forget f =>
    refine h.drops (forgetFallback_drops hnext) ?_
    obtain ⟨-, -, hnext⟩ := bind_eq_some_iff.mp hnext
    cases hnext
    rfl
  | begins w =>
    obtain ⟨-, -, hbegun⟩ := bind_eq_some_iff.mp hnext
    split at hbegun
    · cases hbegun
      exact h.drops (endRun_drops w) (get_congr (by rw [endRun_log]))
    · split at hbegun
      · cases hbegun
        exact h.drops (endRun_drops w) (get_congr (by rw [endRun_log]))
      · next hfallback =>
        cases hbegun
        have hpinned := h.ensureFallback hinv hfallback
        refine ⟨hpinned.named, hpinned.unscheduled, fun st w' hst hactive => ?_, hpinned.passed⟩
        have haborted := hpinned.aborted st w' hst hactive
        unfold modifyRun
        by_cases hw : w' = w
        · subst hw
          simpa using haborted
        · simpa [hw] using haborted
  | continues w => exact h.drops (continueRun_drops hnext) (get_congr (by rw [continueRun_log hnext]))
  | completes w result => exact h.completeRun hnext
  | rename t title appends => exact some.inj hnext ▸ h.rename hinv t title appends
  | refresh t aborted appends =>
    have hne : t ≠ s := by
      rintro rfl
      exact hother aborted appends rfl
    exact some.inj hnext ▸ h.refresh hinv hne aborted appends
  | cancel w => exact some.inj hnext ▸ h.drops (.abort w) rfl
  | register id automatic =>
    refine h.drops (register_drops hnext) ?_
    obtain ⟨-, -, hnext⟩ := bind_eq_some_iff.mp hnext
    cases hnext
    rfl
  | unregister r =>
    refine h.drops (unregister_drops hnext) ?_
    obtain ⟨-, -, hnext⟩ := bind_eq_some_iff.mp hnext
    cases hnext
    rfl
  | drained r =>
    refine h.drops (drained_drops hnext) ?_
    obtain ⟨-, -, hnext⟩ := bind_eq_some_iff.mp hnext
    cases hnext
    split <;> rfl
  | enters t | leaves t | unloads =>
    exact some.inj hnext ▸ h.drops (.frame rfl rfl rfl rfl ⟨rfl, rfl, rfl⟩ rfl) rfl
  | sessionDisposed t =>
    exact some.inj hnext ▸ h.drops (disposeSession_drops t) (get_congr (by rw [disposeSession_log]))
  | dispose => exact some.inj hnext ▸ h.drops dispose_drops rfl
  | clear =>
    refine h.drops (clear_drops hnext) ?_
    obtain ⟨-, -, hnext⟩ := bind_eq_some_iff.mp hnext
    cases hnext
    rfl

/-- **A rename that is appended pins the title.** -/
theorem rename_pins (hinv : Inv m) {title : String} {appends : Bool}
    (happended : (m.rename config s title appends).log s ≠ m.log s) : Pinned (m.rename config s title appends) s := by
  revert happended
  unfold SessionTitleService.rename
  dsimp only
  split
  · exact fun hsame => absurd rfl hsame
  · obtain ⟨hstate, hwork⟩ := hinv.stateFor s
    obtain ⟨hdrops, hpending, hpassed⟩ := supersede_spec hstate (m.stateFor s).2
    have hlog : ((m.stateFor s).1.supersede (m.stateFor s).2).log = m.log :=
      (supersede_log _).trans (stateFor_frame m s).1
    have hown : ∀ st, ((m.stateFor s).1.supersede (m.stateFor s).2).work s = some st → st = (m.stateFor s).2 := by
      intro st hst
      rw [supersede_work, hwork] at hst
      exact (some.inj hst).symm
    split
    · intro _
      refine ⟨?_, fun st hst => ?_, fun st w hst hactive => ?_, fun st hst i t pending route hi => ?_⟩
      · rw [get_appendTitle]
        rfl
      · obtain rfl := hown st hst
        exact hpending
      · obtain rfl := hown st hst
        exact supersede_aborted hactive
      · obtain rfl := hown st hst
        exact hpassed _ (.task i) ⟨t, pending, route, hi, rfl⟩
    · exact fun hsame => absurd (congrFun hlog s) hsame

/-! ## Authority -/

theorem Pinned.titles (h : Pinned m s) (hother : ∀ aborted appends, act ≠ .refresh s aborted appends)
    {more : List SessionEvent} (happends : Appends m s m' act more) {data : SessionTitleEventData}
    (hdata : SessionEvent.title data ∈ more) : data.source = .user := by
  cases happends with
  | nothing => cases hdata
  | event event hplain =>
    rw [List.mem_singleton] at hdata
    exact absurd hdata.symm (hplain data)
  | user title appends data' hsource =>
    rw [List.mem_singleton] at hdata
    cases hdata
    exact hsource
  | refreshed aborted appends => exact absurd rfl (hother aborted appends)
  | fallback f data' hsource hnone =>
    have hnamed := h.named
    rw [hnone] at hnamed
    cases hnamed
  | provider w result data' id model hsource hcurrent hsession =>
    subst hsession
    simp only [isCurrent, Bool.and_eq_true, Bool.not_eq_true', any_eq_true] at hcurrent
    obtain ⟨⟨⟨⟨-, hlive⟩, -⟩, st, hst, hactive⟩, -⟩ := hcurrent
    have haborted := h.aborted st w hst (of_decide_eq_true hactive).1
    rw [hlive] at haborted
    cases haborted

variable {acts : List Act}

theorem Inv.exec (h : Inv m) (hrun : Machine.exec (SessionTitleService.step config) m acts = some m') : Inv m' :=
  Machine.exec_invariant (fun _ _ _ _ hinv hnext => Inv.step hinv hnext) h hrun

/-- **A run** without a refresh of the session. -/
theorem Pinned.exec (h : Pinned m s) (hinv : Inv m)
    (hother : ∀ act ∈ acts, ∀ aborted appends, act ≠ .refresh s aborted appends)
    (hrun : Machine.exec (SessionTitleService.step config) m acts = some m') :
    ∃ more, m'.log s = m.log s ++ more ∧ ∀ data, SessionEvent.title data ∈ more → data.source = .user := by
  induction acts generalizing m with
  | nil =>
    cases hrun
    exact ⟨[], (List.append_nil _).symm, nofun⟩
  | cons act acts ih =>
    obtain ⟨mid, hmid, hrest⟩ := bind_eq_some_iff.mp hrun
    have hact := hother act List.mem_cons_self
    obtain ⟨first, hfirst, happends⟩ := log_step hmid s
    obtain ⟨later, hlater, htitles⟩ := ih (h.step hinv hact hmid) (hinv.step hmid)
      (fun other hmem => hother other (List.mem_cons_of_mem act hmem)) hrest
    refine ⟨first ++ later, by rw [hlater, hfirst, List.append_assoc], fun data hdata => ?_⟩
    rcases List.mem_append.mp hdata with hdata | hdata
    · exact h.titles hact happends hdata
    · exact htitles data hdata

theorem Inv.committed_nodup (h : Inv m) :
    (m.committed.map fun w => ((m.runs w).state, (m.runs w).revision)).Nodup := by
  refine List.Nodup.map_on (fun w hw w' hw' heq => ?_) h.once
  obtain ⟨hstate, hrevision⟩ := Prod.mk.inj heq
  have hsame := h.unique (m.runs w).state (m.runs w).revision (.run w) (.run w') ⟨(h.committed w hw).1, rfl, rfl⟩
    ⟨(h.committed w' hw').1, hstate.symm, hrevision.symm⟩
  exact Holder.run.inj hsame

/-- **A user's title sticks.**  After an appended rename only the user titles the session, until a refresh. The user
titles it by a rename, a fallback while it has no title or in a refresh, and a provider by the active call of the
current revision that has not been aborted; one revision commits one result at most. -/
theorem title_authority {log : Nat → List SessionEvent} {live : Nat → Bool}
    (hrun : Machine.exec (step config) (initial log live) acts = some m) :
    (∀ s title appends m₁ later m₂, m.step config (.rename s title appends) = some m₁ → m₁.log s ≠ m.log s →
      (∀ act ∈ later, ∀ aborted appends, act ≠ .refresh s aborted appends) →
      Machine.exec (step config) m₁ later = some m₂ →
      ∃ more, m₂.log s = m₁.log s ++ more ∧ ∀ data, SessionEvent.title data ∈ more → data.source = .user) ∧
    (∀ act m' s, m.step config act = some m' → ∃ more, m'.log s = m.log s ++ more ∧
      ∀ data, SessionEvent.title data ∈ more →
        match data.source with
        | .user => ∃ title appends, act = .rename s title appends
        | .fallback => m.get s = none ∨ ∃ aborted appends, act = .refresh s aborted appends
        | .provider _ _ => ∃ w result st, act = .completes w result ∧ (m.runs w).session = s ∧
            m.work s = some st ∧ (m.states st).active = some w ∧ (m.runs w).state = st ∧
            (m.runs w).revision = (m.states st).revision ∧ (m.runs w).aborted = false ∧
            m'.committed = m.committed ++ [w]) ∧
    (m.committed.map fun w => ((m.runs w).state, (m.runs w).revision)).Nodup := by
  have hinv : Inv m := (inv_initial log live).exec hrun
  refine ⟨fun s title appends m₁ later m₂ hrename happended hother hlater => ?_, fun act m' s hnext => ?_,
    hinv.committed_nodup⟩
  · have hinv₁ := hinv.step hrename
    cases hrename
    exact (rename_pins hinv happended).exec hinv₁ hother hlater
  · obtain ⟨more, hmore, happends⟩ := log_step hnext s
    refine ⟨more, hmore, fun data hdata => ?_⟩
    cases happends with
    | nothing => cases hdata
    | event event hplain => exact absurd (List.mem_singleton.mp hdata).symm (hplain data)
    | user title appends data' hsource =>
      cases List.mem_singleton.mp hdata
      rw [hsource]
      exact ⟨title, appends, rfl⟩
    | refreshed aborted appends data' hsource =>
      cases List.mem_singleton.mp hdata
      rw [hsource]
      exact .inr ⟨aborted, appends, rfl⟩
    | fallback f data' hsource hnone =>
      cases List.mem_singleton.mp hdata
      rw [hsource]
      exact .inl hnone
    | provider w result data' id model hsource hcurrent hsession hcommitted =>
      cases List.mem_singleton.mp hdata
      rw [hsource]
      subst hsession
      simp only [isCurrent, Bool.and_eq_true, Bool.not_eq_true', any_eq_true] at hcurrent
      obtain ⟨⟨⟨⟨-, hlive⟩, -⟩, st, hst, hboth⟩, -⟩ := hcurrent
      obtain ⟨hactive, hrevision⟩ := of_decide_eq_true hboth
      exact ⟨w, result, st, rfl, rfl, hst, hactive, (hinv.active st w hactive).2, hrevision.symm, hlive, hcommitted⟩

def plainConfig : Config := ⟨8, 80, 80, fun text _ => text, fun text _ _ => text⟩

/-- A message, its title by a provider, and a rename while the provider titles the next one. -/
def renameRun : List Act :=
  [.register "p" .allPrompts, .append 0 (.userMessage true "a"), .hear 0 false, .append 0 (.requestHeader ⟨"x", "y"⟩),
    .hear 0 false, .task 1, .begins 0, .fallback 0, .forget 0, .continues 0, .completes 0 (some ⟨"first", [0], none⟩),
    .hear 0 false, .hear 0 false, .append 0 (.userMessage true "b"), .hear 0 false]

/-- What still goes on of the call that the rename has passed over. -/
def afterRename : List Act := [.append 0 (.requestHeader ⟨"x", "y"⟩), .hear 0 false, .task 2]

theorem title_authority_renamed : ∃ m m₁ m₂,
    Machine.exec (step plainConfig) (initial (fun _ => []) fun _ => true) renameRun = some m ∧
    m.step plainConfig (.rename 0 "mine" true) = some m₁ ∧ Machine.exec (step plainConfig) m₁ afterRename = some m₂ ∧
    m.committed = [0] ∧ m.get 0 = some ⟨"first", [0], .provider "p" none⟩ ∧ m₂.get 0 = some ⟨"mine", [], .user⟩ ∧
    (∃ more, m₂.log 0 = m₁.log 0 ++ more ∧ ∀ data, SessionEvent.title data ∈ more → data.source = .user) ∧
    (m.committed.map fun w => ((m.runs w).state, (m.runs w).revision)).Nodup := by
  have hrun : (Machine.exec (step plainConfig) (initial (fun _ => []) fun _ => true) renameRun).isSome = true := by
    decide +kernel
  obtain ⟨m, hm⟩ := isSome_iff_exists.mp hrun
  have hfacts : (Machine.exec (step plainConfig) (initial (fun _ => []) fun _ => true) renameRun).all
      (fun m => m.committed = [0] ∧ m.get 0 = some ⟨"first", [0], .provider "p" none⟩ ∧
        (m.rename plainConfig 0 "mine" true).log 0 ≠ m.log 0 ∧
        (Machine.exec (step plainConfig) (m.rename plainConfig 0 "mine" true) afterRename).any
          (·.get 0 = some ⟨"mine", [], .user⟩)) = true := by
    decide +kernel
  rw [hm] at hfacts
  obtain ⟨hcommitted, hfirst, happended, hafter⟩ := of_decide_eq_true hfacts
  obtain ⟨m₂, hm₂, hmine⟩ := any_eq_true _ _ |>.mp hafter
  obtain ⟨hsticks, -, honce⟩ := title_authority hm
  have hlater : ∀ act ∈ afterRename, ∀ aborted appends, act ≠ .refresh 0 aborted appends := by
    intro act hact
    simp only [afterRename, List.mem_cons, List.not_mem_nil, or_false] at hact
    rcases hact with rfl | rfl | rfl <;> exact fun _ _ h => by cases h
  exact ⟨m, _, m₂, hm, rfl, hm₂, hcommitted, hfirst, of_decide_eq_true hmine,
    hsticks 0 "mine" true _ afterRename m₂ rfl happended hlater hm₂, honce⟩

/-- The first message schedules a fallback, and the next one begins a new revision. -/
def supersededRun : List Act :=
  [.register "p" .allPrompts, .append 0 (.userMessage true "a"), .hear 0 false, .task 0,
    .append 0 (.userMessage true "b"), .hear 0 false]

/-- **A fallback has no revision**: one of the first titles the session in the second. -/
theorem fallback_superseded : ∃ m₁ m₂ m₃,
    Machine.exec (step plainConfig) (initial (fun _ => []) fun _ => true) (supersededRun.take 4) = some m₁ ∧
    Machine.exec (step plainConfig) m₁ (supersededRun.drop 4) = some m₂ ∧ m₂.step plainConfig (.fallback 0) = some m₃ ∧
    (m₁.fallbacks 0).stage = .scheduled ∧ (m₁.states 0).revision = 1 ∧ m₂.work 0 = some 0 ∧ (m₂.states 0).revision = 2 ∧
    (m₂.states 0).active = none ∧ m₃.log 0 = m₂.log 0 ++ [.title ⟨"a", [0], .fallback⟩] := by
  have hrun : (Machine.exec (step plainConfig) (initial (fun _ => []) fun _ => true) (supersededRun.take 4)).any
      (fun m₁ => (m₁.fallbacks 0).stage = .scheduled ∧ (m₁.states 0).revision = 1 ∧
        (Machine.exec (step plainConfig) m₁ (supersededRun.drop 4)).any fun m₂ =>
          m₂.work 0 = some 0 ∧ (m₂.states 0).revision = 2 ∧ (m₂.states 0).active = none ∧
            (m₂.step plainConfig (.fallback 0)).any fun m₃ =>
              m₃.log 0 = m₂.log 0 ++ [.title ⟨"a", [0], .fallback⟩]) = true := by
    decide +kernel
  obtain ⟨m₁, hm₁, hfirst⟩ := any_eq_true _ _ |>.mp hrun
  obtain ⟨hscheduled, hrevision₁, hrest⟩ := of_decide_eq_true hfirst
  obtain ⟨m₂, hm₂, hsecond⟩ := any_eq_true _ _ |>.mp hrest
  obtain ⟨hwork, hrevision₂, hactive, hrest⟩ := of_decide_eq_true hsecond
  obtain ⟨m₃, hm₃, hlog⟩ := any_eq_true _ _ |>.mp hrest
  exact ⟨m₁, m₂, m₃, hm₁, hm₂, hm₃, hscheduled, hrevision₁, hwork, hrevision₂, hactive, of_decide_eq_true hlog⟩

end SessionTitleService

end CocoHarness.SessionTitle
