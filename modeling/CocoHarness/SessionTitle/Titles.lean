/-
# CocoHarness.SessionTitle.Titles — what may append a title.

Every title but the user's is appended after a check in the same stretch of code: a fallback when the session has no
title, a provider's when its call is the active one of the current revision and has not been aborted (`log_step`).
-/
import CocoHarness.SessionTitle.Revisions

namespace CocoHarness.SessionTitle

open Lib Option

namespace SessionTitleService

variable {config : Config} {m m' : SessionTitleService} {s : Nat}

/-! ## What is appended -/

/-- What a step appends to the log of a session, and why it may. -/
inductive Appends (m : SessionTitleService) (s : Nat) (m' : SessionTitleService) : Act → List SessionEvent → Prop where
  | nothing (act : Act) : Appends m s m' act []
  | event (event : SessionEvent) (hplain : ∀ data, event ≠ .title data) : Appends m s m' (.append s event) [event]
  | user (title : String) (appends : Bool) (data : SessionTitleEventData) (hsource : data.source = .user) :
      Appends m s m' (.rename s title appends) [.title data]
  | refreshed (aborted appends : Bool) (data : SessionTitleEventData) (hsource : data.source = .fallback) :
      Appends m s m' (.refresh s aborted appends) [.title data]
  | fallback (f : Nat) (data : SessionTitleEventData) (hsource : data.source = .fallback) (hnone : m.get s = none) :
      Appends m s m' (.fallback f) [.title data]
  | provider (w : Nat) (result : Option SessionTitleProviderResult) (data : SessionTitleEventData) (id : String)
      (model : Option SessionTitleModelProvenance) (hsource : data.source = .provider id model)
      (hcurrent : m.isCurrent w = true) (hsession : (m.runs w).session = s)
      (hcommitted : m'.committed = m.committed ++ [w]) : Appends m s m' (.completes w result) [.title data]

theorem endRun_log (w : Nat) : (m.endRun w).log = m.log := by
  unfold endRun
  split
  · rfl
  · split <;> rfl

theorem supersede_log (st : Nat) : (m.supersede st).log = m.log := by
  unfold supersede
  cases (m.states st).active with
  | none | some w => rfl

theorem onUserMessage_log (seq : Nat) (event : SessionEvent) (forked : Bool) :
    (m.onUserMessage config s seq event forked).log = m.log := by
  unfold onUserMessage
  split
  · rfl
  · split
    · rfl
    · split
      · rfl
      · dsimp only [defer]
        split
        · rfl
        · split
          · rfl
          · split
            · exact (supersede_log _).trans (stateFor_frame m s).1
            · rfl

theorem onRequestHeader_log (seq : Nat) (route : SessionTitleModelProvenance) :
    (m.onRequestHeader s seq route).log = m.log := by
  unfold onRequestHeader
  split
  · rfl
  · split
    · rfl
    · split
      · rfl
      · split <;> rfl

theorem hear_log {forked : Bool} (hnext : m.hear config s forked = some m') : m'.log = m.log := by
  obtain ⟨event, -, hnext⟩ := bind_eq_some_iff.mp hnext
  dsimp only at hnext
  split at hnext
  · cases hnext
    exact onUserMessage_log ..
  · cases hnext
    exact onRequestHeader_log ..
  · cases hnext
    rfl

theorem onMainRequest_log (options : SessionTitleModelProvenance) : (m.onMainRequest s options).log = m.log := by
  unfold onMainRequest
  split
  · rfl
  · split
    · rfl
    · split
      · rfl
      · split <;> rfl

theorem ensureFallback_elim_log : ((m.ensureFallback config s).elim m (·.1)).log = m.log := by
  cases hfallback : m.ensureFallback config s with
  | none => rfl
  | some result => exact (ensureFallback_frame hfallback).1

theorem runTask_log {i : Nat} (hnext : m.runTask config i = some m') : m'.log = m.log := by
  obtain ⟨task, -, hnext⟩ := bind_eq_some_iff.mp hnext
  dsimp only at hnext
  split at hnext
  · cases hnext
    rfl
  · split at hnext
    · cases hnext
      exact ensureFallback_elim_log
    · split at hnext
      · cases hnext
        rfl
      · cases hnext
        rfl

theorem beginRun_log {w : Nat} (hnext : m.beginRun config w = some m') : m'.log = m.log := by
  obtain ⟨-, -, hnext⟩ := bind_eq_some_iff.mp hnext
  split at hnext
  · cases hnext
    exact endRun_log w
  · split at hnext
    · cases hnext
      exact endRun_log w
    · next hfallback =>
      cases hnext
      exact (ensureFallback_frame hfallback).1

theorem continueRun_log {w : Nat} (hnext : m.continueRun config w = some m') : m'.log = m.log := by
  unfold continueRun at hnext
  split at hnext
  · obtain ⟨-, -, hnext⟩ := bind_eq_some_iff.mp hnext
    split at hnext
    · cases hnext
      exact endRun_log w
    · split at hnext
      · cases hnext
        exact endRun_log w
      · cases hnext
        rfl
  · cases hnext

theorem disposeSession_log (t : Nat) : (m.disposeSession t).log = m.log := by
  unfold disposeSession
  split
  · rfl
  · next st _ =>
    show ((m.states st).active.elim m m.abort).log = m.log
    cases (m.states st).active with
    | none | some w => rfl

theorem appendTitle_log (t : Nat) (data : SessionTitleEventData) (s : Nat) :
    (m.appendTitle t data).log s = m.log s ++ if s = t then [.title data] else [] := by
  by_cases hst : s = t
  · subst hst
    simp [appendTitle]
  · simp [appendTitle, hst]

theorem log_unchanged {act : Act} (h : m'.log = m.log) (s : Nat) :
    ∃ more, m'.log s = m.log s ++ more ∧ Appends m s m' act more :=
  ⟨[], by rw [h, List.append_nil], .nothing act⟩

theorem log_appended {act : Act} {t : Nat} {data : SessionTitleEventData} (hlog : m'.log = (m.appendTitle t data).log)
    (happends : ∀ s, s = t → Appends m s m' act [.title data]) (s : Nat) :
    ∃ more, m'.log s = m.log s ++ more ∧ Appends m s m' act more := by
  refine ⟨if s = t then [.title data] else [], by rw [hlog, appendTitle_log], ?_⟩
  split
  · next hst => exact happends s hst
  · exact .nothing act

/-- **Who may title a session.** -/
theorem log_step {act : Act} (hnext : m.step config act = some m') (s : Nat) :
    ∃ more, m'.log s = m.log s ++ more ∧ Appends m s m' act more := by
  cases act with
  | append t event =>
    simp only [step] at hnext
    split at hnext
    · cases hnext
    · next hplain =>
      cases hnext
      refine ⟨if s = t then [event] else [], ?_, ?_⟩
      · by_cases hst : s = t
        · subst hst; simp
        · simp [hst]
      · split
        · next hst =>
          subst hst
          exact .event event fun data heq => hplain data heq
        · exact .nothing _
  | hear t forked => exact log_unchanged (hear_log hnext) s
  | mainRequest t options => exact Option.some.inj hnext ▸ log_unchanged (onMainRequest_log options) s
  | task i => exact log_unchanged (runTask_log hnext) s
  | fallback f =>
    obtain ⟨-, -, hnext⟩ := bind_eq_some_iff.mp hnext
    dsimp only at hnext
    split at hnext
    · cases hnext
      apply log_unchanged
      rfl
    · split at hnext
      · cases hnext
        apply log_unchanged
        rfl
      · next hnone =>
        cases hnext
        apply log_appended
        · rfl
        · intro s hst
          subst hst
          exact .fallback f _ rfl (by simpa using hnone)
  | forget f | register id automatic | unregister r | clear =>
    obtain ⟨-, -, hnext⟩ := bind_eq_some_iff.mp hnext
    cases hnext
    apply log_unchanged
    rfl
  | begins w => exact log_unchanged (beginRun_log hnext) s
  | continues w => exact log_unchanged (continueRun_log hnext) s
  | completes w result =>
    obtain ⟨-, rfl | ⟨data, model, hcurrent, hsource, rfl⟩⟩ := completeRun_cases hnext
    · exact log_unchanged (endRun_log w) s
    · apply log_appended
      · exact endRun_log w
      · intro s hst
        exact .provider w result data _ model hsource hcurrent hst.symm rfl
  | rename t title appends =>
    cases hnext
    unfold rename
    dsimp only
    split
    · apply log_unchanged
      rfl
    · have hlog : ((m.stateFor t).1.supersede (m.stateFor t).2).log = m.log :=
        (supersede_log _).trans (stateFor_frame m t).1
      split
      · apply log_appended
        · show Function.update _ t _ = Function.update m.log t _
          rw [hlog]
        · intro s hst
          subst hst
          exact .user title appends _ rfl
      · exact log_unchanged hlog s
  | refresh t aborted appends =>
    cases hnext
    unfold refresh
    split
    · apply log_unchanged
      rfl
    · dsimp only
      split
      · apply log_unchanged
        exact (supersede_log _).trans (stateFor_frame m t).1
      · split
        · split
          · unfold appendFallback
            dsimp only
            split
            · apply log_unchanged
              rfl
            · apply log_appended
              · rfl
              · intro s hst
                subst hst
                exact .refreshed aborted appends _ rfl
          · exact log_unchanged ensureFallback_elim_log s
        · exact log_unchanged ensureFallback_elim_log s
  | cancel w | enters t | leaves t | unloads | dispose =>
    cases hnext
    apply log_unchanged
    rfl
  | drained r =>
    obtain ⟨-, -, hnext⟩ := bind_eq_some_iff.mp hnext
    cases hnext
    apply log_unchanged
    split <;> rfl
  | sessionDisposed t => exact Option.some.inj hnext ▸ log_unchanged (disposeSession_log t) s

theorem foldSessionTitle_snoc (events : List SessionEvent) (event : SessionEvent) :
    foldSessionTitle (events ++ [event]) = match event with
      | .title data => some data
      | _ => foldSessionTitle events := by
  rw [foldSessionTitle, List.reverse_append]
  cases event <;> rfl

theorem get_appendTitle (data : SessionTitleEventData) : (m.appendTitle s data).get s = some data := by
  show foldSessionTitle (Function.update m.log s (m.log s ++ [.title data]) s) = some data
  rw [Function.update_self, foldSessionTitle_snoc]

theorem get_congr (hlog : m'.log s = m.log s) : m'.get s = m.get s := by rw [get, hlog, get]

theorem supersede_work (st : Nat) : (m.supersede st).work = m.work := by
  unfold supersede
  cases (m.states st).active with
  | none | some w => rfl

theorem supersede_aborted {st w : Nat} (hactive : ((m.supersede st).states st).active = some w) :
    ((m.supersede st).runs w).aborted = true := by
  revert hactive
  unfold supersede
  cases hbefore : (m.states st).active with
  | none => simp [modifyState, hbefore]
  | some v =>
    intro hactive
    have : v = w := by simpa [modifyState, abort, modifyRun, hbefore] using hactive
    subst this
    simp [modifyState, abort, modifyRun]

end SessionTitleService

end CocoHarness.SessionTitle
