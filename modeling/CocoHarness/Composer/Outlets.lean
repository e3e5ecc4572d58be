/-
# CocoHarness.Composer.Outlets — which texts leave the composer with their chips expanded.

Three exits take the draft out: the default sink, a claim's submit and the persistence mirror.  So a text is right
(`Outlet.Right`) in every run that never mirrors a draft with chips, never submits a claim with chips in its args,
and never takes an adjudication miss on a table that has changed since the Enter (`outlets_right`).
-/
import CocoHarness.Composer.Placeholders
import CocoHarness.Composer.SessionInputShell
import Mathlib.Data.List.TakeWhile

namespace CocoHarness.Composer

open Lib Lib.MarkedText List InputMachine
open Lib.Utf16 (Unit16)

/-! ## Trimming and args -/

variable {u : Unit16}

theorem mem_of_mem_trimEnd {s : Text} (h : u ∈ trimEnd s) : u ∈ s := by
  rw [trimEnd, mem_reverse] at h
  exact mem_reverse.mp ((dropWhile_sublist _).mem h)

theorem mem_of_mem_trim {s : Text} (h : u ∈ trim s) : u ∈ s := (dropWhile_sublist _).mem (mem_of_mem_trimEnd h)

variable {draft : Text}

theorem mem_of_mem_argsAfter {token : Text} (h : u ∈ argsAfter draft token) : u ∈ draft := by
  have hstart : ∀ {u : Unit16}, u ∈ trimStart draft → u ∈ draft := fun h => (dropWhile_sublist _).mem h
  unfold argsAfter at h
  dsimp only at h
  split at h
  · exact hstart (mem_of_mem_drop h)
  · split at h
    · split at h
      · cases h
      · next v rest hdrop =>
        have htail : u ∈ v :: rest := by
          split at h
          · exact mem_cons_of_mem _ h
          · exact h
        rw [← hdrop] at htail
        exact hstart (mem_of_mem_drop htail)
    · cases h

/-- Whether a draft has args for the token: it starts with the token, or with its bare name. -/
def takesArgs (draft token : Text) : Bool :=
  token.isPrefixOf (trimStart draft) || (trimEnd token).isPrefixOf (trimStart draft)

theorem argsAfter_of_not_takesArgs {token : Text} (h : takesArgs draft token = false) :
    argsAfter draft token = [] := by
  rw [takesArgs, Bool.or_eq_false_iff] at h
  unfold argsAfter
  dsimp only
  rw [if_neg (by rw [h.1]; exact Bool.false_ne_true), if_neg (by rw [h.2]; exact Bool.false_ne_true)]

theorem notMem_of_trim_eq_nil {s : Text} (h : trim s = []) : placeholder ∉ s := by
  intro hmem
  have hspace : isSpace placeholder = false := by decide
  have hfront : placeholder ∈ trimStart s := by
    rw [trimStart]
    induction s with
    | nil => cases hmem
    | cons u s ih =>
      rw [dropWhile_cons]
      split
      · next hu =>
        rcases mem_cons.mp hmem with rfl | hmem
        · rw [hspace] at hu; cases hu
        · apply ih _ hmem
          rw [trim, trimStart, dropWhile_cons, if_pos hu] at h
          exact h
      · exact hmem
  rw [trim, trimEnd, reverse_eq_nil_iff, dropWhile_eq_nil_iff] at h
  have := h placeholder (mem_reverse.mpr hfront)
  rw [hspace] at this
  cases this

/-! ## What an outlet stands for -/

def SameChips (a b : List Occurrence) : Prop :=
  a.map (fun o => (o.offset, o.source, o.ref)) = b.map fun o => (o.offset, o.source, o.ref)

/-- The text is the draft with each placeholder replaced: for the sink by the forms of the Enter's own occurrences,
for the mirror and the args by the clipboard texts. -/
def Outlet.Right : Outlet → Prop
  | mirror text draft occurrences => placeholder ∉ text ∧ Backed draft occurrences ∧
      text = expand placeholder draft (occurrences.map (·.clipboardText))
  | sink text entry parts => placeholder ∉ text ∧ Backed entry.draft entry.occurrences ∧
      parts.map (fun c => (c.1, c.2.1)) = entry.occurrences.map (fun o => (o.source, o.ref)) ∧
      text = trim (expand placeholder entry.draft (parts.map (·.2.2)))
  | args text entry token => placeholder ∉ text ∧ Backed entry.draft entry.occurrences ∧
      -- the chips of the args are the last ones of the draft
      text = expand placeholder (argsAfter entry.draft token)
        ((entry.occurrences.map (·.clipboardText)).drop
          (entry.occurrences.length - (positions placeholder (argsAfter entry.draft token)).length))

variable {a b : List Occurrence}

theorem SameChips.offsets (h : SameChips a b) : a.map (·.offset) = b.map (·.offset) := by
  have hmap := congrArg (List.map Prod.fst) h
  rwa [map_map, map_map] at hmap

theorem SameChips.references (h : SameChips a b) :
    a.map (fun o => (o.source, o.ref)) = b.map fun o => (o.source, o.ref) := by
  have hmap := congrArg (List.map Prod.snd) h
  rwa [map_map, map_map] at hmap

theorem SameChips.eq_nil (h : SameChips [] b) : b = [] := map_eq_nil_iff.mp h.symm

variable {entry : Entry}

theorem right_sink_plain (hbacked : Backed entry.draft entry.occurrences)
    (hnone : entry.occurrences = []) : (Outlet.sink (trim entry.draft) entry []).Right := by
  have hfree : placeholder ∉ entry.draft := by
    rw [hnone] at hbacked
    exact hbacked.notMem
  refine ⟨fun h => hfree (mem_of_mem_trim h), hbacked, ?_, ?_⟩
  · rw [hnone]
    rfl
  · rw [expand_of_notMem hfree]

theorem right_args {token : Text} (hbacked : Backed entry.draft entry.occurrences)
    (h : takesArgs entry.draft token = true → entry.occurrences = []) :
    (Outlet.args (argsAfter entry.draft token) entry token).Right := by
  have hfree : placeholder ∉ argsAfter entry.draft token := by
    cases htakes : takesArgs entry.draft token with
    | false =>
      rw [argsAfter_of_not_takesArgs htakes]
      exact not_mem_nil
    | true =>
      intro hmem
      rw [h htakes] at hbacked
      exact hbacked.notMem (mem_of_mem_argsAfter hmem)
  exact ⟨hfree, hbacked, (expand_of_notMem hfree _).symm⟩

/-! ## The invariant -/

/-- The drafts are listed by their tables; what waits to be sent, what left, and what would be published is right. -/
structure Sealed (s : SessionInputShell) : Prop where
  placed : Placed s.core
  adjudications : ∀ p ∈ s.adjudications, p.attempt.entry.draft = p.attempt.draftSnapshot ∧
    Backed p.attempt.entry.draft p.attempt.entry.occurrences
  serializations : ∀ p ∈ s.serializations, p.draft = p.entry.draft ∧
    Backed p.entry.draft p.entry.occurrences ∧ SameChips p.occurrences p.entry.occurrences
  sends : ∀ p ∈ s.sends, placeholder ∉ p.text
  outlets : ∀ o ∈ s.outlets, o.Right
  publishes : s.mirror = true → s.core.draft = s.lastDraft ∨ s.core.occurrences = []

def Executable (mounted : Bool) (s : SessionInputShell) : InputEffect → Prop
  | .notice _ _ => True
  | .beginSubmit attempt claim args => (Outlet.args args attempt.entry claim.token).Right
  | .defaultSink draft _ entry => entry.draft = draft ∧ Backed entry.draft entry.occurrences ∧
      SameChips s.core.occurrences entry.occurrences
  | .adjudicate attempt _ => attempt.entry.draft = attempt.draftSnapshot ∧
      Backed attempt.entry.draft attempt.entry.occurrences ∧
      (mounted = false → SameChips s.core.occurrences attempt.entry.occurrences)

namespace SessionInputShell

variable {s : SessionInputShell}

theorem publish_core (s : SessionInputShell) : s.publish.core = s.core := by
  unfold publish
  split <;> rfl

theorem publish_lastDraft (s : SessionInputShell) : s.publish.lastDraft = s.core.draft := by
  unfold publish
  split
  · next h => exact h.symm
  · rfl

theorem sealed_publish (h : Sealed s) : Sealed s.publish := by
  unfold publish
  split
  · exact h
  · next hne =>
    refine { h with outlets := ?_, publishes := fun _ => .inl rfl }
    intro o ho
    rcases mem_append.mp ho with ho | ho
    · exact h.outlets o ho
    · split at ho
      · next hmirror =>
        obtain rfl := mem_singleton.mp ho
        rcases h.publishes hmirror with hsame | hnone
        · exact absurd hsame hne
        · have hfree : placeholder ∉ s.core.draft := by
            have htable := h.placed.table
            rw [hnone] at htable
            exact htable.notMem
          exact ⟨hfree, h.placed.table, (expand_of_notMem hfree _).symm⟩
      · cases ho

theorem sealed_commitSend (h : Sealed s) (imageIds : List Nat) : Sealed (s.commitSend imageIds) := by
  apply sealed_publish
  have hplaced : Placed (s.core.dispatch .sendCommitted).1 := placed_dispatch h.placed trivial
  exact { h with placed := hplaced, publishes := fun _ => .inr rfl }

variable {entry : Entry}

theorem sealed_sink (h : Sealed s) {text : Text} {parts : List (String × String × Text)}
    (hright : (Outlet.sink text entry parts).Right) (imageIds : List Nat) (mode : InputSubmitMode) :
    Sealed (s.sink text imageIds mode entry parts) := by
  have hout : ∀ o ∈ s.outlets ++ [.sink text entry parts], o.Right := by
    intro o ho
    rcases mem_append.mp ho with ho | ho
    · exact h.outlets o ho
    · rw [mem_singleton.mp ho]; exact hright
  unfold sink
  dsimp only
  split
  · exact { h with outlets := hout }
  · have hcommit := @sealed_commitSend { s with
      outlets := s.outlets ++ [.sink text entry parts], handed := s.handed ++ [⟨entry, false⟩] }
      { h with outlets := hout } imageIds
    refine { hcommit with sends := ?_ }
    intro p hp
    rcases mem_append.mp hp with hp | hp
    · exact hcommit.sends p hp
    · rw [mem_singleton.mp hp]; exact hright.1

theorem sealed_sinkSerialized (h : Sealed s) (hbacked : Backed entry.draft entry.occurrences)
    (hsame : SameChips s.core.occurrences entry.occurrences) (mode : InputSubmitMode) (mounted : Bool) :
    Sealed (s.sinkSerialized entry.draft mode entry mounted) := by
  unfold sinkSerialized
  split
  · next hnone =>
    rw [List.isEmpty_iff] at hnone
    rw [hnone] at hsame
    exact sealed_sink h (right_sink_plain hbacked hsame.eq_nil) _ _
  · refine { h with serializations := ?_ }
    intro p hp
    rcases mem_append.mp hp with hp | hp
    · exact h.serializations p hp
    · obtain rfl := mem_singleton.mp hp
      exact ⟨rfl, hbacked, hsame⟩

theorem sealed_executeOther (h : Sealed s) {mounted : Bool} {fx : InputEffect}
    (hfx : Executable mounted s fx) : Sealed (s.executeOther mounted fx) := by
  cases fx with
  | adjudicate attempt draft => exact h
  | notice level text => exact { h with }
  | beginSubmit attempt claim args =>
    refine { h with outlets := ?_ }
    intro o ho
    rcases mem_append.mp ho with ho | ho
    · exact h.outlets o ho
    · rw [mem_singleton.mp ho]; exact hfx
  | defaultSink draft mode entry =>
    obtain ⟨rfl, hbacked, hsame⟩ := hfx
    exact sealed_sinkSerialized h hbacked hsame mode mounted

variable (m : InputMachine)

/-- A missed adjudication hands the Enter's draft to the sink, or is dropped. -/
theorem dispatch_miss (attempt : SubmitAttempt) : (m.dispatch (.adjudicated attempt .miss)).1.draft = m.draft ∧
    (m.dispatch (.adjudicated attempt .miss)).1.occurrences = m.occurrences ∧
    ((m.dispatch (.adjudicated attempt .miss)).2 = [] ∨ (m.dispatch (.adjudicated attempt .miss)).2
        = [.defaultSink attempt.draftSnapshot attempt.mode attempt.entry]) := by
  rw [dispatch]
  dsimp only
  rw [onAdjudicated]
  split
  · exact ⟨rfl, rfl, .inl rfl⟩
  · exact ⟨rfl, rfl, .inr rfl⟩

theorem Sealed.withCore (h : Sealed s) {m : InputMachine} (hplaced : Placed m)
    (hpublishes : s.mirror = true → m.draft = s.lastDraft ∨ m.occurrences = []) :
    Sealed { s with core := m } :=
  { h with placed := hplaced, publishes := hpublishes }

theorem sealed_execute (h : Sealed s) {mounted : Bool} {fx : InputEffect}
    (hfx : Executable mounted s fx) : Sealed (s.execute mounted fx) := by
  cases fx with
  | adjudicate attempt draft =>
    obtain ⟨hdraft, hbacked, hsame⟩ := hfx
    unfold execute
    dsimp only
    split
    · refine { h with adjudications := ?_ }
      intro p hp
      rcases mem_append.mp hp with hp | hp
      · exact h.adjudications p hp
      · obtain rfl := mem_singleton.mp hp
        exact ⟨hdraft, hbacked⟩
    · next hmounted =>
      -- no pipeline: missed on the spot
      obtain ⟨hkept, htable, heffects⟩ := dispatch_miss s.core attempt
      have hnext : Sealed { s with core := (s.core.dispatch (.adjudicated attempt .miss)).1 } := by
        apply Sealed.withCore h (@placed_dispatch _ h.placed (.adjudicated attempt .miss) trivial)
        rw [hkept, htable]
        exact h.publishes
      rw [runAnswered]
      apply sealed_publish
      rcases heffects with heffects | heffects
      · rw [heffects]
        exact hnext
      · rw [heffects, foldl_cons, foldl_nil]
        apply sealed_executeOther hnext
        refine ⟨hdraft, hbacked, ?_⟩
        show SameChips (s.core.dispatch (.adjudicated attempt .miss)).1.occurrences _
        rw [htable]
        exact hsame (by simpa using hmounted)
  | notice level text | beginSubmit attempt claim args | defaultSink draft mode entry =>
    exact @sealed_executeOther _ h mounted _ hfx

theorem sealed_run (h : Sealed s) {mounted : Bool} {next : InputMachine × List InputEffect} (hplaced : Placed next.1)
    (hpublishes : s.mirror = true → next.1.draft = s.lastDraft ∨ next.1.occurrences = [])
    (heffects : next.2 = [] ∨ ∃ fx, next.2 = [fx] ∧ Executable mounted { s with core := next.1 } fx) :
    Sealed (s.run mounted next) := by
  have hnext := Sealed.withCore h hplaced hpublishes
  rw [run]
  apply sealed_publish
  rcases heffects with heffects | ⟨fx, heffects, hfx⟩
  · rw [heffects]
    exact hnext
  · rw [heffects, foldl_cons, foldl_nil]
    exact sealed_execute hnext hfx

/-! ## What the machine's events do to the draft -/

theorem edit_effects {ev : InputEvent} (h : ev.isEdit = true) (m : InputMachine) : (m.dispatch ev).2 = [] := by
  cases ev <;> first | rfl | cases h

theorem dispatch_enter (mode : InputSubmitMode) : (m.dispatch (.enter mode)).1.draft = m.draft ∧
    (m.dispatch (.enter mode)).1.occurrences = m.occurrences ∧
    ((m.dispatch (.enter mode)).2 = [] ∨ (∃ attempt claim, (m.dispatch (.enter mode)).2
          = [.beginSubmit attempt claim (argsAfter m.draft claim.token)] ∧
        m.phase = .claimed ∧ m.claim = some claim ∧ attempt.entry = m.entryNow) ∨
      (∃ attempt, (m.dispatch (.enter mode)).2 = [.adjudicate attempt m.draft] ∧
        attempt.draftSnapshot = m.draft ∧ attempt.entry = m.entryNow) ∨
      (m.dispatch (.enter mode)).2 = [.defaultSink m.draft mode m.entryNow]) := by
  rw [dispatch]
  dsimp only
  rw [onEnter]
  split
  · exact ⟨rfl, rfl, .inl rfl⟩
  · split
    · next claim hclaim =>
      -- a claim is held
      split at hclaim
      · next hphase => exact ⟨rfl, rfl, .inr (.inl ⟨_, claim, rfl, hphase, hclaim, rfl⟩)⟩
      · cases hclaim
    · dsimp only
      split
      · exact ⟨rfl, rfl, .inl rfl⟩
      · split
        · exact ⟨rfl, rfl, .inr (.inr (.inl ⟨_, rfl, rfl, rfl⟩))⟩
        · exact ⟨rfl, rfl, .inr (.inr (.inr rfl))⟩

theorem dispatch_adjudicated (attempt : SubmitAttempt) (outcome : PickOutcome) :
    (m.dispatch (.adjudicated attempt outcome)).1.draft = m.draft ∧
    (m.dispatch (.adjudicated attempt outcome)).1.occurrences = m.occurrences ∧
    ((m.dispatch (.adjudicated attempt outcome)).2 = [] ∨
      (∃ claim, outcome = .claim claim ∧ (m.dispatch (.adjudicated attempt outcome)).2
        = [.beginSubmit attempt claim (argsAfter attempt.draftSnapshot claim.token)]) ∨
      (outcome = .miss ∧ (m.dispatch (.adjudicated attempt outcome)).2
        = [.defaultSink attempt.draftSnapshot attempt.mode attempt.entry])) := by
  rw [dispatch]
  dsimp only
  unfold onAdjudicated
  split
  · exact ⟨rfl, rfl, .inl rfl⟩
  · cases outcome with
    | claim claim => exact ⟨rfl, rfl, .inr (.inl ⟨claim, rfl, rfl⟩)⟩
    | miss => exact ⟨rfl, rfl, .inr (.inr ⟨rfl, rfl⟩)⟩
    | insert reference | text text | handled => exact ⟨rfl, rfl, .inl rfl⟩

/-- A settled submission leaves the draft alone or clears it, and at most surfaces a notice. -/
theorem dispatch_submitSettled (attempt : SubmitAttempt) (ok : Bool)
    (outcome : Option SubmitOutcome) (message : Option Text) :
    ((m.dispatch (.submitSettled attempt ok outcome message)).1.draft = m.draft ∨
      (m.dispatch (.submitSettled attempt ok outcome message)).1.occurrences = []) ∧
    ((m.dispatch (.submitSettled attempt ok outcome message)).2 = [] ∨
      ∃ level text, (m.dispatch (.submitSettled attempt ok outcome message)).2 = [.notice level text]) := by
  rw [dispatch]
  dsimp only
  rw [onSubmitSettled]
  split
  · exact ⟨.inl rfl, .inl rfl⟩
  · split
    · exact ⟨.inl rfl, .inl rfl⟩
    · dsimp only
      split
      · split
        · exact ⟨.inr rfl, .inr ⟨_, _, rfl⟩⟩
        · exact ⟨.inr rfl, .inl rfl⟩
      · split <;> exact ⟨.inl rfl, .inr ⟨_, _, rfl⟩⟩

theorem dispatch_adjudicationFailed (attempt : SubmitAttempt) (message : Text) :
    (m.dispatch (.adjudicationFailed attempt message)).1.draft = m.draft ∧
    ((m.dispatch (.adjudicationFailed attempt message)).2 = [] ∨
      (m.dispatch (.adjudicationFailed attempt message)).2 = [.notice .error message]) := by
  rw [dispatch]
  dsimp only
  rw [onAdjudicationFailed]
  split
  · exact ⟨rfl, .inl rfl⟩
  · exact ⟨rfl, .inr rfl⟩

theorem dispatch_release_draft : (m.dispatch .release).1.draft = m.draft := by
  rw [dispatch]
  dsimp only
  rw [onRelease]
  split <;> rfl

theorem onDraftChanged_draft (draft : Text) (editRange : Option EditRange) (time : Nat) :
    (m.onDraftChanged draft editRange time).draft = draft := by
  unfold onDraftChanged
  split
  · next h => exact h.symm
  · exact watchClaim_draft _

/-! ## The conditions on a run -/

end SessionInputShell

/-- Nothing from outside brings a placeholder: no edit, no command token, no serialized form. -/
def NoForeign (s : SessionInputShell) : ShellAction → Prop
  | .edit ev => Plain s.core ev
  | .serialized _ forms => ∀ form ∈ forms, placeholder ∉ form
  | _ => True

def ExpandsChips (s : SessionInputShell) : ShellAction → Prop
  | .edit ev => s.mirror = true → (s.core.dispatch ev).1.draft = s.core.draft ∨ (s.core.dispatch ev).1.occurrences = []
  | .submit _ _ => s.core.phase = .claimed → ∀ claim, s.core.claim = some claim →
      takesArgs s.core.draft claim.token = true → s.core.occurrences = []
  | .adjudicated i outcome _ => ∀ p, s.adjudications[i]? = some p → s.dead p.attempt = false →
      (∀ claim, outcome = .claim claim → takesArgs p.attempt.draftSnapshot claim.token = true →
        p.attempt.entry.occurrences = []) ∧
      (outcome = .miss → SameChips s.core.occurrences p.attempt.entry.occurrences)
  | _ => True

namespace SessionInputShell

variable {s s' : SessionInputShell}

/-- The state between two actions: everything is sealed, and the draft is published. -/
structure AtRest (s : SessionInputShell) : Prop where
  sealed : Sealed s
  published : s.core.draft = s.lastDraft

theorem atRest_publish (h : Sealed s) : AtRest s.publish :=
  ⟨sealed_publish h, by rw [publish_core, publish_lastDraft]⟩

variable {mounted : Bool}

theorem atRest_run (h : AtRest s) {next : InputMachine × List InputEffect} (hplaced : Placed next.1)
    (hpublishes : s.mirror = true → next.1.draft = s.core.draft ∨ next.1.occurrences = [])
    (heffects : next.2 = [] ∨ ∃ fx, next.2 = [fx] ∧ Executable mounted { s with core := next.1 } fx) :
    AtRest (s.run mounted next) := by
  refine ⟨?_, by rw [run, publish_core, publish_lastDraft]⟩
  apply sealed_run h.sealed hplaced _ heffects
  rw [← h.published]
  exact hpublishes

theorem atRest_sink (h : AtRest s) {text : Text} {entry : Entry} {parts : List (String × String × Text)}
    (hright : (Outlet.sink text entry parts).Right) (imageIds : List Nat) (mode : InputSubmitMode) :
    AtRest (s.sink text imageIds mode entry parts) := by
  refine ⟨sealed_sink h.sealed hright imageIds mode, ?_⟩
  unfold sink
  dsimp only
  split
  · exact h.published
  · rw [completed]
    dsimp only
    rw [commitSend, publish_core, publish_lastDraft]

theorem atRest_submit (h : AtRest s) {mode : InputSubmitMode}
    (hchips : ExpandsChips s (.submit mode mounted)) : AtRest (s.submit mode mounted) := by
  have htable := h.sealed.placed.table
  unfold submit
  split
  · next hblank =>
    split
    · -- images only: the draft is blank
      have hfree := notMem_of_trim_eq_nil hblank.1
      have hnone := htable.eq_nil hfree
      apply atRest_sink h
      refine ⟨not_mem_nil, htable, ?_, ?_⟩
      · show [] = s.core.occurrences.map _
        rw [hnone]
        rfl
      · show [] = trim (expand placeholder s.core.draft _)
        rw [expand_of_notMem hfree, hblank.1]
    · exact h
  · obtain ⟨hdraft, hocc, heffects⟩ := dispatch_enter s.core mode
    apply atRest_run h (@placed_dispatch _ h.sealed.placed (.enter mode) trivial) fun _ => .inl hdraft
    rcases heffects with heffects | ⟨attempt, claim, heffects, hphase, hclaim, hentry⟩ |
      ⟨attempt, heffects, hsnapshot, hentry⟩ | heffects
    · exact .inl heffects
    · refine .inr ⟨_, heffects, ?_⟩
      show (Outlet.args _ attempt.entry _).Right
      rw [hentry]
      exact @right_args s.core.entryNow claim.token htable (hchips hphase claim hclaim)
    · refine .inr ⟨_, heffects, ?_, ?_, fun _ => ?_⟩
      · rw [hentry, hsnapshot]
        rfl
      · rw [hentry]
        exact htable
      · show SameChips (s.core.dispatch (.enter mode)).1.occurrences _
        rw [hocc, hentry]
        exact rfl
    · refine .inr ⟨_, heffects, rfl, htable, ?_⟩
      show SameChips (s.core.dispatch (.enter mode)).1.occurrences _
      rw [hocc]
      exact rfl

theorem atRest_edit (h : AtRest s) {ev : InputEvent} (hedit : ev.isEdit = true) (hplain : Plain s.core ev)
    (hchips : ExpandsChips s (.edit ev)) : AtRest (s.run true (s.core.dispatch ev)) := by
  apply atRest_run h (placed_dispatch h.sealed.placed hplain) hchips
  exact .inl (edit_effects hedit s.core)

/-- **A serialization splices the forms of its own occurrences.** -/
theorem atRest_onSerialized (h : AtRest s) {p : Serialization} {forms : List Text}
    (hp : p.draft = p.entry.draft ∧ Backed p.entry.draft p.entry.occurrences ∧
      SameChips p.occurrences p.entry.occurrences) (hlength : forms.length = p.occurrences.length)
    (hforms : ∀ form ∈ forms, placeholder ∉ form) : AtRest (s.onSerialized p forms) := by
  obtain ⟨hdraft, hbacked, hsame⟩ := hp
  unfold onSerialized
  split
  · exact h
  · apply atRest_sink h
    have hcount : forms.length = p.entry.occurrences.length := by
      have hlen := congrArg List.length hsame.offsets
      rw [length_map, length_map] at hlen
      rw [hlength, hlen]
    have hparts : ((p.occurrences.zip forms).map fun c => (c.1.source, c.1.ref, c.2)).map (·.2.2) = forms := by
      rw [map_map]
      exact map_snd_zip (by omega)
    have hexpand : substitute p.draft 0 ((p.occurrences.map (·.offset)).zip forms)
        = expand placeholder p.entry.draft forms := by
      rw [hsame.offsets, hdraft]
      exact hbacked.substitute hcount
    refine ⟨?_, hbacked, ?_, ?_⟩
    · rw [hexpand]
      exact fun hmem => notMem_expand hforms (mem_of_mem_trim hmem)
    · rw [← hsame.references, map_map]
      have hfirst : (fun c : String × String × Text => (c.1, c.2.1)) ∘
          (fun c : Occurrence × Text => (c.1.source, c.1.ref, c.2))
            = (fun o : Occurrence => (o.source, o.ref)) ∘ Prod.fst := rfl
      rw [hfirst, ← map_map, map_fst_zip (by omega)]
    · rw [hparts, hexpand]

theorem atRest_adjudicated (h : AtRest s) {p : Adjudication} {outcome : PickOutcome}
    (hp : p.attempt.entry.draft = p.attempt.draftSnapshot ∧ Backed p.attempt.entry.draft p.attempt.entry.occurrences)
    (hclaims : ∀ claim, outcome = .claim claim → takesArgs p.attempt.draftSnapshot claim.token = true →
      p.attempt.entry.occurrences = [])
    (hmiss : outcome = .miss → SameChips s.core.occurrences p.attempt.entry.occurrences) :
    AtRest (s.run mounted (s.core.dispatch (.adjudicated p.attempt outcome))) := by
  obtain ⟨hdraft, hocc, heffects⟩ := dispatch_adjudicated s.core p.attempt outcome
  apply atRest_run h (@placed_dispatch _ h.sealed.placed (.adjudicated p.attempt outcome) trivial)
    fun _ => .inl hdraft
  rcases heffects with heffects | ⟨claim, houtcome, heffects⟩ | ⟨houtcome, heffects⟩
  · exact .inl heffects
  · refine .inr ⟨_, heffects, ?_⟩
    show (Outlet.args _ p.attempt.entry _).Right
    rw [← hp.1]
    apply right_args hp.2
    rw [hp.1]
    exact hclaims claim houtcome
  · refine .inr ⟨_, heffects, hp.1, hp.2, ?_⟩
    show SameChips (s.core.dispatch (.adjudicated p.attempt outcome)).1.occurrences _
    rw [hocc]
    exact hmiss houtcome

theorem atRest_failHandOver (h : AtRest s) (enter : Nat) : AtRest (s.failHandOver enter) :=
  ⟨{ h.sealed with }, h.published⟩

theorem atRest_settle (h : AtRest s) (attempt : SubmitAttempt) (ok : Bool) (outcome : Option SubmitOutcome)
    (message : Option Text) :
    AtRest (s.run true (s.core.dispatch (.submitSettled attempt ok outcome message))) := by
  obtain ⟨hdraft, heffects⟩ := dispatch_submitSettled s.core attempt ok outcome message
  apply atRest_run h
    (@placed_dispatch _ h.sealed.placed (.submitSettled attempt ok outcome message) trivial) fun _ => hdraft
  rcases heffects with heffects | ⟨level, text, heffects⟩
  · exact .inl heffects
  · exact .inr ⟨_, heffects, trivial⟩

theorem atRest_onSettled (h : AtRest s) (p : Submission) (result : Except Text SubmitOutcome) :
    AtRest (s.onSettled p result) := by
  have hanswered : AtRest (s.answerHandOver p.attempt.entry.enter result) := by
    unfold answerHandOver
    split
    · exact h
    · exact atRest_failHandOver h _
    · exact atRest_failHandOver h _
  unfold onSettled
  dsimp only
  generalize s.answerHandOver p.attempt.entry.enter result = t at hanswered ⊢
  split
  · exact hanswered
  · cases result with
    | error message => exact atRest_settle hanswered _ _ _ _
    | ok outcome =>
      dsimp only
      have hsettled := atRest_settle hanswered p.attempt (decide (outcome.kind = .success)) (some outcome) none
      split
      · exact ⟨{ hsettled.sealed with }, hsettled.published⟩
      · exact hsettled

/-- **A failed prompt puts back a text without placeholders.** -/
theorem atRest_onSendFailed (h : AtRest s) {p : Send} (hp : placeholder ∉ p.text) (time : Nat) :
    AtRest (s.onSendFailed p time) := by
  unfold onSendFailed
  dsimp only
  split
  · exact atRest_failHandOver h _
  · have hfailed := (atRest_failHandOver h p.entry.enter).sealed
    have hrestored : Sealed ((s.failHandOver p.entry.enter).restoreImages p.imageIds) := by
      apply sealed_publish
      exact { hfailed with }
    have hdraft : ((s.failHandOver p.entry.enter).restoreImages p.imageIds).core = s.core := by
      rw [restoreImages, publish_core]
      rfl
    split
    · next hempty =>
      rw [hdraft] at hempty ⊢
      have hplain : Plain s.core (.draftChanged p.text none time) := by
        refine ⟨[], [], [], p.text, hempty, ?_, hp, .inl rfl⟩
        rw [nil_append, append_nil]
      have hplaced := placed_dispatch h.sealed.placed hplain
      have htext : (s.core.dispatch (.draftChanged p.text none time)).1.draft = p.text :=
        onDraftChanged_draft _ _ _ _
      apply atRest_publish
      apply Sealed.withCore hrestored
      · exact ⟨hplaced.table, hplaced.log, hplaced.redo⟩
      · intro _
        refine .inr (hplaced.table.eq_nil ?_)
        rw [htext]
        exact hp
    · refine ⟨hrestored, ?_⟩
      rw [restoreImages, publish_core, publish_lastDraft]

theorem atRest_withImages (h : AtRest s) (imageIds : List Nat) : AtRest (publish { s with imageIds }) :=
  atRest_publish { h.sealed with }

/-- **Every action keeps the outlets right** when it meets the conditions. -/
theorem atRest_step {a : ShellAction} (h : AtRest s) (hforeign : NoForeign s a) (hchips : ExpandsChips s a)
    (hstep : s.step a = some s') : AtRest s' := by
  cases a with
  | edit ev =>
    rw [step] at hstep
    split at hstep
    · next henabled =>
      cases hstep
      rw [Bool.and_eq_true] at henabled
      exact atRest_edit h henabled.1 hforeign hchips
    · cases hstep
  | submit mode mounted =>
    rw [step] at hstep
    split at hstep
    · cases hstep
    · cases hstep
      exact atRest_submit h hchips
  | addImages ids =>
    rw [step] at hstep
    split at hstep
    · cases hstep
    · cases hstep
      unfold addImages
      split
      · exact h
      · split
        · exact h
        · exact atRest_withImages h _
  | removeImage id | pruneImages available =>
    rw [step] at hstep
    split at hstep
    · cases hstep
    · cases hstep
      exact atRest_withImages h _
  | bindMirror =>
    cases hstep
    exact ⟨{ h.sealed with publishes := fun _ => .inl h.published }, h.published⟩
  | unbindMirror =>
    cases hstep
    exact ⟨{ h.sealed with publishes := nofun }, h.published⟩
  | dispose =>
    rw [step] at hstep
    split at hstep
    · cases hstep
    · cases hstep
      have hdisposed : AtRest { s with disposed := true } := ⟨{ h.sealed with }, h.published⟩
      apply atRest_run hdisposed (@placed_dispatch _ h.sealed.placed .release trivial)
      · exact fun _ => .inl (dispatch_release_draft s.core)
      · exact .inl rfl
  | serialized i forms =>
    rw [step] at hstep
    split at hstep
    · cases hstep
    · next p hp =>
      split at hstep
      · next henabled =>
        cases hstep
        rw [Bool.and_eq_true, beq_iff_eq] at henabled
        have hrest : AtRest { s with serializations := s.serializations.eraseIdx i } :=
          ⟨{ h.sealed with serializations := fun q hq => h.sealed.serializations q (mem_of_mem_eraseIdx hq) }, h.published⟩
        exact atRest_onSerialized hrest (h.sealed.serializations p (mem_of_getElem? hp)) henabled.2
          hforeign
      · cases hstep
  | serializeFailed i message =>
    rw [step] at hstep
    split at hstep
    · cases hstep
      have hrest : AtRest { s with serializations := s.serializations.eraseIdx i } :=
        ⟨{ h.sealed with serializations := fun q hq => h.sealed.serializations q (mem_of_mem_eraseIdx hq) }, h.published⟩
      split
      · exact hrest
      · exact ⟨{ hrest.sealed with }, hrest.published⟩
    · cases hstep
  | adjudicated i outcome mounted =>
    rw [step] at hstep
    split at hstep
    · cases hstep
    · next p hp =>
      cases hstep
      have hrest : AtRest { s with adjudications := s.adjudications.eraseIdx i } :=
        ⟨{ h.sealed with adjudications := fun q hq => h.sealed.adjudications q (mem_of_mem_eraseIdx hq) }, h.published⟩
      split
      · exact hrest
      · next hdead =>
        obtain ⟨hclaims, hmiss⟩ := hchips p hp (by simpa [dead] using hdead)
        exact atRest_adjudicated hrest (h.sealed.adjudications p (mem_of_getElem? hp)) hclaims hmiss
  | adjudicationFailed i message =>
    rw [step] at hstep
    split at hstep
    · cases hstep
    · next p hp =>
      cases hstep
      have hrest : AtRest { s with adjudications := s.adjudications.eraseIdx i } :=
        ⟨{ h.sealed with adjudications := fun q hq => h.sealed.adjudications q (mem_of_mem_eraseIdx hq) }, h.published⟩
      split
      · exact hrest
      · obtain ⟨hdraft, heffects⟩ := dispatch_adjudicationFailed s.core p.attempt message
        apply atRest_run hrest
          (@placed_dispatch _ h.sealed.placed (.adjudicationFailed p.attempt message) trivial)
        · exact fun _ => .inl hdraft
        · rcases heffects with heffects | heffects
          · exact .inl heffects
          · exact .inr ⟨_, heffects, trivial⟩
  | settled i result =>
    rw [step] at hstep
    split at hstep
    · cases hstep
    · cases hstep
      apply atRest_onSettled
      exact ⟨{ h.sealed with }, h.published⟩
  | sent i =>
    rw [step] at hstep
    split at hstep
    · cases hstep
      exact ⟨{ h.sealed with sends := fun q hq => h.sealed.sends q (mem_of_mem_eraseIdx hq) },
        h.published⟩
    · cases hstep
  | sendFailed i time =>
    rw [step] at hstep
    split at hstep
    · cases hstep
    · next p hp =>
      cases hstep
      have hrest : AtRest { s with sends := s.sends.eraseIdx i } :=
        ⟨{ h.sealed with sends := fun q hq => h.sealed.sends q (mem_of_mem_eraseIdx hq) }, h.published⟩
      exact atRest_onSendFailed hrest (h.sealed.sends p (mem_of_getElem? hp)) time

/-! ## The runs -/

theorem atRest_init : AtRest {} := by
  apply AtRest.mk _ rfl
  exact ⟨⟨rfl, nofun, nofun⟩, nofun, nofun, nofun, nofun, nofun⟩

/-- **Every text that leaves is right**, where exits without expansion meet no chip. -/
theorem outlets_right {as : List ShellAction} (hrun : Machine.exec step {} as = some s')
    (halong : Machine.Along step (fun s a => NoForeign s a ∧ ExpandsChips s a) {} as) :
    ∀ o ∈ s'.outlets, o.Right := by
  have hrest : AtRest s' := by
    apply Machine.exec_invariant_along _ atRest_init hrun halong
    intro s a s' hs hmeets hstep
    exact atRest_step hs hmeets.1 hmeets.2 hstep
  exact hrest.sealed.outlets

def chipSent : List ShellAction :=
  [.edit (.insertRef ⟨"file", "a", [97], [64, 97]⟩ ⟨0, 0, 0⟩), .submit .queue true, .serialized 0 [[91, 97, 93]]]

theorem outlets_right_chipSent : (Machine.exec step {} chipSent).map (·.outlets) =
      some [.sink [91, 97, 93] ⟨1, [placeholder, 32], [.typed 0, .typed 0],
        [⟨1, "file", "a", 0, [97], [64, 97], false⟩]⟩ [("file", "a", [91, 97, 93])]] ∧
      ∀ s' ∈ Machine.exec step {} chipSent, ∀ o ∈ s'.outlets, o.Right := by
  refine ⟨by decide +kernel, fun s' hs' => ?_⟩
  apply outlets_right (Option.mem_def.mp hs')
  refine ⟨⟨trivial, nofun⟩, ⟨trivial, nofun⟩, ⟨?_, trivial⟩, trivial⟩
  intro form hform
  obtain rfl := mem_singleton.mp hform
  decide

/-- A mirror bound while a chip is inserted receives its placeholder. -/
theorem not_outlets_right : ¬ ∀ (as : List ShellAction) (s' : SessionInputShell),
    Machine.exec step {} as = some s' → Machine.Along step NoForeign {} as → ∀ o ∈ s'.outlets, o.Right := by
  intro h
  have hright := h [.bindMirror, .edit (.insertRef ⟨"file", "a", [97], [64, 97]⟩ ⟨0, 0, 0⟩)] _ rfl
    ⟨trivial, trivial, trivial⟩ (.mirror [placeholder, 32] [placeholder, 32] [⟨1, "file", "a", 0, [97], [64, 97], false⟩])
    (by decide +kernel)
  exact hright.1 (mem_cons_self ..)

end SessionInputShell

end CocoHarness.Composer
