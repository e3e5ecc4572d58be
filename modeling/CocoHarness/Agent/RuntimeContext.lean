/-
# CocoHarness.Agent.RuntimeContext — the last runtime-context snapshot a session still shows.

The projection remembers the newest of its own messages, so that the next update is sent only when the rendered
context differs.  Built from a stored log it scans backwards for the newest of its messages that is still on the
surface; live, it forgets the newest one as soon as a replacement cites it.
-/
import CocoHarness.SessionLog.LogGrowth
import CocoHarness.SessionLog.TypedEvent

namespace CocoHarness.Agent.RuntimeContext

open Lib SessionLog List
open SessionLog.SessionEvent (intField)

/-! ## Reading messages -/

def source : String := "@coco-harness/cch-system-prompt"

def cleared : String := "Current runtime context: none. Earlier runtime-context snapshots no longer apply."

/-- Whether the message comes from the projection; what is no user message is not its own. -/
def isOwned (message : Json) : Bool :=
  let from? := field? (some message) "source"
  field? from? "kind" == some (.str "plugin") && field? from? "plugin" == some (.str source)

def textOf (message : Json) : Option String :=
  match field? (some message) "content" with
  | some (.arr [block]) =>
    if field? (some block) "type" == some (.str "text") then stringField? (some block) "text" else none
  | _ => none

def ownedMessage (event : SessionEvent) : Bool := event.type == "user/message" && isOwned event.data

def isReplacementSurfaceEvent (event : SessionEvent) : Bool :=
  isSurfaceEvent event && event.surfaceOp != some (.str "append")

def cites (event : SessionEvent) (seq : Int) : Bool :=
  (event.sourceEventSeqs.bind Json.arr?).any (·.contains (intField seq))

/-! ## The projection -/

/-- `undefined` means that no snapshot ever existed, `null` that none is retained. -/
inductive Retained where
  | undefined
  | null
  | snapshot (seq : Int) (text : Option String)
  deriving DecidableEq

def restoreLoop (surface : List Int) : Retained → List SessionEvent → Retained
  | retained, [] => retained
  | retained, event :: rest =>
    if ownedMessage event then
      if event.seq ∈ surface then .snapshot event.seq (textOf event.data)
      else restoreLoop surface (if retained = .undefined then .null else retained) rest
    else restoreLoop surface retained rest

def restore (surface : List Int) (events : List SessionEvent) : Retained :=
  restoreLoop surface .undefined events.reverse

def onEvent (retained : Retained) (event : SessionEvent) : Retained :=
  if ownedMessage event then .snapshot event.seq (textOf event.data)
  else
    match retained with
    | .snapshot seq text => if isReplacementSurfaceEvent event && cites event seq then .null else .snapshot seq text
    | retained => retained

def follow (events : List SessionEvent) : Retained := events.foldl onEvent .undefined

structure ContextSnapshotSection where
  name : String
  text : String
  deriving DecidableEq

/-- The candidate message; its sections are given only when there are some. -/
structure ContextMessage where
  text : String
  sections : Option (List ContextSnapshotSection)
  deriving DecidableEq

def Retained.text : Retained → Option String
  | .snapshot _ text => text
  | _ => none

def project (retained : Retained) (current : String) (sections : List ContextSnapshotSection) :
    Option ContextMessage :=
  if retained = .undefined ∧ current = "" then none
  else
    let snapshot := if current = "" then cleared else current
    if retained.text = some snapshot then none
    else some { text := snapshot, sections := if sections = [] then none else some sections }

def construct (s : Session) : Session × Except JsError Retained :=
  match s.surface with
  | (s, .error e) => (s, .error e)
  | (s, .ok (nodes, _)) =>
    let (s, log) := s.events
    (s, .ok (restore nodes (eventsOf log)))

/-! ## The newest message of the projection -/

/-- A list without a member of some kind, or the last such member and what comes after it. -/
theorem none_or_last (p : SessionEvent → Bool) (events : List SessionEvent) : (∀ e ∈ events, p e = false) ∨
      ∃ before e after, events = before ++ e :: after ∧ p e = true ∧ ∀ x ∈ after, p x = false := by
  induction events with
  | nil => exact .inl nofun
  | cons e events ih =>
    rcases ih with hnone | ⟨before, m, after, rfl, hm, hafter⟩
    · cases he : p e with
      | true => exact .inr ⟨[], e, events, rfl, he, hnone⟩
      | false =>
        refine .inl fun x hx => ?_
        rcases mem_cons.mp hx with rfl | hx
        · exact he
        · exact hnone x hx
    · exact .inr ⟨e :: before, m, after, rfl, hm, hafter⟩

variable {surface : List Int} {events : List SessionEvent}

theorem restoreLoop_skip (h : ∀ e ∈ events, ownedMessage e = false) (retained : Retained) (rest : List SessionEvent) :
    restoreLoop surface retained (events ++ rest) = restoreLoop surface retained rest := by
  induction events with
  | nil => rfl
  | cons e events ih =>
    rw [cons_append, restoreLoop, h e (mem_cons_self ..)]
    exact ih fun x hx => h x (mem_cons_of_mem _ hx)

/-- After a message, the scan ends without a snapshot exactly when none is on the surface. -/
theorem restoreLoop_null_iff (events : List SessionEvent) : restoreLoop surface .null events = .null ↔
      ∀ e ∈ events, ownedMessage e = true → e.seq ∉ surface := by
  induction events with
  | nil => simp [restoreLoop]
  | cons e events ih =>
    rw [restoreLoop]
    cases he : ownedMessage e with
    | false => simp [ih, he]
    | true =>
      by_cases hmem : e.seq ∈ surface
      · simp [hmem, he]
      · simp [hmem, ih]

variable {before after : List SessionEvent} {m : SessionEvent}

theorem restore_split (hm : ownedMessage m = true) (hafter : ∀ x ∈ after, ownedMessage x = false) :
    restore surface (before ++ m :: after) =
      if m.seq ∈ surface then .snapshot m.seq (textOf m.data)
      else restoreLoop surface .null before.reverse := by
  have hskip : ∀ x ∈ after.reverse, ownedMessage x = false := fun x hx => hafter x (mem_reverse.mp hx)
  rw [restore, reverse_append, reverse_cons, append_assoc, restoreLoop_skip hskip,
    singleton_append, restoreLoop, if_pos hm]
  rfl

variable {e : SessionEvent}

theorem onEvent_owned (h : ownedMessage e = true) (retained : Retained) :
    onEvent retained e = .snapshot e.seq (textOf e.data) := by
  unfold onEvent
  exact if_pos h

theorem onEvent_snapshot (h : ownedMessage e = false) (seq : Int) (text : Option String) :
    onEvent (.snapshot seq text) e =
      if isReplacementSurfaceEvent e && cites e seq then .null else .snapshot seq text := by
  unfold onEvent
  exact if_neg (by rw [h]; exact Bool.false_ne_true)

theorem foldl_onEvent_of_quiet (h : ∀ e ∈ events, ownedMessage e = false) {retained : Retained}
    (hretained : ∀ seq text, retained ≠ .snapshot seq text) :
    events.foldl onEvent retained = retained := by
  induction events with
  | nil => rfl
  | cons e events ih =>
    have hstep : onEvent retained e = retained := by
      unfold onEvent
      rw [h e (mem_cons_self ..)]
      cases retained with
      | undefined | null => rfl
      | snapshot seq text => exact absurd rfl (hretained seq text)
    rw [foldl_cons, hstep]
    exact ih fun x hx => h x (mem_cons_of_mem _ hx)

def citedBy (events : List SessionEvent) (seq : Int) : Bool :=
  events.any fun e => isReplacementSurfaceEvent e && cites e seq

theorem foldl_onEvent_snapshot (h : ∀ e ∈ events, ownedMessage e = false) (seq : Int) (text : Option String) :
    events.foldl onEvent (.snapshot seq text) =
      if citedBy events seq then .null else .snapshot seq text := by
  induction events with
  | nil => rfl
  | cons e events ih =>
    have hlater : ∀ x ∈ events, ownedMessage x = false := fun x hx => h x (mem_cons_of_mem _ hx)
    rw [foldl_cons, onEvent_snapshot (h e (mem_cons_self ..)), citedBy, any_cons]
    cases hcited : isReplacementSurfaceEvent e && cites e seq with
    | true =>
      show events.foldl onEvent .null = .null
      exact foldl_onEvent_of_quiet hlater nofun
    | false => exact ih hlater

theorem follow_split (hm : ownedMessage m = true) (hafter : ∀ x ∈ after, ownedMessage x = false) :
    follow (before ++ m :: after) =
      if citedBy after m.seq then .null else .snapshot m.seq (textOf m.data) := by
  rw [follow, foldl_append, foldl_cons, onEvent_owned hm]
  exact foldl_onEvent_snapshot hafter m.seq _

/-! ## What leaves the surface is cited -/

theorem exists_of_mem_mapM {f : Json → Option Int} {items : List Json} {values : List Int}
    (h : items.mapM f = some values) {value : Int} (hvalue : value ∈ values) :
    ∃ item ∈ items, f item = some value := by
  induction items generalizing values with
  | nil =>
    rw [mapM_nil] at h
    cases h
    cases hvalue
  | cons item items ih =>
    rw [mapM_cons] at h
    obtain ⟨first, hfirst, h⟩ := Option.bind_eq_some_iff.mp h
    obtain ⟨rest, hrest, h⟩ := Option.bind_eq_some_iff.mp h
    cases h
    rcases mem_cons.mp hvalue with rfl | hvalue
    · exact ⟨item, mem_cons_self .., hfirst⟩
    · obtain ⟨x, hx, hfx⟩ := ih hrest hvalue
      exact ⟨x, mem_cons_of_mem _ hx, hfx⟩

variable {event : SessionEvent}

theorem cites_of_citedSources {sources : List Int}
    (h : citedSources event = .ok sources) {seq : Int} (hseq : seq ∈ sources) : cites event seq = true := by
  unfold citedSources at h
  split at h
  · cases h
    cases hseq
  · next raw hraw =>
    split at h
    · cases h
    · next items hitems =>
      split at h
      · cases h
      · split at h
        · cases h
        · next found hfound =>
          split at h
          · cases h
          · split at h
            · cases h
            · cases h
              rw [cites, hraw, Option.bind_some, hitems, Option.any_some, contains_iff_mem]
              obtain ⟨item, hitem, hvalue⟩ := exists_of_mem_mapM hfound hseq
              rw [eventSeq?, Option.filter_eq_some_iff, SessionEvent.safeInt?_eq_some_iff] at hvalue
              rw [← hvalue.1.1]
              exact hitem

theorem isReplacementSurfaceEvent_of_op {start stop : Int}
    (h : surfaceOpOf event = .ok (some (.replace start stop))) : isReplacementSurfaceEvent event = true := by
  rw [isReplacementSurfaceEvent, surfaceOpOf_some h, Bool.true_and]
  unfold surfaceOpOf at h
  split at h
  · split at h
    · cases h
    · split at h <;> cases h
  · rw [bne_iff_ne]
    intro happend
    rw [happend] at h
    cases h

variable {state : SurfaceFoldState}

theorem replacement_cited {n : Int} {base : Int} {plan : Option SurfacePlan}
    (h : planSurfaceEvent state e n events base = .ok plan) {r : SurfaceFoldReplacement}
    (hr : r ∈ (applySurfacePlan state plan).2.toList) :
    e.seq = r.seq ∧ isReplacementSurfaceEvent e = true ∧ ∀ seq ∈ r.shadowedSeqs, cites e seq = true := by
  unfold planSurfaceEvent at h
  split at h
  · cases h
  simp only [bind_eq_ok_iff] at h
  obtain ⟨op, hop, h⟩ := h
  split at h
  · cases h
    cases hr
  · simp only [bind_eq_ok_iff, pure_eq_ok, Except.ok.injEq] at h
    obtain ⟨_, -, rfl⟩ := h
    cases hr
  · simp only [bind_eq_ok_iff, pure_eq_ok, Except.ok.injEq] at h
    obtain ⟨range, -, _, hprovenance, _, -, rfl⟩ := h
    cases Option.mem_toList.mp hr
    refine ⟨rfl, isReplacementSurfaceEvent_of_op hop, fun seq hseq => ?_⟩
    -- the provenance check let every shadowed seq pass
    simp only [assertProvenance, bind_eq_ok_iff] at hprovenance
    obtain ⟨sources, hsources, hmissing⟩ := hprovenance
    split at hmissing
    · next hnone =>
      apply cites_of_citedSources hsources
      by_contra hnot
      have hfilter : seq ∈ range.shadowedSeqs.filter (· ∉ sources) := mem_filter.mpr ⟨hseq, decide_eq_true hnot⟩
      rw [hnone] at hfilter
      cases hfilter
    · cases hmissing

variable {rs : List SurfaceFoldReplacement}

theorem surfaceAfter_seqs_strict (h : surfaceAfter events = .ok (state, rs)) :
    (events.map (·.seq)).Pairwise (· < ·) := by
  rw [surfaceAfter_seqs h, pairwise_map]
  exact pairwise_lt_range.imp fun hlt => Int.ofNat_lt.mpr hlt

/-- What replacements took from the surface is cited by a later event. -/
theorem surfaceAfter_cited (h : surfaceAfter events = .ok (state, rs)) :
    ∀ r ∈ rs, ∃ e ∈ events, e.seq = r.seq ∧ isReplacementSurfaceEvent e = true ∧
      ∀ seq ∈ r.shadowedSeqs, cites e seq = true := by
  induction events using List.reverseRecOn generalizing state rs with
  | nil =>
    cases h
    exact nofun
  | append_singleton events e ih =>
    obtain ⟨before, rs, plan, hbefore, hplan, -, rfl⟩ := surfaceAfter_snoc_ok h
    intro r hr
    rcases mem_append.mp hr with hr | hr
    · obtain ⟨x, hx, hfacts⟩ := ih hbefore r hr
      exact ⟨x, mem_append_left _ hx, hfacts⟩
    · refine ⟨e, mem_append_right _ (mem_singleton_self e), ?_⟩
      exact replacement_cited hplan hr

/-- **What is missing was cited** by a replacement after it. -/
theorem citedBy_of_not_mem (h : surfaceAfter (before ++ m :: after) = .ok (state, rs))
    (hm : isSurfaceEvent m = true) (hgone : m.seq ∉ state.nodes) : citedBy after m.seq = true := by
  have hmem : m ∈ before ++ m :: after := mem_append_right _ (mem_cons_self ..)
  rcases surfaceAfter_accounted h hmem hm with ⟨hcount, -⟩ | ⟨-, r, hr, hshadowed, hlater⟩
  · exact absurd (count_pos_iff.mp (by omega)) hgone
  · have hrs : r ∈ rs := (mem_filter.mp (hr ▸ mem_singleton_self r)).1
    obtain ⟨e, he, hseq, hreplaces, hcites⟩ := surfaceAfter_cited h r hrs
    have hafter : e ∈ after := by
      have hnumbers := surfaceAfter_seqs_strict h
      rw [map_append, map_cons, pairwise_append] at hnumbers
      rcases mem_append.mp he with he | he
      · have := hnumbers.2.2 e.seq (mem_map_of_mem he) m.seq (mem_cons_self ..)
        omega
      · rcases mem_cons.mp he with rfl | he
        · omega
        · exact he
    rw [citedBy, any_eq_true]
    refine ⟨e, hafter, ?_⟩
    rw [hreplaces, hcites m.seq (count_pos_iff.mp (by omega))]
    rfl

theorem isSurfaceEvent_of_owned (h : surfaceAfter events = .ok (state, rs)) (hmem : m ∈ events)
    (hm : ownedMessage m = true) : isSurfaceEvent m = true := by
  obtain ⟨before, after, rfl⟩ := append_of_mem hmem
  obtain ⟨_, _, plan, -, hplan, -⟩ := surfaceAfter_step h
  rw [ownedMessage, Bool.and_eq_true, beq_iff_eq] at hm
  unfold planSurfaceEvent at hplan
  split at hplan
  · cases hplan
  · simp only [bind_eq_ok_iff] at hplan
    obtain ⟨op, hop, -⟩ := hplan
    cases op with
    | some op => exact surfaceOpOf_some hop
    | none =>
      unfold surfaceOpOf at hop
      rw [hm.1, if_neg (by decide)] at hop
      split at hop
      · cases hop
      · cases hop
      · split at hop <;> cases hop
      · cases hop

/-! ## Restart equivalence -/

/-- Whether a replacement cites the newest message of the projection. -/
def newestCited (events : List SessionEvent) : Bool :=
  match events.reverse.find? ownedMessage with
  | some m => citedBy (events.reverse.takeWhile (!ownedMessage ·)).reverse m.seq
  | none => false

/-- No message of the projection is left on the surface, or no replacement cites the newest one. -/
def NewestUncited (surface : List Int) (events : List SessionEvent) : Prop :=
  (∃ e ∈ events, ownedMessage e = true ∧ e.seq ∈ surface) → newestCited events = false

instance (surface : List Int) (events : List SessionEvent) : Decidable (NewestUncited surface events) :=
  inferInstanceAs (Decidable (_ → _))

theorem newestCited_split (hm : ownedMessage m = true) (hafter : ∀ x ∈ after, ownedMessage x = false) :
    newestCited (before ++ m :: after) = citedBy after m.seq := by
  have hrev : (before ++ m :: after).reverse = after.reverse ++ m :: before.reverse := by
    rw [reverse_append, reverse_cons, append_assoc, singleton_append]
  have hquiet : ∀ x ∈ after.reverse, ownedMessage x = false := fun x hx => hafter x (mem_reverse.mp hx)
  have hfind : (after.reverse ++ m :: before.reverse).find? ownedMessage = some m := by
    rw [List.find?_append, List.find?_eq_none.mpr fun x hx => by rw [hquiet x hx]; exact Bool.false_ne_true,
      Option.none_or, List.find?_cons_of_pos hm]
  have htake : (after.reverse ++ m :: before.reverse).takeWhile (!ownedMessage ·) = after.reverse := by
    rw [takeWhile_append_of_pos fun x hx => by rw [hquiet x hx]; rfl,
      takeWhile_cons_of_neg (by rw [hm]; exact Bool.false_ne_true), append_nil]
  rw [newestCited, hrev, hfind, htake, reverse_reverse]

/-- **Restart equivalence.**  The projection built from an accepted log is the one that followed it live exactly when
no message of it is left on the surface or no replacement cites the newest one. -/
theorem restore_eq_follow_iff {result : SurfaceFoldResult} (h : foldSurface events = .ok result) :
    restore result.nodes events = follow events ↔ NewestUncited result.nodes events := by
  obtain ⟨state, hafter, hnodes⟩ := foldSurface_ok h
  rw [← hnodes]
  rcases none_or_last ownedMessage events with hnone | ⟨before, m, after, rfl, hm, hquiet⟩
  · -- the projection has no message in the log
    have hrestore : restore state.nodes events = .undefined := by
      have hquiet : ∀ x ∈ events.reverse, ownedMessage x = false := fun x hx => hnone x (mem_reverse.mp hx)
      have hskip := @restoreLoop_skip state.nodes _ hquiet .undefined []
      rwa [append_nil] at hskip
    rw [hrestore, follow, foldl_onEvent_of_quiet hnone fun _ _ => Retained.noConfusion]
    refine ⟨fun _ => ?_, fun _ => rfl⟩
    rintro ⟨e, he, howned, -⟩
    rw [hnone e he] at howned
    cases howned
  · rw [restore_split hm hquiet, follow_split hm hquiet]
    have hmem : m ∈ before ++ m :: after := mem_append_right _ (mem_cons_self ..)
    rw [NewestUncited, newestCited_split hm hquiet]
    by_cases hlive : m.seq ∈ state.nodes
    · rw [if_pos hlive]
      cases hcited : citedBy after m.seq with
      | true =>
        refine ⟨nofun, fun hcond => ?_⟩
        have := hcond ⟨m, hmem, hm, hlive⟩
        cases this
      | false => exact ⟨fun _ _ => rfl, fun _ => rfl⟩
    · have hcited := citedBy_of_not_mem hafter (isSurfaceEvent_of_owned hafter hmem hm) hlive
      rw [if_neg hlive, hcited, if_pos rfl, restoreLoop_null_iff]
      constructor
      · rintro hgone ⟨e, he, howned, hseq⟩
        exfalso
        rcases mem_append.mp he with he | he
        · exact hgone e (mem_reverse.mpr he) howned hseq
        · rcases mem_cons.mp he with rfl | he
          · exact hlive hseq
          · rw [hquiet e he] at howned
            cases howned
      · intro hcond e he howned hseq
        cases hcond ⟨e, mem_append_left _ (mem_reverse.mp he), howned, hseq⟩

/-- A user message of a plugin, with this text, that enters the surface by `op`, citing `sources`. -/
def pluginMessage (seq : Int) (plugin text : String) (op : Json) (sources : Option Json := none) : SessionEvent where
  type := "user/message"
  seq := seq
  time := 0
  data := .obj [("content", .arr [.obj [("type", .str "text"), ("text", .str text)]]),
    ("source", .obj [("kind", .str "plugin"), ("plugin", .str plugin)])]
  sourceEventSeqs := sources
  surfaceOp := some op

def summarized : List SessionEvent :=
  [pluginMessage 0 source "a" (.str "append"),
    pluginMessage 1 "compaction" "summary" (replaceMarker 0 0) (some (SessionEvent.intArray [0]))]

theorem restore_eq_follow_summarized :
    restore [1] summarized = .null ∧ restore [1] summarized = follow summarized := by
  refine ⟨by decide +kernel, ?_⟩
  exact (@restore_eq_follow_iff summarized ⟨[1], [⟨1, 0, 0, [0]⟩]⟩ (by decide +kernel)).mpr
    (by decide +kernel)

/-- Of two snapshots the newer one is replaced: the scan finds the older one, the live projection has none. -/
theorem restore_ne_follow : ∃ events result, foldSurface events = .ok result ∧
    restore result.nodes events ≠ follow events ∧
    project (restore result.nodes events) "retained" [] = none ∧
    project (follow events) "retained" [] = some { text := "retained", sections := none } := by
  refine ⟨[pluginMessage 0 source "retained" (.str "append"), pluginMessage 1 source "shadowed" (.str "append"),
    pluginMessage 2 "test-compaction" "summary" (replaceMarker 1 1) (some (SessionEvent.intArray [1]))],
    ⟨[0, 2], [⟨2, 1, 1, [1]⟩]⟩, ?_⟩
  decide +kernel

/-! ## The projection of a session -/

end CocoHarness.Agent.RuntimeContext
