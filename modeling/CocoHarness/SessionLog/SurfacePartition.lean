/-
# CocoHarness.SessionLog.SurfacePartition — the surface is a conservative partition.

`planSurfaceEvent_cases` says once what an accepted event can do to the surface: nothing, join the
end, or take the place of a contiguous run of current nodes.  Replaying one more event is one more
such step (`surfaceAfter_snoc`), so a whole accepted log is a run of the general ledger over its
surface seqs (`surfaceAfter_run`), and conservation, distinctness and accounting are the ledger's.
-/
import CocoHarness.Lib.Ledger
import CocoHarness.SessionLog.Surface

namespace CocoHarness.SessionLog

open Lib Lib.SafeInteger List
open SessionEvent (intField intArray)

/-! ## What one accepted event does -/

variable {e : SessionEvent}

theorem surfaceOpOf_none (h : surfaceOpOf e = .ok none) : isSurfaceEvent e = false := by
  unfold surfaceOpOf at h
  split at h
  · next helig =>
    have hnot : isSurfaceEligibleType e.type = false := by simpa using helig
    simp [isSurfaceEvent, hnot]
  · split at h
    · simp at h
    · simp at h
    · split at h <;> simp at h
    · simp at h

theorem surfaceOpOf_some {op : SurfaceOp} (h : surfaceOpOf e = .ok (some op)) : isSurfaceEvent e = true := by
  unfold surfaceOpOf at h
  split at h
  · split at h
    · simp at h
    · split at h <;> simp at h
  · next helig =>
    have helig' : isSurfaceEligibleType e.type = true := by simpa using helig
    cases hop : e.surfaceOp with
    | none => simp [hop] at h
    | some _ => simp [isSurfaceEvent, helig', hop]

variable {state : SurfaceFoldState}

theorem replacementRange_spec {start stop : Int} {range : SurfaceRange}
    (h : replacementRange state start stop = .ok range) :
    ∃ left right, state.nodes = left ++ range.shadowedSeqs ++ right ∧
      left.length = range.startIdx ∧ range.shadowedSeqs.head? = some start ∧
      range.shadowedSeqs.getLast? = some stop ∧
      range.startIdx + range.shadowedSeqs.length = range.endIdx + 1 := by
  unfold replacementRange at h
  split at h
  · simp at h
  next startIdx hstart =>
  split at h
  · simp at h
  next endIdx hend =>
  split at h
  · simp at h
  next hle =>
  simp only [Except.ok.injEq] at h
  subst h
  rw [List.idxOf?_eq_some_iff] at hstart hend
  obtain ⟨hslt, hsval, -⟩ := hstart
  obtain ⟨helt, heval, -⟩ := hend
  have hcut : state.nodes = state.nodes.take startIdx
      ++ (state.nodes.take (endIdx + 1)).drop startIdx ++ state.nodes.drop (endIdx + 1) := by
    have hmin : (state.nodes.take (endIdx + 1)).take startIdx = state.nodes.take startIdx := by
      rw [take_take, Nat.min_eq_left (by omega)]
    rw [← hmin, take_append_drop, take_append_drop]
  refine ⟨_, _, hcut, by simp; omega, ?_, ?_, by simp; omega⟩
  · simp [List.head?_drop, show startIdx < endIdx + 1 by omega, hslt, hsval]
  · rw [List.getLast?_drop, List.getLast?_take]
    simp [helt, heval]
    omega

inductive SurfaceStep (nodes : List Int) (seq : Int) : Option SurfacePlan → List Int → Prop
  /-- The event is no surface event. -/
  | pass : SurfaceStep nodes seq none nodes
  /-- The event joins the end. -/
  | append : SurfaceStep nodes seq (some (.append seq)) (nodes ++ [seq])
  /-- The event takes the place of the contiguous run from `start` to `stop`. -/
  | replace {left run right : List Int} {start stop : Int} {i j : Nat}
      (hnodes : nodes = left ++ run ++ right) (hstart : run.head? = some start)
      (hstop : run.getLast? = some stop) :
      SurfaceStep nodes seq (some (.replace ⟨seq, start, stop, run⟩ i j)) (left ++ seq :: right)

variable {events : List SessionEvent} {base : Int} {plan : Option SurfacePlan}

/-- **What an accepted event can do.** -/
theorem planSurfaceEvent_spec {n : Int} (h : planSurfaceEvent state e n events base = .ok plan) :
    e.seq = n ∧ isSurfaceEvent e = plan.isSome ∧
      SurfaceStep state.nodes n plan (applySurfacePlan state plan).1.nodes := by
  unfold planSurfaceEvent at h
  split at h
  · simp at h
  next hseq =>
  have hseq : e.seq = n := by simpa using hseq
  refine ⟨hseq, ?_⟩
  simp only [bind_eq_ok_iff] at h
  obtain ⟨op, hop, h⟩ := h
  split at h
  · simp only [pure_eq_ok, Except.ok.injEq] at h
    subst h
    exact ⟨surfaceOpOf_none hop, .pass⟩
  · simp only [bind_eq_ok_iff, pure_eq_ok, Except.ok.injEq] at h
    obtain ⟨_, -, rfl⟩ := h
    refine ⟨surfaceOpOf_some hop, ?_⟩
    rw [hseq]
    exact .append
  · simp only [bind_eq_ok_iff, pure_eq_ok, Except.ok.injEq] at h
    obtain ⟨range, hrange, _, -, _, -, rfl⟩ := h
    refine ⟨surfaceOpOf_some hop, ?_⟩
    obtain ⟨left, right, hnodes, hlen, hstart, hstop, hidx⟩ := replacementRange_spec hrange
    have hne : 0 < range.shadowedSeqs.length := by
      cases hrun : range.shadowedSeqs with
      | nil => simp [hrun] at hstart
      | cons _ _ => simp
    have hleft : state.nodes.take range.startIdx = left := by rw [hnodes, append_assoc, ← hlen, take_left]
    have hright : state.nodes.drop (range.startIdx + (range.endIdx - range.startIdx + 1)) = right := by
      rw [hnodes, show range.startIdx + (range.endIdx - range.startIdx + 1)
        = (left ++ range.shadowedSeqs).length by simp; omega, drop_left]
    simp only [applySurfacePlan, hleft, hright, hseq]
    exact .replace hnodes hstart hstop

/-! ## A plan reads the log only at current nodes -/

theorem assertToolResultRewrite_congr {shadowed : List Int} (events' : List SessionEvent)
    (h : ∀ s ∈ shadowed, eventAt events (s - base) = eventAt events' (s - base)) :
    assertToolResultRewrite e shadowed events base = assertToolResultRewrite e shadowed events' base := by
  match shadowed, h with
  | [], _ => simp [assertToolResultRewrite]
  | [s], h => simp only [assertToolResultRewrite, h s (by simp)]
  | _ :: _ :: _, _ => simp [assertToolResultRewrite]

variable {events' : List SessionEvent}

theorem planSurfaceEvent_congr {n : Int}
    (h : ∀ s ∈ state.nodes, eventAt events (s - base) = eventAt events' (s - base)) :
    planSurfaceEvent state e n events base = planSurfaceEvent state e n events' base := by
  unfold planSurfaceEvent
  split
  · rfl
  cases hop : surfaceOpOf e with
  | error _ => rfl
  | ok op =>
    match op with
    | none => rfl
    | some .append => rfl
    | some (.replace start stop) =>
      simp only [ok_bind]
      cases hrange : replacementRange state start stop with
      | error _ => rfl
      | ok range =>
        obtain ⟨left, right, hnodes, -⟩ := replacementRange_spec hrange
        rw [ok_bind, ok_bind, assertToolResultRewrite_congr events']
        intro s hs
        exact h s (by simp [hnodes, hs])

/-! ## Replaying one more event -/

def surfaceAfter (events : List SessionEvent) : Except JsError (SurfaceFoldState × List SurfaceFoldReplacement) :=
  foldSurfaceLoop events 0 {} [] events

theorem foldSurface_eq (events : List SessionEvent) :
    foldSurface events = (surfaceAfter events).map fun r => ⟨r.1.nodes, r.2⟩ := by
  rw [foldSurface, surfaceAfter]
  cases foldSurfaceLoop events 0 {} [] events <;> rfl

/-- Every current node is the position of an event already read. -/
def NodesBelow (state : SurfaceFoldState) (n : Nat) : Prop := ∀ s ∈ state.nodes, 0 ≤ s ∧ s < n

variable {seq : Int}

theorem SurfaceStep.mem {nodes nodes' : List Int} (h : SurfaceStep nodes seq plan nodes') :
    ∀ s ∈ nodes', s ∈ nodes ∨ s = seq := by
  intro s hs
  cases h with
  | pass => exact .inl hs
  | append => simpa using hs
  | replace hnodes _ _ =>
    subst hnodes
    simp only [mem_append, mem_cons] at hs ⊢
    tauto

variable {state' : SurfaceFoldState} {n : Nat}

theorem applySurfaceEvent_below {r : Option SurfaceFoldReplacement}
    (hstate : NodesBelow state n) (h : applySurfaceEvent state e n events base = .ok (state', r)) :
    NodesBelow state' (n + 1) := by
  simp only [applySurfaceEvent, bind_eq_ok_iff, pure_eq_ok, Except.ok.injEq] at h
  obtain ⟨plan, hplan, happly⟩ := h
  obtain ⟨-, -, hstep⟩ := planSurfaceEvent_spec hplan
  intro s hs
  have hs' : s ∈ (applySurfacePlan state plan).1.nodes := by rwa [happly]
  rcases hstep.mem s hs' with hmem | rfl
  · have := hstate s hmem; push_cast; omega
  · push_cast; omega

variable {s : Int}

theorem eventAt_congr (h : events.take n = events'.take n) (hs : 0 ≤ s ∧ s < n) :
    eventAt events (s - 0) = eventAt events' (s - 0) := by
  have hlt : s.toNat < n := by omega
  have hget := congrArg (·[s.toNat]?) h
  simpa [eventAt, hs.1, hlt] using hget

theorem applySurfaceEvent_congr (hstate : NodesBelow state n) (h : events.take n = events'.take n) :
    applySurfaceEvent state e n events 0 = applySurfaceEvent state e n events' 0 := by
  rw [applySurfaceEvent, applySurfaceEvent, planSurfaceEvent_congr fun s hs => eventAt_congr h (hstate s hs)]

variable {xs : List SessionEvent}

theorem foldSurfaceLoop_congr (events' : List SessionEvent) :
    ∀ {n : Nat} {state : SurfaceFoldState} {rs : List SurfaceFoldReplacement},
      NodesBelow state n → events.take (n + xs.length) = events'.take (n + xs.length) →
      foldSurfaceLoop events n state rs xs = foldSurfaceLoop events' n state rs xs ∧
        ∀ state' rs', foldSurfaceLoop events n state rs xs = .ok (state', rs') →
          NodesBelow state' (n + xs.length) := by
  induction xs with
  | nil =>
    intro n state rs hstate _
    refine ⟨rfl, ?_⟩
    intro state' rs' h
    simp only [foldSurfaceLoop, Except.ok.injEq, Prod.mk.injEq] at h
    rwa [← h.1]
  | cons e xs ih =>
    intro n state rs hstate hpre
    have hcut : events.take n = events'.take n := by
      have := congrArg (List.take n) hpre
      rwa [take_take, take_take, Nat.min_eq_left (by simp)] at this
    simp only [foldSurfaceLoop]
    rw [← applySurfaceEvent_congr hstate hcut]
    cases happly : applySurfaceEvent state e n events 0 with
    | error _ => simp
    | ok p =>
      obtain ⟨state', r⟩ := p
      have hlen : n + (e :: xs).length = n + 1 + xs.length := by rw [length_cons]; omega
      rw [hlen] at hpre ⊢
      exact ih (applySurfaceEvent_below hstate happly) hpre

theorem foldSurfaceLoop_append (events : List SessionEvent) {ys : List SessionEvent} :
    ∀ {n : Nat} {state : SurfaceFoldState} {rs : List SurfaceFoldReplacement},
      foldSurfaceLoop events n state rs (xs ++ ys) = foldSurfaceLoop events n state rs xs >>= fun p =>
          foldSurfaceLoop events (n + xs.length) p.1 p.2 ys := by
  induction xs with
  | nil => intro n state rs; rfl
  | cons e xs ih =>
    intro n state rs
    simp only [cons_append, foldSurfaceLoop]
    cases applySurfaceEvent state e n events 0 with
    | error _ => rfl
    | ok p =>
      simp only [ok_bind]
      rw [ih, length_cons, show n + 1 + xs.length = n + (xs.length + 1) by omega]

theorem nodesBelow_init : NodesBelow {} 0 := by simp [NodesBelow]

variable {rs : List SurfaceFoldReplacement}

theorem surfaceAfter_below (h : surfaceAfter events = .ok (state, rs)) : NodesBelow state events.length := by
  simpa using (foldSurfaceLoop_congr events nodesBelow_init rfl).2 state rs h

/-- **One more event.**  Replaying a longer log is replaying the shorter one and then the event. -/
theorem surfaceAfter_snoc (events : List SessionEvent) (e : SessionEvent) : surfaceAfter (events ++ [e]) = do
      let (state, replacements) ← surfaceAfter events
      let (state, replacement) ← applySurfaceEvent state e events.length events 0
      return (state, replacements ++ replacement.toList) := by
  have hshort : foldSurfaceLoop (events ++ [e]) 0 {} [] events = surfaceAfter events :=
    (foldSurfaceLoop_congr events nodesBelow_init (by simp)).1
  rw [surfaceAfter, foldSurfaceLoop_append, hshort]
  cases hafter : surfaceAfter events with
  | error _ => rfl
  | ok p =>
    obtain ⟨state, rs⟩ := p
    have hstep : applySurfaceEvent state e events.length (events ++ [e]) 0
        = applySurfaceEvent state e events.length events 0 :=
      applySurfaceEvent_congr (surfaceAfter_below hafter) (by simp)
    simp only [ok_bind, Nat.zero_add, foldSurfaceLoop, hstep]
    cases applySurfaceEvent state e events.length events 0 <;> rfl

variable {rs' : List SurfaceFoldReplacement}

theorem surfaceAfter_snoc_ok (h : surfaceAfter (events ++ [e]) = .ok (state', rs')) :
    ∃ state rs plan, surfaceAfter events = .ok (state, rs) ∧
      planSurfaceEvent state e events.length events 0 = .ok plan ∧
      state' = (applySurfacePlan state plan).1 ∧
      rs' = rs ++ (applySurfacePlan state plan).2.toList := by
  rw [surfaceAfter_snoc] at h
  simp only [applySurfaceEvent, bind_eq_ok_iff, pure_eq_ok, Except.ok.injEq, Prod.mk.injEq] at h
  obtain ⟨⟨state, rs⟩, hbefore, p, ⟨plan, hplan, rfl⟩, rfl, rfl⟩ := h
  exact ⟨state, rs, plan, hbefore, hplan, rfl, rfl⟩

theorem surfaceAfter_prefix {more : List SessionEvent} (h : surfaceAfter (events ++ more) = .ok (state', rs')) :
    ∃ state rs, surfaceAfter events = .ok (state, rs) ∧ rs <+: rs' := by
  induction more using List.reverseRecOn generalizing state' rs' with
  | nil => exact ⟨state', rs', by simpa using h, prefix_rfl⟩
  | append_singleton more e ih =>
    rw [← append_assoc] at h
    obtain ⟨state₁, rs₁, plan, hbefore, -, -, rfl⟩ := surfaceAfter_snoc_ok h
    obtain ⟨state, rs, hafter, hpre⟩ := ih hbefore
    exact ⟨state, rs, hafter, hpre.trans (prefix_append _ _)⟩

/-! ## An accepted log is a run of the ledger -/

def surfaceSeqs (events : List SessionEvent) : List Int := (events.filter isSurfaceEvent).map (·.seq)

/-- The surface as a ledger: current nodes, and what each replacement shadowed. -/
def surfaceLedger (nodes : List Int) (replacements : List SurfaceFoldReplacement) : Ledger Int where
  live := nodes
  retired := replacements.map fun r => (r.seq, r.shadowedSeqs)

theorem surfaceAfter_seqs (h : surfaceAfter events = .ok (state, rs)) :
    events.map (·.seq) = (List.range events.length).map Int.ofNat := by
  induction events using List.reverseRecOn generalizing state rs with
  | nil => rfl
  | append_singleton events e ih =>
    obtain ⟨state, rs, plan, hbefore, hplan, -, -⟩ := surfaceAfter_snoc_ok h
    obtain ⟨hseq, -, -⟩ := planSurfaceEvent_spec hplan
    simp [ih hbefore, range_succ, hseq]

theorem surfaceAfter_seqs_lt (h : surfaceAfter events = .ok (state, rs)) : (surfaceSeqs events).Pairwise (· < ·) := by
  have hall : (events.map (·.seq)).Pairwise (· < ·) := by
    rw [surfaceAfter_seqs h, pairwise_map]
    exact pairwise_lt_range.imp fun hlt => by simpa using hlt
  exact hall.sublist (filter_sublist.map _)

theorem surfaceSeqs_snoc (events : List SessionEvent) (e : SessionEvent) : surfaceSeqs (events ++ [e])
      = surfaceSeqs events ++ if isSurfaceEvent e then [e.seq] else [] := by
  rw [surfaceSeqs, filter_append, map_append, filter_singleton]
  cases isSurfaceEvent e <;> rfl

/-- What one accepted event does is one ledger step, or nothing for an event off the surface. -/
theorem SurfaceStep.ledger (rs : List SurfaceFoldReplacement)
    (h : SurfaceStep state.nodes seq plan (applySurfacePlan state plan).1.nodes) :
    (plan = none ∧ (applySurfacePlan state plan).1.nodes = state.nodes ∧ (applySurfacePlan state plan).2 = none) ∨
      plan.isSome ∧ (surfaceLedger state.nodes rs).Step seq
        (surfaceLedger (applySurfacePlan state plan).1.nodes (rs ++ (applySurfacePlan state plan).2.toList)) := by
  generalize hnodes' : (applySurfacePlan state plan).1.nodes = nodes' at h
  cases h with
  | pass => exact .inl ⟨rfl, rfl, rfl⟩
  | append =>
    refine .inr ⟨rfl, ?_⟩
    simp only [applySurfacePlan, Option.toList_none, append_nil]
    exact .enter
  | replace hnodes hstart _ =>
    refine .inr ⟨rfl, ?_⟩
    simp only [applySurfacePlan, Option.toList_some, surfaceLedger, map_append, map_cons, map_nil]
    refine .rewrite hnodes ?_
    rintro rfl
    simp at hstart

/-- **The fold refines the ledger.** -/
theorem surfaceAfter_run (h : surfaceAfter events = .ok (state, rs)) :
    Ledger.Run (surfaceSeqs events) (surfaceLedger state.nodes rs) := by
  induction events using List.reverseRecOn generalizing state rs with
  | nil =>
    simp only [surfaceAfter, foldSurfaceLoop, Except.ok.injEq, Prod.mk.injEq] at h
    obtain ⟨rfl, rfl⟩ := h
    exact .nil
  | append_singleton events e ih =>
    obtain ⟨state₁, rs₁, plan, hbefore, hplan, rfl, rfl⟩ := surfaceAfter_snoc_ok h
    obtain ⟨hseq, hsurface, hstep⟩ := planSurfaceEvent_spec hplan
    rw [surfaceSeqs_snoc, hsurface]
    rcases hstep.ledger rs₁ with ⟨rfl, -, -⟩ | ⟨hsome, hledger⟩
    · simpa [applySurfacePlan] using ih hbefore
    · rw [hsome, if_pos rfl, hseq]
      exact (ih hbefore).snoc hledger

/-! ## The partition -/

/-- **The surface accounts for every message of the log, once.** -/
structure SurfacePartition (events : List SessionEvent) (result : SurfaceFoldResult) : Prop where
  /-- The current nodes are pairwise distinct. -/
  nodup : result.nodes.Nodup
  /-- Every current node is the seq of a surface event of the log. -/
  nodes_mem : ∀ s ∈ result.nodes, ∃ e ∈ events, e.seq = s ∧ isSurfaceEvent e = true
  /-- A surface event is a current node once, or was shadowed once, by exactly one later replacement. -/
  accounted : ∀ e ∈ events, isSurfaceEvent e = true →
    (result.nodes.count e.seq = 1 ∧ ∀ r ∈ result.replacements, e.seq ∉ r.shadowedSeqs) ∨
    (e.seq ∉ result.nodes ∧ ∃ r, result.replacements.filter (fun r => e.seq ∈ r.shadowedSeqs) = [r] ∧
      r.shadowedSeqs.count e.seq = 1 ∧ e.seq < r.seq)
  /-- What a prefix of the log already shadowed never shows again. -/
  no_resurrection : ∀ before after, events = before ++ after → ∀ result₁,
    foldSurface before = .ok result₁ → ∀ r ∈ result₁.replacements, ∀ s ∈ r.shadowedSeqs, s ∉ result.nodes
  /-- Every event leaves the surface alone, joins its end, or takes the place of a contiguous run of it. -/
  steps : ∀ before e after, events = before ++ e :: after → ∃ result₁ result₂,
    foldSurface before = .ok result₁ ∧ foldSurface (before ++ [e]) = .ok result₂ ∧
      ((isSurfaceEvent e = false ∧ result₂ = result₁) ∨
      (isSurfaceEvent e = true ∧ result₂ = ⟨result₁.nodes ++ [e.seq], result₁.replacements⟩) ∨
      (isSurfaceEvent e = true ∧ ∃ left right r, r.seq = e.seq ∧ result₁.nodes = left ++ r.shadowedSeqs ++ right ∧
        r.shadowedSeqs.head? = some r.start ∧ r.shadowedSeqs.getLast? = some r.stop ∧
        result₂ = ⟨left ++ e.seq :: right, result₁.replacements ++ [r]⟩))

variable {result : SurfaceFoldResult}

theorem foldSurface_ok (h : foldSurface events = .ok result) :
    ∃ state, surfaceAfter events = .ok (state, result.replacements) ∧ state.nodes = result.nodes := by
  rw [foldSurface_eq] at h
  cases hafter : surfaceAfter events with
  | error _ => simp [hafter, Except.map] at h
  | ok p =>
    simp only [hafter, Except.map, Except.ok.injEq] at h
    subst h
    exact ⟨p.1, rfl, rfl⟩

theorem foldSurface_of_surfaceAfter (h : surfaceAfter events = .ok (state, rs)) :
    foldSurface events = .ok ⟨state.nodes, rs⟩ := by
  simp [foldSurface_eq, h, Except.map]

theorem mem_surfaceSeqs : s ∈ surfaceSeqs events ↔ ∃ e ∈ events, e.seq = s ∧ isSurfaceEvent e = true := by
  simp only [surfaceSeqs, mem_map, mem_filter]
  constructor
  · rintro ⟨e, ⟨he, hsurface⟩, rfl⟩
    exact ⟨e, he, rfl, hsurface⟩
  · rintro ⟨e, he, rfl, hsurface⟩
    exact ⟨e, ⟨he, hsurface⟩, rfl⟩

theorem surfaceAfter_accounted (h : surfaceAfter events = .ok (state, rs)) (he : e ∈ events)
    (hsurface : isSurfaceEvent e = true) :
    (state.nodes.count e.seq = 1 ∧ ∀ r ∈ rs, e.seq ∉ r.shadowedSeqs) ∨
    (e.seq ∉ state.nodes ∧ ∃ r, rs.filter (fun r => e.seq ∈ r.shadowedSeqs) = [r] ∧
      r.shadowedSeqs.count e.seq = 1 ∧ e.seq < r.seq) := by
  have hrun := surfaceAfter_run h
  have hlt := surfaceAfter_seqs_lt h
  have hmem : e.seq ∈ surfaceSeqs events := mem_surfaceSeqs.mpr ⟨e, he, rfl, hsurface⟩
  rcases hrun.accounted (hlt.imp fun hab => hab.ne) hmem with ⟨hcount, hnot⟩ | ⟨hnot, p, hfilter, hp⟩
  · exact .inl ⟨hcount, fun r hr => hnot _ (mem_map_of_mem hr)⟩
  · simp only [surfaceLedger, filter_map, Function.comp_def] at hfilter
    obtain ⟨r, hr, rfl⟩ := map_eq_singleton_iff.mp hfilter
    have hmem' : r ∈ rs ∧ e.seq ∈ r.shadowedSeqs := by
      have : r ∈ rs.filter fun r => decide (e.seq ∈ r.shadowedSeqs) := by rw [hr]; simp
      simpa using this
    refine .inr ⟨hnot, r, hr, hp, ?_⟩
    exact hrun.retired_lt hlt _ (mem_map_of_mem hmem'.1) _ hmem'.2

theorem surfaceAfter_step {before after : List SessionEvent}
    (h : surfaceAfter (before ++ e :: after) = .ok (state, rs)) :
    ∃ state₁ rs₁ plan, surfaceAfter before = .ok (state₁, rs₁) ∧
      planSurfaceEvent state₁ e before.length before 0 = .ok plan ∧
      surfaceAfter (before ++ [e]) = .ok ((applySurfacePlan state₁ plan).1,
        rs₁ ++ (applySurfacePlan state₁ plan).2.toList) := by
  rw [append_cons] at h
  obtain ⟨state₂, rs₂, hafter, -⟩ := surfaceAfter_prefix h
  obtain ⟨state₁, rs₁, plan, hbefore, hplan, rfl, rfl⟩ := surfaceAfter_snoc_ok hafter
  exact ⟨state₁, rs₁, plan, hbefore, hplan, hafter⟩

theorem foldSurface_partition {events : List SessionEvent}
    (h : foldSurface events = .ok result) : SurfacePartition events result := by
  obtain ⟨nodes, rs⟩ := result
  obtain ⟨state, hafter, hnodes⟩ := foldSurface_ok h
  dsimp only at hafter hnodes
  subst hnodes
  have hrun := surfaceAfter_run hafter
  have hdistinct : (surfaceSeqs events).Nodup := (surfaceAfter_seqs_lt hafter).imp fun hab => hab.ne
  refine ⟨hrun.live_nodup hdistinct, ?_, ?_, ?_, ?_⟩
  · intro s hs
    exact mem_surfaceSeqs.mp (hrun.live_subset hs)
  · intro e he hsurface
    exact surfaceAfter_accounted hafter he hsurface
  · rintro before after rfl result₁ hbefore r hr s hs hlive
    obtain ⟨state₁, rs₁, hbefore', hpre⟩ := surfaceAfter_prefix hafter
    rw [foldSurface_of_surfaceAfter hbefore', Except.ok.injEq] at hbefore
    subst hbefore
    obtain ⟨e, he, rfl, hsurface⟩ := mem_surfaceSeqs.mp (hrun.live_subset hlive)
    rcases surfaceAfter_accounted hafter he hsurface with ⟨-, hnot⟩ | ⟨hnot, -⟩
    · exact hnot r (hpre.subset hr) hs
    · exact hnot hlive
  · rintro before e after rfl
    obtain ⟨state₁, rs₁, plan, hbefore, hplan, hstep⟩ := surfaceAfter_step hafter
    refine ⟨_, _, foldSurface_of_surfaceAfter hbefore, foldSurface_of_surfaceAfter hstep, ?_⟩
    obtain ⟨hseq, hsurface, hcases⟩ := planSurfaceEvent_spec hplan
    rw [← hseq] at hcases
    generalize hnodes' : (applySurfacePlan state₁ plan).1.nodes = nodes' at hcases ⊢
    cases hcases with
    | pass => exact .inl ⟨hsurface, by simp [applySurfacePlan]⟩
    | append => exact .inr (.inl ⟨hsurface, by simp [applySurfacePlan]⟩)
    | @replace left run right start stop i j hrange hstart hstop =>
      refine .inr (.inr ⟨hsurface, left, right, ⟨e.seq, start, stop, run⟩, rfl, hrange, hstart,
        hstop, by simp [applySurfacePlan]⟩)

/-- A user message that enters the surface by `op`, citing `sources`. -/
def surfaceMessage (seq : Int) (op : Json) (sources : Option Json := none) : SessionEvent where
  type := "user/message"
  seq := seq
  time := 0
  data := .null
  sourceEventSeqs := sources
  surfaceOp := some op

def replaceMarker (start stop : Int) : Json :=
  .obj [("op", .str "replace"), ("start", intField start), ("end", intField stop)]

/-- A replacement of a replacement. -/
theorem foldSurface_partition_nested : SurfacePartition
      [surfaceMessage 0 (.str "append"), surfaceMessage 1 (.str "append"),
        surfaceMessage 2 (replaceMarker 0 1) (some (intArray [0, 1])),
        surfaceMessage 3 (replaceMarker 2 2) (some (intArray [2]))]
      ⟨[3], [⟨2, 0, 1, [0, 1]⟩, ⟨3, 2, 2, [2]⟩]⟩ :=
  foldSurface_partition (by decide)

end CocoHarness.SessionLog
