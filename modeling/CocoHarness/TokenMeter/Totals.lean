/-
# CocoHarness.TokenMeter.Totals — the running totals are the total of the priced surface.

A log is fully metered when each replacement comes right after a metering event of its range, at the price
the meter has for that range (`FullyMetered`).  On such a log the claim that is armed is the one the newest
event makes (`armed`), a replacement always meets the claim of its own range, and each step changes a running
total by what it changes the total of the priced surface (`foldSurfaceProjection_spec`).
-/
import CocoHarness.TokenMeter.SurfaceProjection
import CocoHarness.Compaction.TransactionSteps

namespace CocoHarness.TokenMeter

open Lib SessionLog Compaction List MeteredEvent

/-! ## The protocol -/

def rangeNodes (nodes : List TokenSurfaceNode) (start stop : Int) : Option (List TokenSurfaceNode) :=
  match nodes.findIdx? (·.seq = start), nodes.findIdx? (·.seq = stop) with
  | some startIdx, some endIdx => if startIdx > endIdx then none else some ((nodes.take (endIdx + 1)).drop startIdx)
  | _, _ => none

/-- A replacement comes right after a metering event of its range, at the meter's price. -/
def Metered (before : List SessionEvent) (event : SessionEvent) : Prop :=
  ∀ start stop, surfaceOpOf event = .ok (some (.replace start stop)) →
    ∃ earlier record tokens, before = earlier ++ [record]
      ∧ meterData? record = some (.shadowPrice ⟨start, stop, tokens⟩)
      ∧ ∀ nodes, measuredNodes estimateMessage before = .ok nodes →
          ∃ removed, rangeNodes nodes start stop = some removed ∧ tokens = totalTokens removed

/-- Every replacement among the events that follow a log is metered. -/
def MeteredMore (log more : List SessionEvent) : Prop :=
  ∀ before event after, more = before ++ event :: after → Metered (log ++ before) event

def FullyMetered (log : List SessionEvent) : Prop := MeteredMore [] log

theorem MeteredMore.nil (log : List SessionEvent) : MeteredMore log [] := by
  intro before event after heq
  cases before <;> cases heq

variable {log more : List SessionEvent}

theorem MeteredMore.append {more' : List SessionEvent} (h : MeteredMore log more)
    (h' : MeteredMore (log ++ more) more') : MeteredMore log (more ++ more') := by
  intro before event after heq
  rcases append_eq_append_iff.mp heq with ⟨early, rfl, hmore'⟩ | ⟨late, rfl, hafter⟩
  · rw [← append_assoc]
    exact h' early event after hmore'
  · cases late with
    | nil =>
      -- the event is the first of what comes later
      rw [append_nil] at h'
      have := h' [] event after hafter.symm
      rwa [append_nil] at this
    | cons first late =>
      cases hafter
      exact h before event late rfl

variable {event : SessionEvent}

theorem MeteredMore.singleton (h : Metered log event) : MeteredMore log [event] := by
  intro before event' after heq
  cases before with
  | nil =>
    cases heq
    rwa [append_nil]
  | cons first rest => cases rest <;> cases heq

theorem MeteredMore.snoc (h : MeteredMore log more) (h' : Metered (log ++ more) event) :
    MeteredMore log (more ++ [event]) :=
  h.append (.singleton h')

theorem FullyMetered.prefix_of (h : FullyMetered (log ++ more)) : FullyMetered log := by
  intro before event after heq
  apply h before event (after ++ more)
  rw [heq, append_assoc]
  rfl

theorem Metered.plain {before : List SessionEvent} (hplain : isSurfaceEligibleType event.type = false) :
    Metered before event := by
  intro start stop hop
  have hsurface := surfaceOpOf_some hop
  unfold isSurfaceEvent at hsurface
  rw [hplain] at hsurface
  cases hsurface

theorem MeteredMore.plain (hplain : ∀ event ∈ more, isSurfaceEligibleType event.type = false) :
    MeteredMore log more := by
  intro before event after heq
  apply Metered.plain
  apply hplain
  rw [heq]
  exact mem_append_right _ mem_cons_self

/-! ## Runs of the projections -/

def eventsOf (log : List MeteredEvent) : List SessionEvent := log.map (·.event)

theorem eventsOf_snoc (log : List MeteredEvent) (e : MeteredEvent) :
    eventsOf (log ++ [e]) = eventsOf log ++ [e.event] := by
  unfold eventsOf
  rw [map_append]
  rfl

def breakdownAfter (log : List MeteredEvent) : Except JsError ContextBreakdownState :=
  log.foldlM ContextBreakdownState.apply {}

def pressureAfter (log : List MeteredEvent) : Except JsError ContextPressureState :=
  log.foldlM ContextPressureState.apply {}

theorem foldlM_snoc {σ : Type} (apply : σ → MeteredEvent → Except JsError σ) (start : σ)
    (log : List MeteredEvent) (e : MeteredEvent) :
    (log ++ [e]).foldlM apply start = log.foldlM apply start >>= (apply · e) := by
  rw [foldlM_append]
  simp only [foldlM_cons, foldlM_nil]
  exact congrArg _ (funext fun state => bind_pure _)

def MeteredEvent.arms (e : MeteredEvent) : Option ShadowPriceClaim :=
  match e.data with
  | .shadowPrice claim => some claim
  | _ => none

def armed (log : List MeteredEvent) : Option ShadowPriceClaim := log.getLast?.bind MeteredEvent.arms

theorem armed_snoc (log : List MeteredEvent) (e : MeteredEvent) : armed (log ++ [e]) = e.arms := by
  unfold armed
  rw [List.getLast?_concat]
  rfl

/-! ## Sums -/

theorem totalTokens_append (xs ys : List TokenSurfaceNode) :
    totalTokens (xs ++ ys) = totalTokens xs + totalTokens ys := by
  unfold totalTokens
  rw [map_append, sum_append]

theorem totalTokens_cons (x : TokenSurfaceNode) (xs : List TokenSurfaceNode) :
    totalTokens (x :: xs) = x.tokens + totalTokens xs := rfl

theorem totalTokens_range (nodes : List TokenSurfaceNode) {i j : Nat} (h : i ≤ j) :
    totalTokens nodes = totalTokens (nodes.take i) + totalTokens ((nodes.take (j + 1)).drop i)
      + totalTokens (nodes.drop (j + 1)) := by
  have hhead : nodes.take (j + 1) = nodes.take i ++ (nodes.take (j + 1)).drop i := by
    have := take_append_drop i (nodes.take (j + 1))
    rwa [take_take, Nat.min_eq_left (by omega : i ≤ j + 1), eq_comm] at this
  calc totalTokens nodes = totalTokens (nodes.take (j + 1) ++ nodes.drop (j + 1)) := by rw [take_append_drop]
    _ = totalTokens (nodes.take (j + 1)) + totalTokens (nodes.drop (j + 1)) := totalTokens_append _ _
    _ = _ := by rw [congrArg totalTokens hhead, totalTokens_append]

/-! ## One event -/

variable {claim : ShadowPriceClaim}

theorem shadowPrice_plain (h : meterData? event = some (.shadowPrice claim)) :
    isSurfaceEligibleType event.type = false := by
  have htype : event.type = "compaction/summary" ∨ event.type = "compaction/prune" := by
    by_contra hne
    unfold meterData? at h
    rw [if_neg hne] at h
    -- no other type is read as a metering event
    split at h
    · simp only [Option.bind_eq_bind, Option.bind_eq_some_iff, Option.pure_def, Option.some.injEq,
        reduceCtorEq, and_false, exists_false] at h
    · split at h
      · simp only [Option.bind_eq_bind, Option.bind_eq_some_iff, Option.pure_def, Option.some.injEq,
          reduceCtorEq, and_false, exists_false] at h
      · split at h
        · simp only [Option.bind_eq_bind, Option.bind_eq_some_iff] at h
          obtain ⟨chunk, -, h⟩ := h
          split at h
          · simp only [Option.bind_eq_some_iff, Option.pure_def, Option.some.injEq, reduceCtorEq,
              and_false, exists_false] at h
          · cases h
        · split at h
          · simp only [Option.bind_eq_bind, Option.bind_eq_some_iff, Option.pure_def, Option.some.injEq,
              reduceCtorEq, and_false, exists_false] at h
          · cases h
  rcases htype with htype | htype <;> rw [htype] <;> decide

variable {e : MeteredEvent}

theorem MeteredEvent.arms_eq_some (h : e.arms = some claim) : meterData? e.event = some (.shadowPrice claim) := by
  rw [e.typed]
  unfold arms at h
  split at h
  · next claim' hdata => rw [hdata, Option.some.inj h]
  · cases h

theorem foldSurfaceProjection_unarming (h : e.arms = none) (claim : Option ShadowPriceClaim) :
    foldSurfaceProjection claim e =
      if isSurfaceEvent e.event then do
        let tokens ← priceEvent estimateMessage e.event
        match ← surfaceOpOf e.event with
        | some (.replace start stop) =>
          match claim with
          | none => return { deltaTokens := 0, claim := none }
          | some claim =>
            if claim.start ≠ start ∨ claim.stop ≠ stop then
              throw (.error (s!"token surface: replace at seq {e.event.seq} over range {start}-{stop} "
                ++ s!"has no adjacent shadow price (armed claim covers {claim.start}-{claim.stop})"))
            else return { deltaTokens := tokens - claim.tokens, claim := none }
        | _ => return { deltaTokens := tokens, claim := none }
      else .ok { deltaTokens := 0, claim := none } := by
  unfold foldSurfaceProjection
  unfold arms at h
  split
  · next claim' hdata =>
    rw [hdata] at h
    cases h
  · rfl

/-- **One step.**  On a metered log an event changes a running total as it changes the priced surface's. -/
theorem foldSurfaceProjection_spec {log : List MeteredEvent} {state : SurfaceFoldState}
    {rs : List SurfaceFoldReplacement} {nodes : List TokenSurfaceNode}
    (haccepted : surfaceAfter (eventsOf (log ++ [e])) = .ok (state, rs))
    (hmetered : Metered (eventsOf log) e.event)
    (hnodes : measuredNodes estimateMessage (eventsOf log) = .ok nodes) :
    ∃ nodes' fold, measuredNodes estimateMessage (eventsOf (log ++ [e])) = .ok nodes'
      ∧ foldSurfaceProjection (armed log) e = .ok fold ∧ fold.claim = armed (log ++ [e])
      ∧ (totalTokens nodes' : Int) = totalTokens nodes + fold.deltaTokens := by
  rw [eventsOf_snoc] at haccepted ⊢
  rw [armed_snoc]
  obtain ⟨before, rs₀, plan, hbefore, hplan, -, -⟩ := surfaceAfter_snoc_ok haccepted
  cases harms : e.arms with
  | some claim =>
    refine ⟨nodes, ⟨0, some claim⟩, ?_, ?_, rfl, (Int.add_zero _).symm⟩
    · rw [measuredNodes_plain _ _ (shadowPrice_plain (arms_eq_some harms)), hnodes]
    · have hdata : e.data = .shadowPrice claim :=
        Option.some.inj (e.typed.symm.trans (arms_eq_some harms))
      rw [foldSurfaceProjection, hdata]
  | none =>
    rw [foldSurfaceProjection_unarming harms, measuredNodes_snoc, hnodes, ok_bind]
    obtain ⟨hseq, hsurface, -⟩ := planSurfaceEvent_spec hplan
    unfold planSurfaceEvent at hplan
    rw [if_neg (fun hne => hne hseq), bind_eq_ok_iff] at hplan
    obtain ⟨op, hop, hplan⟩ := hplan
    cases op with
    | none =>
      simp only [pure_eq_ok, Except.ok.injEq] at hplan
      subst hplan
      rw [hsurface]
      exact ⟨nodes, ⟨0, none⟩, rfl, rfl, rfl, (Int.add_zero _).symm⟩
    | some op =>
      have hpriced := e.priced (surfaceOpOf_some hop)
      rw [surfaceOpOf_some hop, if_pos rfl, if_pos rfl]
      unfold foldSurfaceTokens
      rw [hpriced, hop]
      simp only [ok_bind]
      cases op with
      | append =>
        refine ⟨nodes ++ [{ seq := e.event.seq, tokens := e.price }], ⟨e.price, none⟩, rfl, rfl, rfl, ?_⟩
        rw [totalTokens_append, totalTokens_cons]
        simp [totalTokens]
      | replace start stop =>
        -- the claim that is armed is the one of the event before, which names this range
        obtain ⟨earlier, record, tokens, hlast, hrecord, hprice⟩ := hmetered start stop hop
        obtain ⟨removed, hrange, htokens⟩ := hprice nodes hnodes
        have harmed : armed log = some ⟨start, stop, tokens⟩ := by
          rcases eq_nil_or_concat log with rfl | ⟨log', last, rfl⟩
          · cases earlier <;> cases hlast
          · rw [concat_eq_append] at hlast ⊢
            rw [eventsOf_snoc] at hlast
            obtain ⟨-, hevent⟩ := append_inj' hlast rfl
            have hlastEvent : last.event = record := (List.cons.inj hevent).1
            rw [armed_snoc]
            have htyped := last.typed
            rw [hlastEvent, hrecord] at htyped
            unfold arms
            rw [← Option.some.inj htyped]
        rw [harmed]
        dsimp only
        rw [if_neg (by simp)]
        unfold rangeNodes at hrange
        cases hstart : nodes.findIdx? (·.seq = start) with
        | none =>
          rw [hstart] at hrange
          cases hrange
        | some startIdx =>
          cases hstop : nodes.findIdx? (·.seq = stop) with
          | none =>
            rw [hstart, hstop] at hrange
            cases hrange
          | some endIdx =>
            rw [hstart, hstop] at hrange
            dsimp only at hrange ⊢
            split at hrange
            · cases hrange
            · next hle =>
              rw [if_neg hle]
              refine ⟨_, ⟨e.price - tokens, none⟩, rfl, rfl, rfl, ?_⟩
              have htotal := totalTokens_range nodes (Nat.le_of_not_lt hle)
              rw [Option.some.inj hrange] at htotal
              rw [totalTokens_append, totalTokens_cons]
              show ((_ + (e.price + _) : Nat) : Int) = _ + ((e.price : Int) - tokens)
              omega

/-! ## The projections -/

theorem ContextBreakdownState.apply_spec {state : ContextBreakdownState} {fold : SurfaceTokensFold}
    (h : foldSurfaceProjection state.claim e = .ok fold) :
    ∃ state', state.apply e = .ok state' ∧ state'.messageTokens = state.messageTokens + fold.deltaTokens
      ∧ state'.claim = fold.claim := by
  unfold apply
  rw [h, ok_bind]
  dsimp only
  split
  · next hsame =>
    obtain ⟨-, -, hdelta, hclaim, hnone⟩ := hsame
    refine ⟨state, rfl, ?_, ?_⟩
    · rw [hdelta, Int.add_zero]
    · rw [hclaim, hnone]
  · exact ⟨_, rfl, rfl, rfl⟩

namespace ContextPressureState

theorem seeContext_frame (state : ContextPressureState) (data : MeterData) :
    (state.seeContext data).surfaceTokens = state.surfaceTokens := by
  cases data <;> rfl

theorem seeUsage_frame (state : ContextPressureState) (data : MeterData) :
    (state.seeUsage data).surfaceTokens = state.surfaceTokens := by
  cases data with
  | usage usage =>
    cases usage with
    | none => rfl
    | some usage =>
      show (if _ then _ else state).surfaceTokens = _
      split <;> rfl
  | _ => rfl

theorem see_claim (state : ContextPressureState) (data : MeterData) :
    ((state.seeContext data).seeUsage data).claim = state.claim := by
  cases data with
  | usage usage =>
    cases usage with
    | none => rfl
    | some usage =>
      show (if _ then _ else state).claim = _
      split <;> rfl
  | _ => rfl

theorem apply_spec {state : ContextPressureState} {fold : SurfaceTokensFold}
    (h : foldSurfaceProjection state.claim e = .ok fold) :
    ∃ state', state.apply e = .ok state' ∧ state'.surfaceTokens = state.surfaceTokens + fold.deltaTokens
      ∧ state'.claim = fold.claim := by
  unfold apply
  rw [h, ok_bind]
  have htokens : ((state.seeContext e.data).seeUsage e.data).surfaceTokens = state.surfaceTokens := by
    rw [seeUsage_frame, seeContext_frame]
  have hclaim := see_claim state e.data
  dsimp only
  by_cases hdelta : fold.deltaTokens = 0
  · rw [if_neg (not_not.mpr hdelta)]
    split
    · next hnone =>
      refine ⟨_, rfl, ?_, ?_⟩
      · rw [htokens, hdelta, Int.add_zero]
      · rw [hclaim, hnone.1, hnone.2]
    · refine ⟨_, rfl, ?_, rfl⟩
      show ((state.seeContext e.data).seeUsage e.data).surfaceTokens = _
      rw [htokens, hdelta, Int.add_zero]
  · rw [if_pos hdelta]
    split
    · next hnone =>
      refine ⟨_, rfl, ?_, ?_⟩
      · show ((state.seeContext e.data).seeUsage e.data).surfaceTokens + fold.deltaTokens = _
        rw [htokens]
      · show ((state.seeContext e.data).seeUsage e.data).claim = fold.claim
        rw [hclaim, hnone.1, hnone.2]
    · refine ⟨_, rfl, ?_, rfl⟩
      show ((state.seeContext e.data).seeUsage e.data).surfaceTokens + fold.deltaTokens = _
      rw [htokens]

end ContextPressureState

/-! ## A whole log -/

/-- The surface can be priced, no projection throws, and their totals are its price. -/
def TotalsAgree (log : List MeteredEvent) : Prop :=
  ∃ nodes breakdown pressure, measuredNodes estimateMessage (eventsOf log) = .ok nodes
    ∧ breakdownAfter log = .ok breakdown ∧ pressureAfter log = .ok pressure
    ∧ breakdown.messageTokens = totalTokens nodes ∧ pressure.surfaceTokens = totalTokens nodes
    ∧ breakdown.claim = armed log ∧ pressure.claim = armed log

theorem totalsAgree_of_metered {log : List MeteredEvent} {state : SurfaceFoldState}
    {rs : List SurfaceFoldReplacement} (haccepted : surfaceAfter (eventsOf log) = .ok (state, rs))
    (hmetered : FullyMetered (eventsOf log)) : TotalsAgree log := by
  induction log using List.reverseRecOn generalizing state rs with
  | nil => exact ⟨[], {}, {}, rfl, rfl, rfl, rfl, rfl, rfl, rfl⟩
  | append_singleton log e ih =>
    have hsplit := eventsOf_snoc log e
    obtain ⟨before, rs₀, hbefore, -⟩ := surfaceAfter_prefix (hsplit ▸ haccepted)
    obtain ⟨nodes, breakdown, pressure, hnodes, hbreakdown, hpressure, htotal, htotal', hclaim, hclaim'⟩ :=
      ih hbefore (FullyMetered.prefix_of (hsplit ▸ hmetered))
    have hmeteredHere : Metered (eventsOf log) e.event := by
      apply hmetered (eventsOf log) e.event []
      exact hsplit
    obtain ⟨nodes', fold, hnodes', hfold, hnext, hdelta⟩ := foldSurfaceProjection_spec haccepted hmeteredHere hnodes
    obtain ⟨breakdown', hstep, htokens, hstepClaim⟩ := ContextBreakdownState.apply_spec (hclaim ▸ hfold)
    obtain ⟨pressure', hstep', htokens', hstepClaim'⟩ := ContextPressureState.apply_spec (hclaim' ▸ hfold)
    refine ⟨nodes', breakdown', pressure', hnodes', ?_, ?_, ?_, ?_, ?_, ?_⟩
    · unfold breakdownAfter at hbreakdown ⊢
      rw [foldlM_snoc, hbreakdown, ok_bind, hstep]
    · unfold pressureAfter at hpressure ⊢
      rw [foldlM_snoc, hpressure, ok_bind, hstep']
    · rw [htokens, htotal, hdelta]
    · rw [htokens', htotal', hdelta]
    · rw [hstepClaim, hnext]
    · rw [hstepClaim', hnext]

end CocoHarness.TokenMeter
