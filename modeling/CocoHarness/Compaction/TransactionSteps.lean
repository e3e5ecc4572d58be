/-
# CocoHarness.Compaction.TransactionSteps — what each part of a transaction does to the session.

Reading leaves the log as it is, and an append makes it longer by one event or leaves it (`Appended`).
-/
import CocoHarness.Compaction.Transaction
import CocoHarness.Compaction.Retention

namespace CocoHarness.Compaction

open Lib SessionLog List

/-! ## Pricing the surface -/

theorem measuredNodes_snoc (estimate : Json → Except JsError Nat) (log : List SessionEvent) (event : SessionEvent) :
    measuredNodes estimate (log ++ [event]) = measuredNodes estimate log >>= fun nodes =>
      if isSurfaceEvent event then foldSurfaceTokens estimate nodes event else .ok nodes := by
  unfold measuredNodes
  rw [foldlM_append]
  cases List.foldlM (fun nodes event =>
      if isSurfaceEvent event then foldSurfaceTokens estimate nodes event else .ok nodes) [] log with
  | error e => rfl
  | ok nodes =>
    simp only [ok_bind, foldlM_cons, foldlM_nil]
    split
    · exact bind_pure _
    · rfl

theorem findIdx?_seq (nodes : List TokenSurfaceNode) (seq : Int) :
    nodes.findIdx? (·.seq = seq) = (nodes.map (·.seq)).idxOf? seq := by
  induction nodes with
  | nil => rfl
  | cons node rest ih =>
    rw [map_cons, idxOf?_cons, findIdx?_cons, ih]
    by_cases heq : node.seq = seq
    · simp [heq]
    · simp [heq]

variable {estimate : Json → Except JsError Nat} {state : SurfaceFoldState} {rs : List SurfaceFoldReplacement}
  {nodes : List TokenSurfaceNode}

/-- **The priced surface is the surface.** -/
theorem measuredNodes_seqs {log : List SessionEvent}
    (hlog : surfaceAfter log = .ok (state, rs)) (hnodes : measuredNodes estimate log = .ok nodes) :
    nodes.map (·.seq) = state.nodes := by
  induction log using List.reverseRecOn generalizing state rs nodes with
  | nil =>
    cases hlog
    cases hnodes
    rfl
  | append_singleton log event ih =>
    rw [measuredNodes_snoc, bind_eq_ok_iff] at hnodes
    obtain ⟨before, hbefore, hfold⟩ := hnodes
    obtain ⟨state₀, rs₀, plan, hlog₀, hplan, rfl, -⟩ := surfaceAfter_snoc_ok hlog
    have hsame := ih hlog₀ hbefore
    obtain ⟨hseq, hsurface, -⟩ := planSurfaceEvent_spec hplan
    unfold planSurfaceEvent at hplan
    rw [if_neg (fun hne => hne hseq), bind_eq_ok_iff] at hplan
    obtain ⟨op, hop, hplan⟩ := hplan
    cases op with
    | none =>
      -- the event is not of the surface
      simp only [pure_eq_ok, Except.ok.injEq] at hplan
      subst hplan
      rw [hsurface] at hfold
      cases hfold
      exact hsame
    | some op =>
      rw [surfaceOpOf_some hop, if_pos rfl] at hfold
      unfold foldSurfaceTokens at hfold
      rw [bind_eq_ok_iff] at hfold
      obtain ⟨tokens, -, hfold⟩ := hfold
      rw [hop, ok_bind] at hfold
      cases op with
      | append =>
        simp only [bind_eq_ok_iff, pure_eq_ok, Except.ok.injEq] at hplan
        obtain ⟨_, -, rfl⟩ := hplan
        cases hfold
        simp only [map_append, map_cons, map_nil, applySurfacePlan, hsame]
      | replace start stop =>
        simp only [bind_eq_ok_iff, pure_eq_ok, Except.ok.injEq] at hplan
        obtain ⟨range, hrange, _, -, _, -, rfl⟩ := hplan
        dsimp only at hfold
        rw [findIdx?_seq, findIdx?_seq, hsame] at hfold
        unfold replacementRange at hrange
        cases hstart : state₀.nodes.idxOf? start with
        | none =>
          rw [hstart] at hrange
          cases hrange
        | some startIdx =>
          cases hstop : state₀.nodes.idxOf? stop with
          | none =>
            rw [hstart, hstop] at hrange
            cases hrange
          | some endIdx =>
            rw [hstart, hstop] at hrange hfold
            dsimp only at hrange hfold
            split at hrange
            · cases hrange
            · next hle =>
              cases hrange
              rw [if_neg (by omega : ¬ startIdx > endIdx)] at hfold
              cases hfold
              simp only [map_append, map_cons, map_take, map_drop, hsame, applySurfacePlan]
              rw [show startIdx + (endIdx - startIdx + 1) = endIdx + 1 by omega]

theorem measure_ok {rest : Except JsError Unit} {log : List SessionEvent}
    (h : thrown (measure estimate rest log) = .ok nodes) : measuredNodes estimate log = .ok nodes := by
  unfold measure at h
  cases rest with
  | error e => cases h
  | ok _ =>
    rw [ok_bind] at h
    cases hnodes : measuredNodes estimate log with
    | error e =>
      rw [hnodes] at h
      cases h
    | ok nodes' =>
      rw [hnodes] at h
      cases h
      rfl

/-! ## Events that are not of the surface -/

variable {event : SessionEvent}

theorem surfaceAfter_plain {log : List SessionEvent} {state' : SurfaceFoldState}
    {rs' : List SurfaceFoldReplacement} (hlog : surfaceAfter log = .ok (state, rs))
    (hlog' : surfaceAfter (log ++ [event]) = .ok (state', rs'))
    (hplain : isSurfaceEligibleType event.type = false) : state' = state := by
  obtain ⟨state₀, rs₀, plan, hlog₀, hplan, rfl, -⟩ := surfaceAfter_snoc_ok hlog'
  cases hlog.symm.trans hlog₀
  obtain ⟨-, hsurface, -⟩ := planSurfaceEvent_spec hplan
  have hno : isSurfaceEvent event = false := by
    unfold isSurfaceEvent
    rw [hplain, Bool.false_and]
  rw [hno] at hsurface
  cases plan with
  | none => rfl
  | some plan => cases hsurface

theorem measuredNodes_plain (estimate : Json → Except JsError Nat) (log : List SessionEvent) (hplain : isSurfaceEligibleType event.type = false) :
    measuredNodes estimate (log ++ [event]) = measuredNodes estimate log := by
  rw [measuredNodes_snoc]
  unfold isSurfaceEvent
  rw [hplain, Bool.false_and]
  cases measuredNodes estimate log <;> rfl

/-! ## Going on -/

namespace PairedSession

variable {p p' p'' : PairedSession}

theorem Reachable.step (h : p.Reachable) (op : PairingOp) : (pairingStep p op).1.Reachable := by
  obtain ⟨hs, ops⟩ := h
  rename_i s
  have hlonger := Machine.run_append pairingStep { session := s } ops [op]
  rw [show (pairingStep (Machine.run pairingStep { session := s } ops).1 op).1
    = (Machine.run pairingStep { session := s } (ops ++ [op])).1 from (congrArg Prod.fst hlonger).symm]
  exact .run hs (ops ++ [op])

theorem extend_reachable (h : p.session.Reachable) (cache : BalanceCache) (seqs : List Int) :
    (p.extend cache seqs).1.session.Reachable := by
  have hread : (extendCache p.session cache seqs).1 = p.session.events.1 := by
    unfold extendCache
    dsimp only
    split <;> rfl
  have hreached : (extendCache p.session cache seqs).1.Reachable := by
    rw [hread]
    exact h.step .readEvents
  unfold extend
  split
  · next heq =>
    rw [heq] at hreached
    exact hreached
  · next heq =>
    rw [heq] at hreached
    exact hreached

theorem balanced_reachable (h : p.session.Reachable) (seq : Int) (side : CutSide) :
    (p.toolPairingBalanced seq side).1.session.Reachable := by
  have hread : p.session.surface.1.Reachable := h.step .readSurface
  have hcache : p.balanceCache.1.session.Reachable := by
    unfold balanceCache
    split
    · next hsurface =>
      rw [hsurface] at hread
      exact hread
    · next hsurface =>
      rw [hsurface] at hread
      dsimp only
      split
      · exact extend_reachable hread _ _
      · split
        · exact extend_reachable hread _ _
        · split
          · exact extend_reachable hread _ _
          · exact hread
  unfold toolPairingBalanced
  split
  · next heq =>
    rw [heq] at hcache
    exact hcache
  · next heq =>
    rw [heq] at hcache
    exact hcache

theorem Reachable.session (h : p.Reachable) : p.session.Reachable := by
  obtain ⟨hs, ops⟩ := h
  rename_i s
  refine Machine.run_invariant (I := fun p : PairedSession => p.session.Reachable) (fun p op hp => ?_) hs ops
  cases op with
  | session op => exact hp.step op
  | balanced seq side => exact balanced_reachable hp seq side

def log (p : PairedSession) : List SessionEvent := eventsOf p.session.log

theorem Reachable.accepted (h : p.Reachable) : ∃ state rs, surfaceAfter p.log = .ok (state, rs) := by
  obtain ⟨a, ha⟩ := h.synced
  obtain ⟨state, rs, -, hlog, -⟩ := ha.session.surface_state
  have hsame : p.log = a.log := ha.session.log
  exact ⟨state, rs, by rw [hsame, hlog]⟩

structure Appended (p p' : PairedSession) (more : List SessionEvent) : Prop where
  reached : p'.Reachable
  log : p'.log = p.log ++ more

theorem Appended.refl (h : p.Reachable) : p.Appended p [] := ⟨h, (append_nil _).symm⟩

variable {more : List SessionEvent}

theorem Appended.trans {more' : List SessionEvent} (h : p.Appended p' more)
    (h' : p'.Appended p'' more') : p.Appended p'' (more ++ more') :=
  ⟨h'.reached, by rw [h'.log, h.log, append_assoc]⟩

theorem Appended.read (h : p.Appended p' []) (h' : p'.Appended p'' more) : p.Appended p'' more := by
  have := h.trans h'
  rwa [nil_append] at this

/-! ## Reading -/

theorem Reachable.step_log (h : p.Reachable) (op : PairingOp) : p.Appended (pairingStep p op).1 []
      ∨ ∃ request listeners event, op = .session (.append request listeners)
          ∧ event.type = request.type ∧ p.Appended (pairingStep p op).1 [event] := by
  have hreached := h.step op
  cases op with
  | session op =>
    rcases h.session.step_log op with hsame | ⟨request, listeners, event, rfl, htype, hlog⟩
    · exact .inl ⟨hreached, hsame.trans (append_nil _).symm⟩
    · exact .inr ⟨request, listeners, event, rfl, htype, hreached, hlog⟩
  | balanced seq side =>
    obtain ⟨a, ha⟩ := h.synced
    obtain ⟨state, rs, -, hlog, -⟩ := ha.session.surface_state
    obtain ⟨p', hp', hanswer⟩ := toolPairingBalanced_spec ha hlog seq side
    have hnext : (pairingStep p (.balanced seq side)).1 = p' := congrArg Prod.fst hanswer
    refine .inl ⟨hreached, ?_⟩
    rw [hnext, append_nil]
    exact hp'.session.log.trans ha.session.log.symm

theorem Reachable.surfaceNodes_reads (h : p.Reachable) :
    ∃ p' state rs, p.surfaceNodes = (p', .ok state.nodes) ∧ p.Appended p' []
      ∧ surfaceAfter p.log = .ok (state, rs) := by
  obtain ⟨a, ha⟩ := h.synced
  obtain ⟨state, rs, s', hlog, hsurface, hs'⟩ := ha.session.surface_state
  refine ⟨{ p with session := s' }, state, rs, ?_, ⟨?_, ?_⟩, ?_⟩
  · unfold surfaceNodes
    rw [hsurface]
    rfl
  · have hread := h.step (.session .readSurface)
    rw [show (pairingStep p (.session .readSurface)).1 = { p with session := p.session.surface.1 } from rfl,
      hsurface] at hread
    exact hread
  · rw [append_nil]
    exact hs'.log.trans ha.session.log.symm
  · have hsame : p.log = a.log := ha.session.log
    rw [hsame, hlog]

theorem Reachable.events_reads (h : p.Reachable) : p.events.2 = p.log ∧ p.Appended p.events.1 [] := by
  obtain ⟨a, ha⟩ := h.synced
  obtain ⟨hevents, hs'⟩ := ha.session.events
  refine ⟨hevents.trans ha.session.log.symm, h.step (.session .readEvents), ?_⟩
  rw [append_nil]
  exact hs'.log.trans ha.session.log.symm

theorem Reachable.balanced_reads (h : p.Reachable) (seq : Int) (side : CutSide) :
    p.Appended (p.toolPairingBalanced seq side).1 [] := by
  rcases h.step_log (.balanced seq side) with hread | ⟨_, _, _, hop, -⟩
  · exact hread
  · cases hop

end PairedSession

/-- A selection is the span of some surface between two of its nodes. -/
structure SurfaceSelection.Spans (selection : SurfaceSelection) (nodes : List Int) (start stop : Int) : Prop where
  ends : selection.start = start ∧ selection.stop = stop
  first : nodes[selection.startIdx]? = some start
  last : nodes[selection.endIdx]? = some stop
  ordered : selection.startIdx ≤ selection.endIdx
  seqs : selection.shadowedSeqs = (nodes.take (selection.endIdx + 1)).drop selection.startIdx

theorem getElem?_of_idxOf? {nodes : List Int} {seq : Int} {index : Nat}
    (h : nodes.idxOf? seq = some index) : nodes[index]? = some seq := by
  obtain ⟨hlt, hseq, -⟩ := idxOf?_eq_some_iff.mp h
  rw [getElem?_eq_getElem hlt]
  exact congrArg some hseq

namespace PairedSession

variable {p p' : PairedSession}

/-- **What the validator accepts** is a span of the surface as it stands. -/
theorem Reachable.validate_reads (h : p.Reachable) (start stop : Int) :
    p.Appended (p.validateSurfaceRegion start stop).1 []
      ∧ ∀ selection, (p.validateSurfaceRegion start stop).2 = .ok selection →
        ∃ state rs, surfaceAfter p.log = .ok (state, rs) ∧ selection.Spans state.nodes start stop := by
  obtain ⟨p₁, state, rs, hnodes, hread, hlog⟩ := h.surfaceNodes_reads
  unfold validateSurfaceRegion
  rw [hnodes]
  dsimp only
  cases hstart : state.nodes.idxOf? start with
  | none => exact ⟨hread, nofun⟩
  | some startIdx =>
    cases hstop : state.nodes.idxOf? stop with
    | none => exact ⟨hread, nofun⟩
    | some endIdx =>
      dsimp only
      by_cases hle : startIdx > endIdx
      · rw [if_pos hle]
        exact ⟨hread, nofun⟩
      · rw [if_neg hle]
        have hbefore := hread.reached.balanced_reads start .before
        cases hquery : p₁.toolPairingBalanced start .before with
        | mk p₂ answer =>
          rw [hquery] at hbefore
          cases answer with
          | error e => exact ⟨hread.read hbefore, nofun⟩
          | ok balanced =>
            cases balanced with
            | false => exact ⟨hread.read hbefore, nofun⟩
            | true =>
              dsimp only
              have hafter := hbefore.reached.balanced_reads stop .after
              cases hquery' : p₂.toolPairingBalanced stop .after with
              | mk p₃ answer' =>
                rw [hquery'] at hafter
                have hreads := hread.read (hbefore.read hafter)
                cases answer' with
                | error e => exact ⟨hreads, nofun⟩
                | ok balanced' =>
                  cases balanced' with
                  | false => exact ⟨hreads, nofun⟩
                  | true =>
                    refine ⟨hreads, ?_⟩
                    rintro selection ⟨⟩
                    refine ⟨state, rs, hlog, ⟨rfl, rfl⟩, ?_, ?_, Nat.le_of_not_lt hle, rfl⟩
                    · exact getElem?_of_idxOf? hstart
                    · exact getElem?_of_idxOf? hstop

/-! ## Appending -/

theorem Reachable.append_cases (h : p.Reachable) (request : AppendRequest) (listeners : Listeners) :
    (∃ q event, p.append request listeners = (q, .ok event) ∧ candidate p.log.length request = .ok event.event
        ∧ p.Appended q [event.event])
      ∨ ∃ q e, p.append request listeners = (q, .error e) ∧ p.Appended q [] := by
  have hreached : (p.append request listeners).1.Reachable := h.step (.session (.append request listeners))
  have hsession := h.session
  unfold append at *
  cases happend : p.session.append request listeners with
  | mk session result =>
    rw [happend] at hreached
    cases result with
    | error e =>
      refine .inr ⟨_, e, rfl, hreached, ?_⟩
      rw [append_nil]
      exact hsession.append_error happend
    | ok event =>
      exact .inl ⟨_, event, rfl, hsession.append_candidate happend, hreached, (hsession.append_ok happend).1⟩

end PairedSession

end CocoHarness.Compaction
