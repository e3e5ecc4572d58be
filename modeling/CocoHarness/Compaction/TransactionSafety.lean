/-
# CocoHarness.Compaction.TransactionSafety — every start gets one attempt at its end.

What one part of a transaction can do is said once for each part (`begin_spec`, `summarized_spec`): which events it
logs, and that it attempts the end once.
-/
import CocoHarness.Compaction.TransactionLock

namespace CocoHarness.Compaction

open Lib SessionLog List Option Transaction

/-! ## The events of a transaction -/

variable {seq : Int} {request : AppendRequest} {event : SessionEvent}

theorem candidate_seq (h : candidate seq request = .ok event) : event.seq = seq := (candidate_spec h).1

theorem candidate_type (h : candidate seq request = .ok event) : event.type = request.type := (candidate_data h).1

theorem replacement_op {t : Transaction} {prepared : PreparedCompaction} {answer : SummaryResult} {summarySeq : Int} {now : EpochMs}
    (h : candidate seq (replacementRequest t prepared answer summarySeq now) = .ok event) :
    event.surfaceOp = some (.obj [("op", .str "replace"), ("start", .num (.int prepared.selection.start)),
      ("end", .num (.int prepared.selection.stop))]) := by
  obtain ⟨metadata, hmetadata, hop⟩ := candidate_surfaceOp h
  rw [hop]
  simp only [replacementRequest, SurfaceIntent.metadata, singleton_append, snapshotJsonValue,
    snapshotFields, bind_eq_bind, map_eq_some_iff, bind_eq_some_iff, rangeFields, jsInt,
    Option.some.injEq] at hmetadata
  obtain ⟨fields, ⟨sources, -, op, ⟨range, ⟨_, rfl, _, rfl, _, rfl, rfl⟩, rfl⟩, rfl⟩, rfl⟩ := hmetadata
  rfl

theorem surfaceOpOf_replacement {start stop : Int} {op : Option SurfaceOp}
    (heligible : isSurfaceEligibleType event.type = true)
    (hop : event.surfaceOp = some (.obj [("op", .str "replace"), ("start", .num (.int start)),
      ("end", .num (.int stop))]))
    (h : surfaceOpOf event = .ok op) : op = some (.replace start stop) := by
  unfold surfaceOpOf at h
  rw [if_neg (by rw [heligible]; decide), hop] at h
  dsimp only at h
  cases hrange : replaceOp? [("op", .str "replace"), ("start", .num (.int start)), ("end", .num (.int stop))] with
  | none =>
    rw [hrange] at h
    cases h
  | some range =>
    rw [hrange] at h
    cases h
    have hseq : ∀ n seq : Int, eventSeq? (.num (.int n)) = some seq → seq = n := by
      intro n seq heq
      unfold eventSeq? at heq
      obtain ⟨heq, -⟩ := filter_eq_some_iff.mp heq
      obtain ⟨heq, -⟩ := filter_eq_some_iff.mp heq
      exact (Option.some.inj heq).symm
    unfold replaceOp? at hrange
    simp only [length_cons, length_nil, List.lookup_cons, bind_eq_bind] at hrange
    simp [bind_eq_some_iff] at hrange
    obtain ⟨start', hstart, stop', hstop, rfl⟩ := hrange
    rw [hseq _ _ hstart, hseq _ _ hstop]

/-! ## Ending -/

def TransactionPoint.awaitsSummary : TransactionPoint → Bool
  | .summarizing _ => true
  | .flushing _ | .settled _ => false

def TransactionPoint.succeeded : TransactionPoint → Option CompactionResult
  | .flushing (.ok result) | .settled (.ok result) => some result
  | _ => none

/-- A transaction between its start and the attempt to log its end. -/
def Transaction.active (t : Transaction) : Bool := t.point.awaitsSummary

/-- One attempt to log the end: it is logged, or the append throws and nothing is. -/
inductive Attempt (log : List SessionEvent) : Except JsError Int → List SessionEvent → Prop
  | logged {event : SessionEvent} (htype : event.type = "compaction/end") (hseq : event.seq = log.length) :
      Attempt log (.ok event.seq) [event]
  | threw (e : JsError) : Attempt log (.error e) []

/-- The end is attempted once more, and the summary awaited no longer. -/
structure EndsIn (t t' : Transaction) (closing : Except JsError Int) : Prop where
  request : t'.request = t.request
  selection : t'.selection = t.selection
  startSeq : t'.startSeq = t.startSeq
  replacement : t'.replacement = t.replacement
  closings : t'.closings = t.closings ++ [closing]
  ended : t'.active = false

namespace Transaction

variable {p : PairedSession}

theorem conclude_ok {t : Transaction} {outcome : Except TransactionFailure CompactionResult}
    {flushFailure aborted : Option JsError} {result : CompactionResult}
    (h : t.conclude outcome flushFailure aborted = .ok result) : outcome = .ok result := by
  unfold conclude at h
  rw [bind_eq_ok_iff] at h
  obtain ⟨_, -, h⟩ := h
  cases outcome with
  | error failure =>
    dsimp only at h
    split at h <;> cases h
  | ok result' =>
    cases flushFailure with
    | some e => cases h
    | none =>
      cases h
      rfl

theorem attempted_spec (t : Transaction) (closing : Except JsError Int)
    (outcome : Except TransactionFailure CompactionResult) (aborted : Option JsError) :
    EndsIn t (t.attempted closing outcome aborted) closing
      ∧ ∀ result, (t.attempted closing outcome aborted).point.succeeded = some result → outcome = .ok result := by
  unfold attempted
  dsimp only
  split
  · refine ⟨⟨rfl, rfl, rfl, rfl, rfl, rfl⟩, fun result hresult => ?_⟩
    cases outcome with
    | error failure => cases hresult
    | ok result' =>
      cases hresult
      rfl
  · refine ⟨⟨rfl, rfl, rfl, rfl, rfl, rfl⟩, fun result hresult => ?_⟩
    cases hconclude : conclude { t with closings := t.closings ++ [closing] } outcome none aborted with
    | error e =>
      rw [hconclude] at hresult
      cases hresult
    | ok result' =>
      rw [hconclude] at hresult
      cases hresult
      exact conclude_ok hconclude

theorem fail_spec (t : Transaction) (h : p.Reachable) (failure : TransactionFailure) (close : CloseAnswers) :
    ∃ closing ends, EndsIn t (t.fail p failure close).2 closing ∧ Attempt p.log closing ends
      ∧ p.Appended (t.fail p failure close).1 ends ∧ (t.fail p failure close).2.point.succeeded = none := by
  have hnone : ∀ (closing : Except JsError Int) (failure : TransactionFailure),
      (t.attempted closing (.error failure) close.aborted).point.succeeded = none := by
    intro closing failure
    rw [eq_none_iff_forall_ne_some]
    intro result hsome
    cases (attempted_spec t closing (.error failure) close.aborted).2 result hsome
  unfold fail
  rcases h.append_cases (endRequest t (some (errorChain failure.error)) close.publication.now)
    close.publication.listeners with ⟨q, event, happend, hcandidate, happended⟩ | ⟨q, e, happend, happended⟩
  · rw [happend]
    dsimp only
    refine ⟨.ok event.event.seq, [event.event], (attempted_spec t _ _ _).1, ?_, happended, hnone _ _⟩
    exact .logged (candidate_type hcandidate) (candidate_seq hcandidate)
  · rw [happend]
    dsimp only
    exact ⟨.error e, [], (attempted_spec t _ _ _).1, .threw e, happended, hnone _ _⟩

end Transaction

/-! ## Beginning -/

structure PreparedCompaction.Fits (prepared : PreparedCompaction) (t : Transaction) : Prop where
  selection : prepared.selection = t.selection
  spans : t.selection.Spans (prepared.measurement.map (·.seq)) t.request.start t.request.stop
  nodes : prepared.selectedNodes = selectedSlice prepared.measurement t.selection
  seqs : prepared.selectedNodes.map (·.seq) = t.selection.shadowedSeqs
  price : prepared.shadowedTokenCount = totalTokens prepared.selectedNodes

/-- The log has, at a seq, an event that is so with the log before it. -/
def LoggedAt (log : List SessionEvent) (seq : Int) (P : List SessionEvent → SessionEvent → Prop) : Prop :=
  ∃ before event after, log = before ++ event :: after ∧ (before.length : Int) = seq ∧ P before event

theorem LoggedAt.mono {more : List SessionEvent} {log : List SessionEvent}
    {P : List SessionEvent → SessionEvent → Prop} (h : LoggedAt log seq P) :
    LoggedAt (log ++ more) seq P := by
  obtain ⟨before, event, after, rfl, hseq, hP⟩ := h
  exact ⟨before, event, after ++ more, by rw [append_assoc]; rfl, hseq, hP⟩

/-- The start of a transaction: the span is one of the surface, and no compaction is active. -/
structure Starts (t : Transaction) (before : List SessionEvent) (event : SessionEvent) : Prop where
  type : event.type = "compaction/start"
  seq : event.seq = t.startSeq
  inactive : activeCompaction before = none
  span : ∃ state rs, surfaceAfter before = .ok (state, rs)
    ∧ t.selection.Spans state.nodes t.request.start t.request.stop

namespace PairedSession

variable {p : PairedSession}

theorem Reachable.enter_spec (h : p.Reachable) (request : CompactionRequest) (aborted : Option JsError) :
    p.Appended (p.enter request aborted).1 []
      ∧ ∀ selection owner, (p.enter request aborted).2 = .ok (selection, owner) →
        activeCompaction p.log = none ∧ ∃ state rs, surfaceAfter p.log = .ok (state, rs)
          ∧ selection.Spans state.nodes request.start request.stop := by
  obtain ⟨state, rs, hlog⟩ := h.accepted
  obtain ⟨hread, hvalid⟩ := h.validate_reads request.start request.stop
  unfold enter
  cases throwIfAborted request.manual aborted with
  | error e => exact ⟨.refl h, nofun⟩
  | ok _ =>
    cases hvalidate : p.validateSurfaceRegion request.start request.stop with
    | mk p₁ result =>
      rw [hvalidate] at hread hvalid
      cases result with
      | error e => exact ⟨hread, nofun⟩
      | ok selection =>
        obtain ⟨hevents, hread'⟩ := hread.reached.events_reads
        refine ⟨hread.read hread', ?_⟩
        intro selection' owner hok
        simp only [bind_eq_ok_iff, pure_eq_ok, Except.ok.injEq, Prod.mk.injEq] at hok
        obtain ⟨entryState, hinspect, _, hinactive, _, -, rfl, rfl⟩ := hok
        refine ⟨?_, hvalid _ rfl⟩
        have hsame : p₁.events.2 = p.log := by rw [hevents, hread.log, append_nil]
        rw [hsame] at hinspect
        cases hscan : inspectCompactionEntryState p.log with
        | error e =>
          rw [hscan] at hinspect
          cases hinspect
        | ok entryState' =>
          rw [hscan] at hinspect
          cases hinspect
          exact (compactionInactive_iff hlog hscan "compaction").mp hinactive

/-- **What beginning does.**  The start is logged, or nothing; the transaction awaits its summary or has ended. -/
theorem Reachable.begin_spec (h : p.Reachable) (estimate : Json → Except JsError Nat) (request : CompactionRequest)
    (answers : BeginAnswers) :
    (∃ e, (p.begin estimate request answers).2 = .error e ∧ p.Appended (p.begin estimate request answers).1 [])
      ∨ ∃ t start ends, (p.begin estimate request answers).2 = .ok t
        ∧ p.Appended (p.begin estimate request answers).1 (start :: ends)
        ∧ Starts t p.log start ∧ t.startSeq = p.log.length ∧ t.replacement = none
        ∧ ((∃ prepared, t.point = .summarizing prepared ∧ prepared.Fits t ∧ t.closings = [] ∧ ends = [])
          ∨ t.active = false ∧ t.point.succeeded = none ∧ ∃ closing, t.closings = [closing]
            ∧ Attempt (p.log ++ [start]) closing ends) := by
  obtain ⟨hread, henters⟩ := h.enter_spec request answers.aborted
  unfold begin
  cases henter : p.enter request answers.aborted with
  | mk p₁ result =>
    rw [henter] at hread henters
    cases result with
    | error e => exact .inl ⟨e, rfl, hread⟩
    | ok entered =>
      obtain ⟨selection, owner⟩ := entered
      obtain ⟨hinactive, state, rs, hlog, hspans⟩ := henters selection owner rfl
      have hsame : p₁.log = p.log := by rw [hread.log, append_nil]
      rcases hread.reached.append_cases (startRequest request owner answers.publication.now)
          answers.publication.listeners with
        ⟨p₂, event, hstart, hcandidate, happended⟩ | ⟨p₂, e, hstart, happended⟩
      · simp only [hstart]
        obtain ⟨hevents, hread'⟩ := happended.reached.events_reads
        have htype : event.event.type = "compaction/start" := candidate_type hcandidate
        have hseq : event.event.seq = p.log.length := by rw [candidate_seq hcandidate, hsame]
        have hstarted : p.Appended p₂.events.1 [event.event] := by
          have := (hread.read happended).trans hread'
          rwa [append_nil] at this
        have hlog₂ : p₂.events.2 = p.log ++ [event.event] := by rw [hevents, (hread.read happended).log]
        cases hprepare : prepareCompaction estimate p₂.events.2 selection answers with
        | error e =>
          -- preparing throws: the end is attempted at once
          let t : Transaction :=
            { request, owner, selection, startSeq := event.event.seq, point := .flushing (.error ⟨e, .summary⟩) }
          obtain ⟨closing, ends, hends, hattempt, happended', hnone⟩ :=
            t.fail_spec hstarted.reached ⟨e, .summary⟩ answers.close
          refine .inr ⟨_, event.event, ends, rfl, hstarted.trans happended', ?_, ?_, ?_, .inr ?_⟩
          · refine ⟨htype, hends.startSeq.symm, hinactive, state, rs, hlog, ?_⟩
            show (t.fail _ _ _).2.selection.Spans _ (t.fail _ _ _).2.request.start
              (t.fail _ _ _).2.request.stop
            rw [hends.selection, hends.request]
            exact hspans
          · exact hends.startSeq.trans hseq
          · exact hends.replacement
          · refine ⟨hends.ended, hnone, closing, hends.closings, ?_⟩
            rw [← hstarted.log]
            exact hattempt
        | ok prepared =>
          refine .inr ⟨_, event.event, [], rfl, hstarted, ⟨htype, rfl, hinactive, state, rs, hlog, hspans⟩,
            hseq, rfl, .inl ⟨prepared, rfl, ?_, rfl, rfl⟩⟩
          -- the start is not of the surface: what is measured is the surface of the selection
          obtain ⟨state', rs', hlog'⟩ := hstarted.reached.accepted
          rw [hstarted.log] at hlog'
          have hsurface := surfaceAfter_plain hlog hlog' (by rw [htype]; decide)
          unfold prepareCompaction at hprepare
          rw [bind_eq_ok_iff] at hprepare
          obtain ⟨measurement, hmeasure, hprepare⟩ := hprepare
          dsimp only at hprepare
          split at hprepare
          · cases hprepare
          · next hmatch =>
            simp only [bind_eq_ok_iff, pure_eq_ok, Except.ok.injEq] at hprepare
            obtain ⟨_, -, rfl⟩ := hprepare
            rw [hlog₂] at hmeasure
            have hnodes : measurement.map (·.seq) = state.nodes := by
              rw [measuredNodes_seqs hlog' (measure_ok hmeasure), hsurface]
            refine ⟨rfl, ?_, rfl, not_not.mp hmatch, rfl⟩
            show selection.Spans (measurement.map (·.seq)) _ _
            rw [hnodes]
            exact hspans
      · simp only [hstart]
        exact .inl ⟨_, rfl, hread.read happended⟩

end PairedSession

/-! ## Committing -/

/-- The span that was prepared stands, equally priced, on the surface after a log. -/
def PreparedCompaction.Stands (prepared : PreparedCompaction) (estimate : Json → Except JsError Nat)
    (log : List SessionEvent) : Prop :=
  ∃ nodes i j, measuredNodes estimate log = .ok nodes ∧ i ≤ j ∧ (nodes.take (j + 1)).drop i = prepared.selectedNodes
    ∧ (nodes.map (·.seq))[i]? = some prepared.selection.start
    ∧ (nodes.map (·.seq))[j]? = some prepared.selection.stop

structure Commits (estimate : Json → Except JsError Nat) (log : List SessionEvent)
    (prepared : PreparedCompaction) (summary replacement : SessionEvent) : Prop where
  record : summary.type = "compaction/summary"
  type : replacement.type = "user/message"
  seq : replacement.seq = (log ++ [summary]).length
  op : replacement.surfaceOp = some (.obj [("op", .str "replace"),
    ("start", .num (.int prepared.selection.start)), ("end", .num (.int prepared.selection.stop))])
  smaller : ∃ price, estimate replacement.data = .ok price ∧ price < prepared.shadowedTokenCount
  stands : prepared.Stands estimate log

/-- What a transaction logs between its start and its end, and the replacement among it. -/
inductive Body (estimate : Json → Except JsError Nat) (log : List SessionEvent)
    (prepared : PreparedCompaction) : List SessionEvent → Option Int → Prop
  | nothing : Body estimate log prepared [] none
  | summary {summary : SessionEvent} (htype : summary.type = "compaction/summary") :
      Body estimate log prepared [summary] none
  | replaced {summary replacement : SessionEvent} (h : Commits estimate log prepared summary replacement) :
      Body estimate log prepared [summary, replacement] (some replacement.seq)

theorem checkSummary_ok {estimate : Json → Except JsError Nat} {prepared : PreparedCompaction} {given : Except JsError SummaryResult} {answer : SummaryResult}
    (h : checkSummary estimate prepared given = .ok answer) :
    ∃ price, estimate answer.checkpointMessage = .ok price ∧ price < prepared.shadowedTokenCount := by
  unfold checkSummary at h
  simp only [bind_eq_ok_iff] at h
  obtain ⟨answer', -, price, hprice, h⟩ := h
  split at h
  · cases h
  · next hsmaller =>
    cases h
    refine ⟨price, ?_, Nat.lt_of_not_le hsmaller⟩
    cases hestimate : estimate answer.checkpointMessage with
    | error e =>
      rw [hestimate] at hprice
      cases hprice
    | ok price' =>
      rw [hestimate] at hprice
      cases hprice
      rfl

namespace PairedSession

variable {p : PairedSession} {estimate : Json → Except JsError Nat} {prepared : PreparedCompaction}

/-- **What passes for stable** stands as it was prepared. -/
theorem Reachable.assertStable_spec {t : Transaction} (h : p.Reachable) (estimate : Json → Except JsError Nat)
    (hfits : prepared.Fits t) (wholeSurface : Bool) (measured : Except JsError Unit) :
    p.Appended (assertStable estimate p wholeSurface measured prepared).1 []
      ∧ ((assertStable estimate p wholeSurface measured prepared).2 = .ok () → prepared.Stands estimate p.log) := by
  unfold assertStable
  cases wholeSurface with
  | true =>
    obtain ⟨hevents, hread⟩ := h.events_reads
    refine ⟨hread, fun hstable => ?_⟩
    simp only [if_true] at hstable
    unfold assertWholeSurfaceUnchanged at hstable
    rw [bind_eq_ok_iff] at hstable
    obtain ⟨current, hmeasure, hstable⟩ := hstable
    split at hstable
    · cases hstable
    · next hsame =>
      have hsame : current = prepared.measurement := not_not.mp hsame
      rw [hevents] at hmeasure
      rw [hsame] at hmeasure
      obtain ⟨hstart, hstop⟩ := hfits.spans.ends
      refine ⟨prepared.measurement, t.selection.startIdx, t.selection.endIdx, measure_ok hmeasure,
        hfits.spans.ordered, hfits.nodes.symm, ?_, ?_⟩
      · rw [hfits.selection, hstart]
        exact hfits.spans.first
      · rw [hfits.selection, hstop]
        exact hfits.spans.last
  | false =>
    simp only [Bool.false_eq_true, if_false]
    obtain ⟨hread, hvalid⟩ := h.validate_reads prepared.selection.start prepared.selection.stop
    unfold assertSelectedSpanStable
    cases hvalidate : p.validateSurfaceRegion prepared.selection.start prepared.selection.stop with
    | mk p₁ result =>
      rw [hvalidate] at hread hvalid
      cases result with
      | error e => exact ⟨hread, nofun⟩
      | ok current =>
        obtain ⟨hevents, hread'⟩ := hread.reached.events_reads
        refine ⟨hread.read hread', fun hstable => ?_⟩
        dsimp only at hstable
        split at hstable
        · cases hstable
        · rw [bind_eq_ok_iff] at hstable
          obtain ⟨nodes, hmeasure, hstable⟩ := hstable
          split at hstable
          · cases hstable
          · next hsame =>
            obtain ⟨state, rs, hlog, hspans⟩ := hvalid current rfl
            rw [hevents, hread.log, append_nil] at hmeasure
            have hnodes := measuredNodes_seqs hlog (measure_ok hmeasure)
            refine ⟨nodes, current.startIdx, current.endIdx, measure_ok hmeasure, hspans.ordered,
              not_not.mp hsame, ?_, ?_⟩
            · rw [hnodes]
              exact hspans.first
            · rw [hnodes]
              exact hspans.last

theorem Reachable.commit_spec (h : p.Reachable) (t : Transaction) {answer : SummaryResult} (answers : SummaryAnswers)
    (hsmaller : ∃ price, estimate answer.checkpointMessage = .ok price ∧ price < prepared.shadowedTokenCount)
    (hstands : prepared.Stands estimate p.log) :
    ∃ body replacement, Body estimate p.log prepared body replacement
      ∧ p.Appended (commitCompactionBody p t prepared answer answers).1 body
      ∧ match (commitCompactionBody p t prepared answer answers).2 with
        | .ok (_, seq) => replacement = some seq
        | .error _ => replacement = none := by
  unfold commitCompactionBody
  rcases h.append_cases (summaryRequest t prepared answer answers.summary.now) answers.summary.listeners with
    ⟨p₁, summary, hsummary, hcandidate, happended⟩ | ⟨p₁, e, hsummary, happended⟩
  · simp only [hsummary]
    rcases happended.reached.append_cases (replacementRequest t prepared answer summary.event.seq answers.replacement.now)
        answers.replacement.listeners with
      ⟨p₂, replacement, hreplacement, hcandidate', happended'⟩ | ⟨p₂, e, hreplacement, happended'⟩
    · simp only [hreplacement]
      refine ⟨[summary.event, replacement.event], some replacement.event.seq, .replaced ?_,
        happended.trans happended', rfl⟩
      obtain ⟨htype, hdata⟩ := candidate_data hcandidate'
      -- a message is its own snapshot
      have hmessage : replacement.event.data = answer.checkpointMessage := by
        have hown := snapshotJsonValue_ofJson answer.wf
        exact (Option.some.inj (hown.symm.trans hdata)).symm
      refine ⟨candidate_type hcandidate, htype, ?_, replacement_op hcandidate', ?_, hstands⟩
      · rw [candidate_seq hcandidate', happended.log]
      · rw [hmessage]
        exact hsmaller
    · simp only [hreplacement]
      refine ⟨[summary.event], none, .summary (candidate_type hcandidate), ?_, rfl⟩
      exact happended.trans happended'
  · simp only [hsummary]
    exact ⟨[], none, .nothing, happended, rfl⟩

end PairedSession

variable {t : Transaction} {prepared : PreparedCompaction}

/-- **What the answer of the summarizer leads to.**  The end is attempted once, after what is committed. -/
theorem Transaction.summarized_spec {p : PairedSession} (estimate : Json → Except JsError Nat) (h : p.Reachable) (hfits : prepared.Fits t)
    (hnone : t.replacement = none) (answers : SummaryAnswers) :
    ∃ body replacement closing ends, Body estimate p.log prepared body replacement
      ∧ EndsIn { t with replacement } (t.summarized estimate p prepared answers).2 closing
      ∧ Attempt (p.log ++ body) closing ends
      ∧ p.Appended (t.summarized estimate p prepared answers).1 (body ++ ends)
      ∧ ∀ result, (t.summarized estimate p prepared answers).2.point.succeeded = some result →
        replacement.isSome ∧ closing = .ok result.endSeq ∧ result.shadowedSeqs = t.selection.shadowedSeqs := by
  have hsame : { t with replacement := none } = t := by rw [← hnone]
  -- a failure before anything is committed
  have hfail : ∀ {p' : PairedSession} {body : List SessionEvent} (failure : TransactionFailure),
      Body estimate p.log prepared body none → p.Appended p' body →
      ∃ body replacement closing ends, Body estimate p.log prepared body replacement
        ∧ EndsIn { t with replacement } (t.fail p' failure answers.close).2 closing
        ∧ Attempt (p.log ++ body) closing ends
        ∧ p.Appended (t.fail p' failure answers.close).1 (body ++ ends)
        ∧ ∀ result, (t.fail p' failure answers.close).2.point.succeeded = some result →
          replacement.isSome ∧ closing = .ok result.endSeq ∧ result.shadowedSeqs = t.selection.shadowedSeqs := by
    intro p' body failure hbody happended
    obtain ⟨closing, ends, hends, hattempt, hclosed, hnothing⟩ := t.fail_spec happended.reached failure answers.close
    refine ⟨body, none, closing, ends, hbody, ?_, ?_, happended.trans hclosed, ?_⟩
    · rw [hsame]
      exact hends
    · rw [← happended.log]
      exact hattempt
    · intro result hresult
      rw [hnothing] at hresult
      cases hresult
  unfold summarized
  dsimp only
  split
  · exact hfail _ .nothing (.refl h)
  · next answer hchecked =>
    simp only [bind_eq_ok_iff, pure_eq_ok, Except.ok.injEq] at hchecked
    obtain ⟨_, hsummary, _, -, rfl⟩ := hchecked
    have hsmaller := checkSummary_ok hsummary
    obtain ⟨hread, hstands⟩ := h.assertStable_spec estimate hfits t.request.wholeSurface
      answers.measured
    split
    · next p₁ e hstable =>
      rw [hstable] at hread
      exact hfail _ .nothing hread
    · next p₁ hstable =>
      rw [hstable] at hread hstands
      have hstands₁ : prepared.Stands estimate p₁.log := by
        rw [hread.log, append_nil]
        exact hstands rfl
      obtain ⟨body, replacement, hbody, happended, hresult⟩ := hread.reached.commit_spec t answers hsmaller hstands₁
      have hsame₁ : p₁.log = p.log := by rw [hread.log, append_nil]
      rw [hsame₁] at hbody
      split
      · next p₂ e hcommit =>
        rw [hcommit] at happended hresult
        dsimp only at hresult
        subst hresult
        exact hfail _ hbody (hread.read happended)
      · next p₂ summarySeq seq hcommit =>
        rw [hcommit] at happended hresult
        dsimp only at hresult
        subst hresult
        have hbefore := hread.read happended
        let t' : Transaction := { t with replacement := some seq }
        rcases hbefore.reached.append_cases (endRequest { t with replacement := some seq } none
            answers.close.publication.now) answers.close.publication.listeners with
          ⟨p₃, event, hclose, hcandidate, hclosed⟩ | ⟨p₃, e, hclose, hclosed⟩
        · simp only [hclose]
          obtain ⟨hends, hsucceeded⟩ := t'.attempted_spec (.ok event.event.seq)
            (.ok (completeCompaction t' prepared summarySeq event.event.seq)) answers.close.aborted
          refine ⟨body, some seq, .ok event.event.seq, [event.event], hbody, hends, ?_, hbefore.trans hclosed, ?_⟩
          · rw [← hbefore.log]
            exact .logged (candidate_type hcandidate) (candidate_seq hcandidate)
          · intro result hresult
            cases hsucceeded result hresult
            refine ⟨rfl, rfl, ?_⟩
            show prepared.selection.shadowedSeqs = _
            rw [hfits.selection]
        · simp only [hclose]
          obtain ⟨hends, hsucceeded⟩ := t'.attempted_spec (.error e) (.error ⟨.thrown e, .commit⟩)
            answers.close.aborted
          refine ⟨body, some seq, .error e, [], hbody, hends, .threw e, hbefore.trans hclosed, ?_⟩
          intro result hresult
          cases hsucceeded result hresult

/-! ## The replacement -/

/-- An event takes the place of a span of the priced surface, and is estimated below its price. -/
def Replaces (estimate : Json → Except JsError Nat) (shadowedSeqs : List Int)
    (before : List SessionEvent) (event : SessionEvent) : Prop :=
  ∃ left mid right price state rs, measuredNodes estimate before = .ok (left ++ mid ++ right)
    ∧ mid.map (·.seq) = shadowedSeqs
    ∧ estimate event.data = .ok price ∧ price < totalTokens mid
    ∧ surfaceAfter (before ++ [event]) = .ok (state, rs)
    ∧ state.nodes = left.map (·.seq) ++ event.seq :: right.map (·.seq)

theorem span_split {α : Type} (xs : List α) {i j : Nat} (h : i ≤ j) :
    xs = xs.take i ++ (xs.take (j + 1)).drop i ++ xs.drop (j + 1) := by
  have hmin : (xs.take (j + 1)).take i = xs.take i := by rw [take_take, Nat.min_eq_left (by omega)]
  rw [← hmin, take_append_drop, take_append_drop]

/-- **What is committed replaces the span that was validated.** -/
theorem Commits.replaces {estimate : Json → Except JsError Nat} {log : List SessionEvent} {summary replacement : SessionEvent}
    (h : Commits estimate log prepared summary replacement) (hfits : prepared.Fits t)
    {state : SurfaceFoldState} {rs : List SurfaceFoldReplacement}
    (haccepted : surfaceAfter (log ++ [summary] ++ [replacement]) = .ok (state, rs)) :
    Replaces estimate t.selection.shadowedSeqs (log ++ [summary]) replacement := by
  obtain ⟨state₁, rs₁, plan, hlog₁, hplan, -, -⟩ := surfaceAfter_snoc_ok haccepted
  obtain ⟨state₀, rs₀, -, hlog₀, -, -, -⟩ := surfaceAfter_snoc_ok hlog₁
  have hplain : isSurfaceEligibleType summary.type = false := by
    rw [h.record]
    decide
  have hsame := surfaceAfter_plain hlog₀ hlog₁ hplain
  obtain ⟨nodes, i, j, hnodes, hle, hslice, hstart, hstop⟩ := h.stands
  have hseqs : nodes.map (·.seq) = state₁.nodes := by rw [measuredNodes_seqs hlog₀ hnodes, hsame]
  -- the surface takes the event for the replacement it was asked to make
  obtain ⟨hseq, -, -⟩ := planSurfaceEvent_spec hplan
  unfold planSurfaceEvent at hplan
  rw [if_neg (fun hne => hne hseq), bind_eq_ok_iff] at hplan
  obtain ⟨op, hop, -⟩ := hplan
  have heligible : isSurfaceEligibleType replacement.type = true := by
    rw [h.type]
    decide
  obtain rfl := surfaceOpOf_replacement heligible h.op hop
  rw [hseqs] at hstart hstop
  obtain ⟨hafter, hat⟩ := replaced_nodes hlog₁ haccepted hop hle hstart hstop
  obtain ⟨price, hprice, hless⟩ := h.smaller
  refine ⟨nodes.take i, prepared.selectedNodes, nodes.drop (j + 1), price, state, rs, ?_, hfits.seqs, hprice,
    ?_, haccepted, ?_⟩
  · rw [measuredNodes_plain estimate log hplain, hnodes, ← hslice]
    exact congrArg _ (span_split nodes hle)
  · rw [← hfits.price]
    exact hless
  · rw [hafter, hat, ← hseqs, map_take, map_drop]

/-! ## The attempt -/

variable {closing : Except JsError Int} {ends : List SessionEvent}

theorem Attempt.logged_at {log : List SessionEvent} (h : Attempt log closing ends) (hseq : closing = .ok seq) :
    LoggedAt (log ++ ends) seq fun _ event => event.type = "compaction/end" := by
  cases h with
  | @logged event htype hat =>
    cases hseq
    exact ⟨log, event, [], rfl, hat.symm, htype⟩
  | threw e => cases hseq

theorem Attempt.bracketed {base : Nat} {log : List SessionEvent} (h : Attempt log closing ends) (hlog : Bracketed base log)
    (hbase : base ≤ log.length) :
    Bracketed base (log ++ ends) ∧ (activeCompaction (log ++ ends) = none
        ∨ activeCompaction (log ++ ends) = activeCompaction log ∧ ∃ e, closing = .error e) := by
  cases h with
  | logged htype _ => exact ⟨hlog.closing hbase htype, .inl (activeCompaction_end htype)⟩
  | threw e =>
    rw [append_nil]
    exact ⟨hlog, .inr ⟨rfl, e, rfl⟩⟩

variable {body : List SessionEvent}

theorem Body.plain {estimate : Json → Except JsError Nat} {log : List SessionEvent} {replacement : Option Int}
    (h : Body estimate log prepared body replacement) : ∀ event ∈ body, isPlain event := by
  intro event hmem
  unfold isPlain
  cases h with
  | nothing => cases hmem
  | summary htype =>
    rw [mem_singleton.mp hmem, htype]
    decide
  | replaced hcommits =>
    rcases mem_cons.mp hmem with rfl | hmem
    · rw [hcommits.record]
      decide
    · rw [mem_singleton.mp hmem, hcommits.type]
      decide

theorem Body.unreplaced {estimate : Json → Except JsError Nat} {log : List SessionEvent} (h : Body estimate log prepared body none) :
    ∀ event ∈ body, isSurfaceEligibleType event.type = false := by
  intro event hmem
  cases h with
  | nothing => cases hmem
  | summary htype =>
    rw [mem_singleton.mp hmem, htype]
    decide

theorem Attempt.plain {log : List SessionEvent}
    (h : Attempt log closing ends) : ∀ event ∈ ends, isSurfaceEligibleType event.type = false := by
  intro event hmem
  cases h with
  | logged htype _ =>
    rw [mem_singleton.mp hmem, htype]
    decide
  | threw e => cases hmem


/-! ## What leaves the surface alone -/

def SameSurface (log log' : List SessionEvent) : Prop :=
  ∃ state rs rs', surfaceAfter log = .ok (state, rs) ∧ surfaceAfter log' = .ok (state, rs')

variable {more : List SessionEvent}

theorem PairedSession.Appended.sameSurface {p p' : PairedSession} (hp : p.Reachable)
    (h : p.Appended p' more) (hplain : ∀ event ∈ more, isSurfaceEligibleType event.type = false) :
    SameSurface p.log p'.log := by
  obtain ⟨state, rs, hlog⟩ := hp.accepted
  obtain ⟨state', rs', hlog'⟩ := h.reached.accepted
  suffices heq : state' = state from ⟨state, rs, rs', hlog, heq ▸ hlog'⟩
  rw [h.log] at hlog'
  clear h
  induction more using List.reverseRecOn generalizing state' rs' with
  | nil =>
    rw [append_nil, hlog] at hlog'
    cases hlog'
    rfl
  | append_singleton more event ih =>
    rw [← append_assoc] at hlog'
    obtain ⟨mid, rs₁, -, hmid, -, -, -⟩ := surfaceAfter_snoc_ok hlog'
    rw [surfaceAfter_plain hmid hlog' (hplain event (by simp))]
    exact ih (fun event hmem => hplain event (by simp [hmem])) mid rs₁ hmid

/-! ## Every move -/

/-- What can become of a session and its transactions in one action. -/
inductive Compactor.Moves (estimate : Json → Except JsError Nat) (c : Compactor) :
    CompactorAct → Compactor → Prop
  | other {op : PairingOp} :
      Moves estimate c (.other op) { c with paired := (pairingStep c.paired op).1 }
  | refused {request : CompactionRequest} {answers : BeginAnswers} {paired : PairedSession}
      (happended : c.paired.Appended paired []) :
      Moves estimate c (.begin request answers) { c with paired }
  | begun {request : CompactionRequest} {answers : BeginAnswers} {paired : PairedSession} {t : Transaction}
      {start : SessionEvent} {ends : List SessionEvent}
      (happended : c.paired.Appended paired (start :: ends))
      (hstarts : Starts t c.paired.log start) (hseq : t.startSeq = c.paired.log.length)
      (hnone : t.replacement = none)
      (hpoint : (∃ prepared, t.point = .summarizing prepared ∧ prepared.Fits t ∧ t.closings = [] ∧ ends = [])
        ∨ t.active = false ∧ t.point.succeeded = none ∧ ∃ closing, t.closings = [closing]
            ∧ Attempt (c.paired.log ++ [start]) closing ends) :
      Moves estimate c (.begin request answers) { paired, transactions := c.transactions ++ [t] }
  | summarized {index : Nat} {answers : SummaryAnswers} {paired : PairedSession} {t t' : Transaction}
      {prepared : PreparedCompaction} {body ends : List SessionEvent} {replacement : Option Int}
      {closing : Except JsError Int} (hindex : c.transactions[index]? = some t)
      (hpoint : t.point = .summarizing prepared)
      (hbody : Body estimate c.paired.log prepared body replacement)
      (hends : EndsIn { t with replacement } t' closing)
      (hattempt : Attempt (c.paired.log ++ body) closing ends)
      (happended : c.paired.Appended paired (body ++ ends))
      (hsucceeded : ∀ result, t'.point.succeeded = some result → replacement.isSome ∧ closing = .ok result.endSeq
          ∧ result.shadowedSeqs = t.selection.shadowedSeqs) :
      Moves estimate c (.summarized index answers) { paired, transactions := c.transactions.set index t' }
  | flushed {index : Nat} {failure aborted : Option JsError} {t : Transaction}
      {outcome : Except TransactionFailure CompactionResult} (hindex : c.transactions[index]? = some t)
      (hpoint : t.point = .flushing outcome) :
      Moves estimate c (.flushed index failure aborted)
        { c with transactions := c.transactions.set index
                   { t with point := .settled (t.conclude outcome failure aborted) } }

structure Transaction.Sound (estimate : Json → Except JsError Nat) (log : List SessionEvent)
    (t : Transaction) : Prop where
  starts : LoggedAt log t.startSeq (Starts t)
  waiting : ∀ prepared, t.point = .summarizing prepared → prepared.Fits t ∧ t.closings = [] ∧ t.replacement = none
  attempted : t.active = false → ∃ closing, t.closings = [closing]
  ends : ∀ seq, .ok seq ∈ t.closings → LoggedAt log seq fun _ event => event.type = "compaction/end"
  replaces : ∀ seq, t.replacement = some seq → LoggedAt log seq (Replaces estimate t.selection.shadowedSeqs)
  succeeded : ∀ result, t.point.succeeded = some result → t.replacement.isSome ∧ t.closings = [.ok result.endSeq]
      ∧ result.shadowedSeqs = t.selection.shadowedSeqs

theorem Transaction.Sound.mono {estimate : Json → Except JsError Nat} {log : List SessionEvent} (h : t.Sound estimate log) : t.Sound estimate (log ++ more) where
  starts := h.starts.mono
  waiting := h.waiting
  attempted := h.attempted
  ends := fun seq hseq => (h.ends seq hseq).mono
  replaces := fun seq hseq => (h.replaces seq hseq).mono
  succeeded := h.succeeded

namespace Compactor

variable {estimate : Json → Except JsError Nat} {c c' : Compactor} {act : CompactorAct}

/-- The session is one that is reached, and its transactions are in order. -/
structure InOrder (estimate : Json → Except JsError Nat) (c : Compactor) : Prop where
  reached : c.paired.Reachable
  sound : ∀ t ∈ c.transactions, t.Sound estimate c.paired.log

theorem moves (hc : c.InOrder estimate) (h : c.step estimate act = some c') : Moves estimate c act c' := by
  cases act with
  | other op =>
    cases h
    exact .other
  | begin request answers =>
    have hspec := hc.reached.begin_spec estimate request answers
    simp only [step] at h
    cases hbegin : c.paired.begin estimate request answers with
    | mk paired result =>
      rw [hbegin] at h hspec
      rcases hspec with ⟨e, herror, happended⟩
        | ⟨t, start, ends, hok, happended, hstarts, hseq, hnone, hpoint⟩
      · dsimp only at herror
        subst herror
        cases h
        exact .refused happended
      · dsimp only at hok
        subst hok
        cases h
        exact .begun happended hstarts hseq hnone hpoint
  | summarized index answers =>
    simp only [step, bind_eq_bind, bind_eq_some_iff] at h
    obtain ⟨t, hindex, h⟩ := h
    split at h
    · next prepared hpoint =>
      cases h
      obtain ⟨hfits, -, hnone⟩ := (hc.sound t (mem_of_getElem? hindex)).waiting prepared hpoint
      obtain ⟨body, replacement, closing, ends, hbody, hends, hattempt, happended, hsucceeded⟩ :=
        summarized_spec estimate hc.reached hfits hnone answers
      exact .summarized hindex hpoint hbody hends hattempt happended hsucceeded
    · cases h
  | flushed index failure aborted =>
    simp only [step, bind_eq_bind, bind_eq_some_iff] at h
    obtain ⟨t, hindex, h⟩ := h
    split at h
    · next outcome hpoint =>
      cases h
      exact .flushed hindex hpoint
    · cases h

/-! ## Transactions stay in order -/

theorem Moves.log (hc : c.paired.Reachable) (h : Moves estimate c act c') :
    c'.paired.Reachable ∧ c.paired.log <+: c'.paired.log := by
  cases h with
  | @other op =>
    refine ⟨hc.step op, ?_⟩
    rcases hc.step_log op with happended | ⟨_, _, _, -, -, happended⟩
    · exact ⟨_, happended.log.symm⟩
    · exact ⟨_, happended.log.symm⟩
  | refused happended | begun happended _ _ _ _ | summarized _ _ _ _ _ happended _ =>
    exact ⟨happended.reached, _, happended.log.symm⟩
  | flushed _ _ => exact ⟨hc, prefix_rfl⟩

theorem Moves.sound (hc : c.InOrder estimate) (h : Moves estimate c act c') : c'.InOrder estimate := by
  obtain ⟨hreached, more, hlog⟩ := h.log hc.reached
  -- what was in order stays in order as the log goes on
  have hold : ∀ t ∈ c.transactions, t.Sound estimate c'.paired.log := by
    intro t hmem
    rw [← hlog]
    exact (hc.sound t hmem).mono
  refine ⟨hreached, ?_⟩
  cases h with
  | other | refused _ => exact hold
  | @begun _ _ paired t start ends happended hstarts hseq hnone hpoint =>
    intro t' hmem
    rcases mem_append.mp hmem with hmem | hmem
    · exact hold t' hmem
    rw [mem_singleton.mp hmem]
    have hstarted : LoggedAt paired.log t.startSeq (Starts t) :=
      ⟨c.paired.log, start, ends, happended.log, hseq.symm, hstarts⟩
    have hreplaces : ∀ seq, t.replacement = some seq →
        LoggedAt paired.log seq (Replaces estimate t.selection.shadowedSeqs) := by
      intro seq hsome
      rw [hnone] at hsome
      cases hsome
    rcases hpoint with ⟨prepared, hpoint, hfits, hclosings, rfl⟩
      | ⟨hover, hnothing, closing, hclosings, hattempt⟩
    · refine ⟨hstarted, ?_, ?_, ?_, hreplaces, ?_⟩
      · intro prepared' hpoint'
        rw [hpoint] at hpoint'
        cases hpoint'
        exact ⟨hfits, hclosings, hnone⟩
      · intro hover
        unfold active at hover
        rw [hpoint] at hover
        cases hover
      · intro seq hseq
        rw [hclosings] at hseq
        cases hseq
      · intro result hresult
        rw [hpoint] at hresult
        cases hresult
    · refine ⟨hstarted, ?_, fun _ => ⟨closing, hclosings⟩, ?_, hreplaces, ?_⟩
      · intro prepared hpoint
        unfold active at hover
        rw [hpoint] at hover
        cases hover
      · intro seq hmem
        rw [hclosings] at hmem
        have hat := hattempt.logged_at (mem_singleton.mp hmem).symm
        show LoggedAt paired.log seq _
        rw [happended.log, append_cons]
        exact hat
      · intro result hresult
        rw [hnothing] at hresult
        cases hresult
  | @summarized index answers paired t t' prepared body ends replacement closing hindex hpoint hbody hends
      hattempt happended hsucceeded =>
    intro t'' hmem
    rcases mem_or_eq_of_mem_set hmem with hmem | rfl
    · exact hold t'' hmem
    have hbefore := hold t (mem_of_getElem? hindex)
    obtain ⟨hfits, hclosings, -⟩ := hbefore.waiting prepared hpoint
    have hone : t''.closings = [closing] := by
      rw [hends.closings]
      show t.closings ++ [closing] = _
      rw [hclosings, nil_append]
    refine ⟨?_, ?_, fun _ => ⟨closing, hone⟩, ?_, ?_, ?_⟩
    · obtain ⟨before, event, after, heq, hat, hstarts⟩ := hbefore.starts
      rw [hends.startSeq]
      refine ⟨before, event, after, heq, hat, hstarts.type, ?_, hstarts.inactive, ?_⟩
      · rw [hends.startSeq]
        exact hstarts.seq
      · rw [hends.selection, hends.request]
        exact hstarts.span
    · intro prepared' hpoint'
      have hover := hends.ended
      unfold active at hover
      rw [hpoint'] at hover
      cases hover
    · intro seq hmem
      rw [hone] at hmem
      show LoggedAt paired.log seq _
      rw [happended.log, ← append_assoc]
      exact hattempt.logged_at (mem_singleton.mp hmem).symm
    · intro seq hsome
      rw [hends.replacement] at hsome
      dsimp only at hsome
      subst hsome
      rw [hends.selection]
      show LoggedAt paired.log seq (Replaces estimate t.selection.shadowedSeqs)
      obtain ⟨state, rs, haccepted⟩ := happended.reached.accepted
      rw [happended.log] at haccepted ⊢
      cases hbody with
      | @replaced summary event hcommits =>
        refine ⟨c.paired.log ++ [summary], event, ends, ?_, hcommits.seq.symm, ?_⟩
        · simp
        · have hsplit : c.paired.log ++ ([summary, event] ++ ends)
              = (c.paired.log ++ [summary] ++ [event]) ++ ends := by simp
          rw [hsplit] at haccepted
          obtain ⟨state', rs', hearlier, -⟩ := surfaceAfter_prefix haccepted
          exact hcommits.replaces hfits hearlier
    · intro result hresult
      obtain ⟨hsome, hclosing, hseqs⟩ := hsucceeded result hresult
      rw [hends.replacement, hone, hclosing, hends.selection]
      exact ⟨hsome, rfl, hseqs⟩
  | @flushed index failure aborted t outcome hindex hpoint =>
    intro t' hmem
    rcases mem_or_eq_of_mem_set hmem with hmem | rfl
    · exact hold t' hmem
    have hbefore := hold t (mem_of_getElem? hindex)
    have hover : t.active = false := by
      unfold active
      rw [hpoint]
      rfl
    refine ⟨?_, nofun, fun _ => hbefore.attempted hover, hbefore.ends, hbefore.replaces, ?_⟩
    · obtain ⟨before, event, after, heq, hat, hstarts⟩ := hbefore.starts
      exact ⟨before, event, after, heq, hat, hstarts.type, hstarts.seq, hstarts.inactive, hstarts.span⟩
    · intro result hresult
      apply hbefore.succeeded result
      rw [hpoint]
      cases hconclude : t.conclude outcome failure aborted with
      | error e =>
        rw [hconclude] at hresult
        cases hresult
      | ok result' =>
        rw [hconclude] at hresult
        cases hresult
        rw [conclude_ok hconclude]
        rfl

/-- An action changes the surface only if the transaction comes to have its replacement. -/
theorem Moves.surface (hc : c.paired.Reachable) (h : Moves estimate c act c') :
    (∃ op, act = .other op) ∨ SameSurface c.paired.log c'.paired.log
      ∨ ∃ index answers t, act = .summarized index answers ∧ c'.transactions[index]? = some t
          ∧ t.replacement.isSome := by
  cases h with
  | @other op => exact .inl ⟨op, rfl⟩
  | refused happended => exact .inr (.inl (happended.sameSurface hc (by simp)))
  | begun happended hstarts _ _ hpoint =>
    refine .inr (.inl (happended.sameSurface hc ?_))
    intro event hmem
    rcases mem_cons.mp hmem with rfl | hmem
    · rw [hstarts.type]
      decide
    · rcases hpoint with ⟨_, -, -, -, rfl⟩ | ⟨-, -, closing, -, hattempt⟩
      · cases hmem
      · exact hattempt.plain event hmem
  | @summarized index answers paired t t' prepared body ends replacement closing hindex hpoint hbody hends
      hattempt happended hsucceeded =>
    cases replacement with
    | none =>
      refine .inr (.inl (happended.sameSurface hc ?_))
      intro event hmem
      rcases mem_append.mp hmem with hmem | hmem
      · exact hbody.unreplaced event hmem
      · exact hattempt.plain event hmem
    | some seq =>
      refine .inr (.inr ⟨index, answers, t', rfl, ?_, ?_⟩)
      · obtain ⟨hlt, -⟩ := List.getElem?_eq_some_iff.mp hindex
        exact List.getElem?_set_self hlt
      · rw [hends.replacement]
        rfl
  | flushed _ _ => exact .inr (.inl ((PairedSession.Appended.refl hc).sameSurface hc (by simp)))

end Compactor

end CocoHarness.Compaction
