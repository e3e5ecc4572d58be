/-
# CocoHarness.TokenMeter.Producers — whoever replaces part of the surface states its price first.

Two things replace nodes of the surface: a compaction that commits its summary, and the pruner of tool
results.  Each appends a metering event and the replacement right after it, nothing in between, and the price
that it states is the one the meter has at that moment: the compaction has just checked that the span it
priced still stands (`commit_metered`), and the price of a single node is that of its event
(`measuredNodes_price`).
-/
import CocoHarness.Compaction.ToolResultPruner
import CocoHarness.Compaction.TransactionSafety
import CocoHarness.TokenMeter.Totals

namespace CocoHarness.TokenMeter

open Lib SessionLog Compaction List Option

/-! ## Reading a metering event back -/

variable {event : SessionEvent}

theorem shadowPrice_read {fields : List (String × Json)} {start stop tokens : Int}
    (htype : event.type = "compaction/summary" ∨ event.type = "compaction/prune")
    (hdata : event.data = .obj fields)
    (hrange : fields.lookup "shadowedRange" = some (.obj [("start", .num (.int start)), ("end", .num (.int stop))]))
    (htokens : fields.lookup "shadowedTokenCount" = some (.num (.int tokens))) :
    meterData? event = some (.shadowPrice ⟨start, stop, tokens⟩) := by
  unfold meterData?
  rw [if_pos htype, hdata]
  unfold shadowPrice? intField? field?
  simp only [bind_some, Json.get?, hrange, htokens]
  rfl

theorem snapshot_range (selection : SurfaceSelection) : snapshotJsonValue (.obj (rangeFields selection))
      = some (.obj [("start", .num (.int selection.start)), ("end", .num (.int selection.stop))]) := rfl

variable {seq : Int} {prepared : PreparedCompaction}

theorem summary_read {t : Transaction} {answer : SummaryResult} {now : EpochMs}
    (h : candidate seq (summaryRequest t prepared answer now) = .ok event) :
    meterData? event = some (.shadowPrice
      ⟨prepared.selection.start, prepared.selection.stop, prepared.shadowedTokenCount⟩) := by
  obtain ⟨htype, hdata⟩ := candidate_data h
  obtain ⟨fields, hfields, hdata⟩ := map_eq_some_iff.mp hdata
  rw [append_assoc, append_assoc] at hfields
  apply shadowPrice_read (.inl htype) hdata.symm
  · -- nothing after the range sets it again
    rw [lookup_snapshotFields_set hfields, snapshot_range]
    cases answer.maxTokens <;> cases answer.usage <;> simp [optionalField]
  · have hsplit : ∀ (head tail : List (String × JsValue)) (range seqs price : String × JsValue),
        head ++ (range :: seqs :: price :: tail) = (head ++ [range, seqs]) ++ price :: tail := by
      intro head tail range seqs price
      simp
    rw [cons_append, cons_append, cons_append, hsplit] at hfields
    rw [lookup_snapshotFields_set hfields]
    · rfl
    · cases answer.maxTokens <;> cases answer.usage <;> simp [optionalField]

theorem prune_read {at' : Int} {price : Nat} {now : EpochMs}
    (h : candidate at' (pruneRequest seq price now) = .ok event) :
    meterData? event = some (.shadowPrice ⟨seq, seq, price⟩) := by
  obtain ⟨htype, hdata⟩ := candidate_data h
  have hown : snapshotJsonValue (pruneRequest seq price now).data
      = some (.obj [("shadowedRange", .obj [("start", .num (.int seq)), ("end", .num (.int seq))]),
        ("shadowedSeqs", .arr [.num (.int seq)]), ("shadowedTokenCount", .num (.int price))]) := rfl
  rw [hown] at hdata
  exact shadowPrice_read (.inr htype) (Option.some.inj hdata).symm rfl rfl

/-! ## Prices -/

variable {log : List SessionEvent}

theorem eventAt_append (h : eventAt log seq = some event) (more : List SessionEvent) :
    eventAt (log ++ more) seq = some event := by
  unfold eventAt at h ⊢
  split at h
  · next hnonneg =>
    rw [if_pos hnonneg]
    exact List.getElem?_append_left (List.getElem?_eq_some_iff.mp h).1 ▸ h
  · cases h

theorem eventAt_last (log : List SessionEvent) (event : SessionEvent) :
    eventAt (log ++ [event]) log.length = some event := by
  unfold eventAt
  rw [if_pos (by omega)]
  exact List.getElem?_concat_length

variable {nodes : List TokenSurfaceNode}

/-- **A node has the price of its event.** -/
theorem measuredNodes_price {estimate : Json → Except JsError Nat} {state : SurfaceFoldState}
    {rs : List SurfaceFoldReplacement} (haccepted : surfaceAfter log = .ok (state, rs))
    (hnodes : measuredNodes estimate log = .ok nodes) :
    ∀ node ∈ nodes, ∃ event, eventAt log node.seq = some event ∧ priceEvent estimate event = .ok node.tokens := by
  induction log using List.reverseRecOn generalizing state rs nodes with
  | nil =>
    cases hnodes
    exact forall_mem_nil _
  | append_singleton log event ih =>
    rw [measuredNodes_snoc, bind_eq_ok_iff] at hnodes
    obtain ⟨before, hbefore, hfold⟩ := hnodes
    obtain ⟨state₀, rs₀, plan, haccepted₀, hplan, -, -⟩ := surfaceAfter_snoc_ok haccepted
    have hseq := (planSurfaceEvent_spec hplan).1
    have hold : ∀ node ∈ before, ∃ event', eventAt (log ++ [event]) node.seq = some event'
        ∧ priceEvent estimate event' = .ok node.tokens := by
      intro node hmem
      obtain ⟨event', hat, hprice⟩ := ih haccepted₀ hbefore node hmem
      exact ⟨event', eventAt_append hat _, hprice⟩
    split at hfold
    · unfold foldSurfaceTokens at hfold
      rw [bind_eq_ok_iff] at hfold
      obtain ⟨tokens, hprice, hfold⟩ := hfold
      -- the node of the event itself
      have hnew : ∃ event', eventAt (log ++ [event]) event.seq = some event'
          ∧ priceEvent estimate event' = .ok tokens := by
        refine ⟨event, ?_, hprice⟩
        rw [hseq]
        exact eventAt_last log event
      rw [bind_eq_ok_iff] at hfold
      obtain ⟨op, -, hfold⟩ := hfold
      have hplaced : ∀ node ∈ nodes, node ∈ before ∨ node = { seq := event.seq, tokens } := by
        intro node hmem
        split at hfold
        · split at hfold
          · split at hfold
            · cases hfold
            · cases hfold
              rcases mem_append.mp hmem with hmem | hmem
              · exact .inl (mem_of_mem_take hmem)
              · rcases mem_cons.mp hmem with rfl | hmem
                · exact .inr rfl
                · exact .inl (mem_of_mem_drop hmem)
          · cases hfold
        · cases hfold
          rcases mem_append.mp hmem with hmem | hmem
          · exact .inl hmem
          · exact .inr (mem_singleton.mp hmem)
      intro node hmem
      rcases hplaced node hmem with hmem | rfl
      · exact hold node hmem
      · exact hnew
    · cases hfold
      exact hold

theorem rangeNodes_at (hnodup : (nodes.map (·.seq)).Nodup) {i j : Nat} {start stop : Int} (hle : i ≤ j)
    (hstart : (nodes.map (·.seq))[i]? = some start) (hstop : (nodes.map (·.seq))[j]? = some stop) :
    rangeNodes nodes start stop = some ((nodes.take (j + 1)).drop i) := by
  unfold rangeNodes
  rw [findIdx?_seq, findIdx?_seq, idxOf?_of_getElem? hnodup hstart, idxOf?_of_getElem? hnodup hstop]
  exact if_neg (by omega)

/-! ## Going on metered -/

/-- The session has gone on, and every replacement among the new events is metered. -/
def GoesMetered (p p' : PairedSession) : Prop := ∃ more, p.Appended p' more ∧ MeteredMore p.log more

section

variable {p p' p'' : PairedSession}

theorem GoesMetered.refl (h : p.Reachable) : GoesMetered p p := ⟨[], .refl h, .nil _⟩

theorem GoesMetered.trans (h : GoesMetered p p') (h' : GoesMetered p' p'') : GoesMetered p p'' := by
  obtain ⟨more, happended, hmore⟩ := h
  obtain ⟨more', happended', hmore'⟩ := h'
  rw [happended.log] at hmore'
  exact ⟨more ++ more', happended.trans happended', hmore.append hmore'⟩

theorem GoesMetered.reached (h : GoesMetered p p') : p'.Reachable := by
  obtain ⟨_, happended, -⟩ := h
  exact happended.reached

theorem GoesMetered.plain {more : List SessionEvent} (h : p.Appended p' more)
    (hplain : ∀ event ∈ more, isSurfaceEligibleType event.type = false) : GoesMetered p p' :=
  ⟨more, h, .plain hplain⟩

theorem GoesMetered.read (h : p.Appended p' []) : GoesMetered p p' := ⟨[], h, .nil _⟩

/-- **A metering event and its replacement**, of a range before them at the price of its nodes. -/
theorem GoesMetered.pair {record replacement : SessionEvent} {start stop tokens : Int}
    (h : p.Appended p' [record]) (h' : p'.Appended p'' [replacement])
    (hrecord : meterData? record = some (.shadowPrice ⟨start, stop, tokens⟩))
    (heligible : isSurfaceEligibleType replacement.type = true)
    (hop : replacement.surfaceOp = some (.obj [("op", .str "replace"), ("start", .num (.int start)),
      ("end", .num (.int stop))]))
    (hprice : ∀ nodes, measuredNodes estimateMessage p.log = .ok nodes →
      ∃ removed, rangeNodes nodes start stop = some removed ∧ tokens = totalTokens removed) :
    GoesMetered p p'' := by
  have hplain := shadowPrice_plain hrecord
  refine ⟨[record, replacement], h.trans h', ?_⟩
  have hfirst : MeteredMore p.log [record] := .singleton (.plain hplain)
  apply hfirst.snoc
  intro start' stop' hop'
  obtain ⟨rfl, rfl⟩ := SurfaceOp.replace.inj (Option.some.inj (surfaceOpOf_replacement heligible hop hop'))
  refine ⟨p.log, record, tokens, rfl, hrecord, ?_⟩
  intro nodes hnodes
  rw [measuredNodes_plain _ _ hplain] at hnodes
  exact hprice nodes hnodes

end

/-! ## A compaction commits -/

variable {p : PairedSession}

theorem commit_metered (h : p.Reachable) (t : Transaction) (answer : SummaryResult) (answers : SummaryAnswers)
    (hprice : prepared.shadowedTokenCount = totalTokens prepared.selectedNodes)
    (hstands : prepared.Stands estimateMessage p.log) :
    GoesMetered p (commitCompactionBody p t prepared answer answers).1 := by
  unfold commitCompactionBody
  rcases h.append_cases (summaryRequest t prepared answer answers.summary.now) answers.summary.listeners with
    ⟨p₁, summary, hsummary, hcandidate, happended⟩ | ⟨p₁, e, hsummary, happended⟩
  · simp only [hsummary]
    have hread := summary_read hcandidate
    rcases happended.reached.append_cases (replacementRequest t prepared answer summary.event.seq answers.replacement.now)
        answers.replacement.listeners with
      ⟨p₂, replacement, hreplacement, hcandidate', happended'⟩ | ⟨p₂, e, hreplacement, happended'⟩
    · simp only [hreplacement]
      have htype : replacement.event.type = "user/message" := candidate_type hcandidate'
      refine GoesMetered.pair happended happended' hread ?_ (replacement_op hcandidate') ?_
      · rw [htype]
        decide
      · -- the span has just been checked
        intro nodes hnodes
        obtain ⟨nodes', i, j, hnodes', hle, hslice, hstart, hstop⟩ := hstands
        cases hnodes.symm.trans hnodes'
        obtain ⟨state, rs, haccepted⟩ := h.accepted
        have hnodup : (nodes.map (·.seq)).Nodup := by
          rw [measuredNodes_seqs haccepted hnodes]
          exact surfaceAfter_nodup haccepted
        refine ⟨prepared.selectedNodes, ?_, by rw [hprice]⟩
        rw [rangeNodes_at hnodup hle hstart hstop, hslice]
    · simp only [hreplacement]
      refine (GoesMetered.plain happended ?_).trans (.read happended')
      intro event hmem
      rw [mem_singleton.mp hmem]
      exact shadowPrice_plain hread
  · simp only [hsummary]
    exact .read happended

theorem fail_metered (h : p.Reachable) (t : Transaction) (failure : TransactionFailure)
    (close : CloseAnswers) : GoesMetered p (t.fail p failure close).1 := by
  obtain ⟨closing, ends, -, hattempt, happended, -⟩ := t.fail_spec h failure close
  exact .plain happended hattempt.plain

/-- **The answer of the summarizer** leads to no replacement that is not metered. -/
theorem summarized_metered (h : p.Reachable) {t : Transaction} (hfits : prepared.Fits t)
    (answers : SummaryAnswers) : GoesMetered p (t.summarized estimateMessage p prepared answers).1 := by
  unfold Transaction.summarized
  dsimp only
  split
  · exact fail_metered h _ _ _
  · next answer hchecked =>
    obtain ⟨hread, hstands⟩ := h.assertStable_spec estimateMessage hfits t.request.wholeSurface
      answers.measured
    split
    · next p₁ e hstable =>
      rw [hstable] at hread
      exact (GoesMetered.read hread).trans (fail_metered hread.reached _ _ _)
    · next p₁ hstable =>
      rw [hstable] at hread hstands
      have hstands₁ : prepared.Stands estimateMessage p₁.log := by
        rw [hread.log, append_nil]
        exact hstands rfl
      have hcommits := commit_metered hread.reached t answer answers hfits.price hstands₁
      have hbefore := (GoesMetered.read hread).trans hcommits
      split
      · next p₂ e hcommit =>
        rw [hcommit] at hbefore
        exact hbefore.trans (fail_metered hbefore.reached _ _ _)
      · next p₂ summarySeq seq hcommit =>
        rw [hcommit] at hbefore
        rcases hbefore.reached.append_cases (endRequest { t with replacement := some seq } none
            answers.close.publication.now) answers.close.publication.listeners with
          ⟨p₃, event, hclose, hcandidate, hclosed⟩ | ⟨p₃, e, hclose, hclosed⟩
        · simp only [hclose]
          have htype : event.event.type = "compaction/end" := candidate_type hcandidate
          refine hbefore.trans (.plain hclosed ?_)
          intro event' hmem
          rw [mem_singleton.mp hmem, htype]
          decide
        · simp only [hclose]
          exact hbefore.trans (.read hclosed)

theorem step_metered {c c' : Compactor} {act : CompactorAct} (hc : c.InOrder estimateMessage)
    (hstep : c.step estimateMessage act = some c') (hown : ∀ op, act ≠ .other op) :
    GoesMetered c.paired c'.paired := by
  cases act with
  | other op => exact absurd rfl (hown op)
  | begin request answers =>
    have hmoves := Compactor.moves hc hstep
    cases hmoves with
    | refused happended => exact .read happended
    | begun happended hstarts _ _ hpoint =>
      refine .plain happended ?_
      intro event hmem
      rcases mem_cons.mp hmem with rfl | hmem
      · rw [hstarts.type]
        decide
      · rcases hpoint with ⟨_, -, -, -, rfl⟩ | ⟨-, -, closing, -, hattempt⟩
        · cases hmem
        · exact hattempt.plain event hmem
  | summarized index answers =>
    simp only [Compactor.step, Option.bind_eq_bind, Option.bind_eq_some_iff] at hstep
    obtain ⟨t, hindex, hstep⟩ := hstep
    split at hstep
    · next prepared hpoint =>
      cases hstep
      obtain ⟨hfits, -, -⟩ := (hc.sound t (mem_of_getElem? hindex)).waiting prepared hpoint
      exact summarized_metered hc.reached hfits answers
    · cases hstep
  | flushed index failure aborted =>
    have hmoves := Compactor.moves hc hstep
    cases hmoves with
    | flushed hindex hpoint => exact .refl hc.reached

/-! ## The pruner -/

def Candidate (log : List SessionEvent) (candidate : SnapshotCandidate) : Prop :=
  eventAt log candidate.seq = some candidate.event ∧ candidate.event.type = "tool/result"

theorem Candidate.mono {more : List SessionEvent} {candidate : SnapshotCandidate}
    (h : Candidate log candidate) : Candidate (log ++ more) candidate :=
  ⟨eventAt_append h.1 more, h.2⟩

theorem snapshotCandidates_spec (nodes : List Int) (log : List SessionEvent) :
    ∀ candidate ∈ snapshotCandidates nodes log, Candidate log candidate := by
  intro candidate hmem
  obtain ⟨seq, -, hsome⟩ := mem_filterMap.mp hmem
  obtain ⟨event, hfound, rfl⟩ := map_eq_some_iff.mp hsome
  obtain ⟨hat, htype⟩ := filter_eq_some_iff.mp hfound
  exact ⟨hat, by simpa using htype⟩

theorem priceEvent_toolResult (htype : event.type = "tool/result") {original : ToolResultData}
    (hread : toolResultData? event.data = some original) :
    priceEvent estimateMessage event = estimateMessage (.obj original.message) := by
  unfold toolResultData? at hread
  simp only [Option.bind_eq_bind, Option.bind_eq_some_iff, Option.pure_def, Option.some.injEq] at hread
  obtain ⟨data, hdata, value, hvalue, message, hmessage, hrest⟩ := hread
  obtain ⟨_, -, _, -, _, -, _, -, _, -, _, -, _, -, _, -, rfl⟩ := hrest
  have hobj : ∀ {v : Json} {fields : List (String × Json)}, v.obj? = some fields → v = .obj fields := by
    intro v fields hv
    cases v <;> cases hv
    rfl
  unfold priceEvent deriveEventMessage
  rw [htype, hobj hdata]
  simp only [jsGet, ownFields, hvalue]
  rw [hobj hmessage]
  rfl

theorem pruned_op {at' : Int} {data : Json} {now : EpochMs}
    (h : candidate at' (prunedRequest seq data now) = .ok event) :
    event.surfaceOp = some (.obj [("op", .str "replace"), ("start", .num (.int seq)), ("end", .num (.int seq))]) := by
  obtain ⟨metadata, hmetadata, hop⟩ := candidate_surfaceOp h
  have hown : snapshotJsonValue (prunedRequest seq data now).opts.metadata
      = some (.obj [("sourceEventSeqs", .arr [.num (.int seq)]), ("surfaceOp", .obj [("op", .str "replace"),
        ("start", .num (.int seq)), ("end", .num (.int seq))])]) := rfl
  rw [hop, ← Option.some.inj (hown.symm.trans hmetadata)]
  rfl

theorem rangeNodes_single {state : SurfaceFoldState} {rs : List SurfaceFoldReplacement}
    (haccepted : surfaceAfter (log ++ [event]) = .ok (state, rs))
    (heligible : isSurfaceEligibleType event.type = true)
    (hop : event.surfaceOp = some (.obj [("op", .str "replace"), ("start", .num (.int seq)),
      ("end", .num (.int seq))])) (hnodes : measuredNodes estimateMessage log = .ok nodes) :
    ∃ node ∈ nodes, node.seq = seq ∧ rangeNodes nodes seq seq = some [node] := by
  obtain ⟨before, rs₀, plan, hbefore, hplan, -, -⟩ := surfaceAfter_snoc_ok haccepted
  have hseqs := measuredNodes_seqs hbefore hnodes
  have hseq := (planSurfaceEvent_spec hplan).1
  unfold planSurfaceEvent at hplan
  rw [if_neg (fun hne => hne hseq), bind_eq_ok_iff] at hplan
  obtain ⟨op, hread, hplan⟩ := hplan
  obtain rfl := surfaceOpOf_replacement heligible hop hread
  rw [bind_eq_ok_iff] at hplan
  obtain ⟨range, hrange, -⟩ := hplan
  unfold replacementRange at hrange
  cases hindex : before.nodes.idxOf? seq with
  | none =>
    rw [hindex] at hrange
    cases hrange
  | some i =>
    rw [← hseqs] at hindex
    have hat := getElem?_of_idxOf? hindex
    obtain ⟨node, hnode, hnodeSeq⟩ := map_eq_some_iff.mp (List.getElem?_map ▸ hat)
    have hnodup : (nodes.map (·.seq)).Nodup := by
      rw [hseqs]
      exact surfaceAfter_nodup hbefore
    refine ⟨node, mem_of_getElem? hnode, hnodeSeq, ?_⟩
    rw [rangeNodes_at hnodup (le_refl i) hat hat]
    obtain ⟨hlt, rfl⟩ := List.getElem?_eq_some_iff.mp hnode
    rw [take_succ_eq_append_getElem hlt, drop_append_of_le_length (by simp [Nat.le_of_lt hlt])]
    simp [Nat.le_of_lt hlt]

theorem pruneCandidate_metered (h : p.Reachable) (config : ResolvedConfig)
    {candidate : SnapshotCandidate} (hcandidate : Candidate p.log candidate) (answers : PruneAnswers) :
    GoesMetered p (p.pruneCandidate config candidate answers).1 := by
  unfold PairedSession.pruneCandidate
  split
  · exact .refl h
  · next original hread =>
    split
    · exact .refl h
    · exact .refl h
    · next content hpruned =>
      split
      · exact .refl h
      · next price hprice =>
        rcases h.append_cases (pruneRequest candidate.seq price answers.prune.now) answers.prune.listeners with
          ⟨p₁, record, hprune, hrecord, happended⟩ | ⟨p₁, e, hprune, happended⟩
        · simp only [hprune]
          have hclaim := prune_read hrecord
          rcases happended.reached.append_cases (prunedRequest candidate.seq (original.withContent content) answers.replacement.now)
              answers.replacement.listeners with
            ⟨p₂, replacement, hreplacement, hreplaced, happended'⟩ | ⟨p₂, e, hreplacement, happended'⟩
          · simp only [hreplacement]
            have htype : replacement.event.type = "tool/result" := candidate_type hreplaced
            have heligible : isSurfaceEligibleType replacement.event.type = true := by
              rw [htype]
              decide
            refine GoesMetered.pair happended happended' hclaim heligible (pruned_op hreplaced) ?_
            intro nodes hnodes
            obtain ⟨state, rs, haccepted⟩ := happended'.reached.accepted
            rw [happended'.log] at haccepted
            have hmeasured : measuredNodes estimateMessage p₁.log = .ok nodes := by
              rw [happended.log, measuredNodes_plain _ _ (shadowPrice_plain hclaim), hnodes]
            obtain ⟨node, hmem, hseq, hrange⟩ :=
              rangeNodes_single haccepted heligible (pruned_op hreplaced) hmeasured
            refine ⟨[node], hrange, ?_⟩
            -- the node that goes has the price of the candidate
            obtain ⟨state₀, rs₀, haccepted₀⟩ := h.accepted
            obtain ⟨event, hat, htokens⟩ := measuredNodes_price haccepted₀ hnodes node hmem
            rw [hseq, hcandidate.1] at hat
            cases hat
            rw [priceEvent_toolResult hcandidate.2 hread, hprice] at htokens
            cases htokens
            simp [totalTokens]
          · simp only [hreplacement]
            refine (GoesMetered.plain happended ?_).trans (.read happended')
            intro event hmem
            rw [mem_singleton.mp hmem]
            exact shadowPrice_plain hclaim
        · simp only [hprune]
          exact .read happended

theorem pruneCandidates_metered (h : p.Reachable) (config : ResolvedConfig)
    (answers : Int → PruneAnswers) {candidates : List SnapshotCandidate}
    (hcandidates : ∀ candidate ∈ candidates, Candidate p.log candidate) (result : PruneResult) :
    GoesMetered p (p.pruneCandidates config answers candidates result).1 := by
  induction candidates generalizing p result with
  | nil => exact .refl h
  | cons candidate rest ih =>
    have hfirst := pruneCandidate_metered h config (hcandidates candidate mem_cons_self)
      (answers candidate.seq)
    have hrest : ∀ {p' : PairedSession}, GoesMetered p p' → ∀ c ∈ rest, Candidate p'.log c := by
      rintro p' ⟨more, happended, -⟩ c hmem
      rw [happended.log]
      exact (hcandidates c (mem_cons_of_mem _ hmem)).mono
    unfold PairedSession.pruneCandidates
    cases hprune : p.pruneCandidate config candidate (answers candidate.seq) with
    | mk p' outcome =>
      rw [hprune] at hfirst
      cases outcome with
      | error e => exact hfirst
      | ok entry =>
        cases entry with
        | none | some entry => exact hfirst.trans (ih hfirst.reached (hrest hfirst) _)

/-- **A pass of the pruner** makes no replacement that is not metered. -/
theorem pruneSession_metered (h : p.Reachable) (config : ResolvedConfig) (answers : Int → PruneAnswers) :
    GoesMetered p (p.pruneSession config answers).1 := by
  obtain ⟨p₁, state, rs, hnodes, hread, haccepted⟩ := h.surfaceNodes_reads
  unfold PairedSession.pruneSession
  rw [hnodes]
  obtain ⟨hevents, hread'⟩ := hread.reached.events_reads
  have hreads := (GoesMetered.read hread).trans (.read hread')
  have hcandidates : ∀ candidate ∈ snapshotCandidates state.nodes p₁.events.2,
      Candidate p₁.events.1.log candidate := by
    rw [hevents, hread'.log, append_nil]
    exact snapshotCandidates_spec _ _
  exact hreads.trans (pruneCandidates_metered hread'.reached config answers hcandidates _)

/-! ## Both sides -/

/-- **The totals agree.**  On a fully metered log no projection throws, and at every boundary each total is that of
the priced surface; and neither a compaction nor a pass of the pruner makes a replacement that is not metered. -/
theorem metered_totals : (∀ (log : List MeteredEvent) (state : SurfaceFoldState) (rs : List SurfaceFoldReplacement),
      surfaceAfter (eventsOf log) = .ok (state, rs) → FullyMetered (eventsOf log) →
        ∀ before after, log = before ++ after → TotalsAgree before)
    ∧ (∀ (id : String) (seed : Option (List JsValue)) (now : EpochMs) (s : Session) (acts : List CompactorAct)
        (c : Compactor), Session.create id seed now = .ok s →
        Machine.exec (Compactor.step estimateMessage) { paired := { session := s } } acts = some c →
        ∀ act c', c.step estimateMessage act = some c' → (∀ op, act ≠ .other op) → GoesMetered c.paired c'.paired)
    ∧ ∀ (p : PairedSession), p.Reachable → ∀ config answers, GoesMetered p (p.pruneSession config answers).1 := by
  refine ⟨?_, ?_, fun p hp config answers => pruneSession_metered hp config answers⟩
  · intro log state rs haccepted hmetered before after heq
    have hsplit : eventsOf log = eventsOf before ++ eventsOf after := by
      rw [heq]
      exact map_append
    obtain ⟨state', rs', hbefore, -⟩ := surfaceAfter_prefix (hsplit ▸ haccepted)
    exact totalsAgree_of_metered hbefore (FullyMetered.prefix_of (hsplit ▸ hmetered))
  · intro id seed now s acts c hcreate hrun act c' hstep hown
    have hreached : PairedSession.Reachable { session := s } := .run (.create hcreate) []
    have hfirst : Compactor.InOrder estimateMessage { paired := { session := s } } := ⟨hreached, forall_mem_nil _⟩
    have horder : c.InOrder estimateMessage :=
      Machine.exec_invariant (I := Compactor.InOrder estimateMessage)
        (fun act _ c c' hc hstep => (Compactor.moves hc hstep).sound hc) hfirst hrun
    exact step_metered horder hstep hown

/-! A message, its price, and a shorter one in its place. -/

def longMessage : MeteredEvent where
  event := {
    type := "user/message", seq := 0, time := 0, surfaceOp := some (.str "append")
    data := .obj [("content", .arr [.obj [("type", .str "text"), ("text", .str "abcdefgh")]])] }
  data := .other
  typed := rfl
  content := some [.text "abcdefgh"]
  derived := fun _ => rfl

def itsSummary : MeteredEvent where
  event := {
    type := "compaction/summary", seq := 1, time := 0
    data := .obj [("shadowedRange", .obj [("start", .num (.int 0)), ("end", .num (.int 0))]),
      ("shadowedTokenCount", .num (.int 10))] }
  data := .shadowPrice ⟨0, 0, 10⟩
  typed := rfl
  content := none
  derived := nofun

def shortMessage : MeteredEvent where
  event := {
    type := "user/message", seq := 2, time := 0
    data := .obj [("content", .arr [])]
    sourceEventSeqs := some (.arr [.num (.int 0)])
    surfaceOp := some (.obj [("op", .str "replace"), ("start", .num (.int 0)), ("end", .num (.int 0))]) }
  data := .other
  typed := rfl
  content := some []
  derived := fun _ => rfl

theorem metered_totals_compacted : TotalsAgree [longMessage, itsSummary, shortMessage] := by
  have haccepted : surfaceAfter (eventsOf [longMessage, itsSummary, shortMessage])
      = .ok (⟨[2], 1⟩, [⟨2, 0, 0, [0]⟩]) := by rfl
  refine metered_totals.1 _ _ _ haccepted ?_ _ [] (append_nil _).symm
  have hfirst : MeteredMore [] [longMessage.event] := by
    apply MeteredMore.singleton
    intro start stop hop
    cases hop
  have hsecond := hfirst.snoc (.plain (by decide) : Metered _ itsSummary.event)
  apply hsecond.snoc
  intro start stop hop
  cases hop
  refine ⟨[longMessage.event], itsSummary.event, 10, rfl, rfl, ?_⟩
  rintro nodes ⟨⟩
  exact ⟨[⟨0, 10⟩], rfl, rfl⟩

end CocoHarness.TokenMeter
