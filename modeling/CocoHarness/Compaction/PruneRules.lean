/-
# CocoHarness.Compaction.PruneRules — replacements of the pruner keep the rules of the surface.

A replacement has the data of the event it stands for, but for the content of its one block, so blanking that content
makes the two equal and the surface takes it.
-/
import CocoHarness.Compaction.PrunedContent
import CocoHarness.TokenMeter.Producers

namespace CocoHarness.Compaction

open Lib Lib.SafeInteger SessionLog TokenMeter List Json JsonText ResultBlock

/-! ## Equal but for the content -/

theorem setField_setField (fs : List (String × Json)) (k : String) (v w : Json) :
    setField (setField fs k v) k w = setField fs k w := by
  by_cases hk : k ∈ Json.keys fs
  · have hfst : ∀ f : String × Json, (if f.1 = k then (k, v) else f).1 = f.1 := by
      intro f
      split
      · next heq => exact heq.symm
      · rfl
    have hkeys : k ∈ Json.keys (fs.map fun f => if f.1 = k then (k, v) else f) := by
      obtain ⟨f, hf, hfk⟩ := mem_map.mp hk
      refine mem_map.mpr ⟨_, mem_map.mpr ⟨f, hf, rfl⟩, ?_⟩
      rw [hfst, hfk]
    rw [setField, setField, setField, if_pos hk, if_pos hkeys, if_pos hk, map_map]
    apply map_congr_left
    intro f _
    show (if (if f.1 = k then (k, v) else f).1 = k then (k, w) else _) = _
    rw [hfst]
    split <;> rfl
  · have hkeys : k ∈ Json.keys (fs ++ [(k, v)]) := by
      rw [Json.keys, map_append, mem_append]
      exact Or.inr (mem_singleton.mpr rfl)
    rw [setField_of_notMem hk, setField_of_notMem hk, setField, if_pos hkeys,
      map_append, map_singleton, if_pos rfl]
    congr 1
    conv_rhs => rw [← map_id fs]
    apply map_congr_left
    intro f hf
    rw [if_neg, id]
    rintro rfl
    exact hk (mem_map.mpr ⟨f, hf, rfl⟩)

mutual

theorem isDeepEqualJson_self : ∀ v : Json, v.WF → isDeepEqualJson v v = true
  | .null, _ => rfl
  | .bool b, _ => beq_self_eq_true b
  | .num n, _ => beq_self_eq_true n
  | .str s, _ => beq_self_eq_true s
  | .arr xs, h => isDeepEqualElements_self xs h
  | .obj fs, h => by
    rw [isDeepEqualJson, Bool.and_eq_true]
    refine ⟨beq_self_eq_true _, ?_⟩
    exact isDeepEqualFields_self fs fs h.2 fun f hf => lookup_eq_of_mem h.1 hf

theorem isDeepEqualElements_self : ∀ xs : List Json, WFList xs → isDeepEqualElements xs xs = true
  | [], _ => rfl
  | x :: xs, h => by
    rw [isDeepEqualElements, isDeepEqualJson_self x h.1, isDeepEqualElements_self xs h.2]
    rfl

theorem isDeepEqualFields_self : ∀ (fs gs : List (String × Json)), WFFields fs →
    (∀ f ∈ fs, gs.lookup f.1 = some f.2) → isDeepEqualFields fs gs = true
  | [], _, _, _ => rfl
  | (k, v) :: fs, gs, h, hgs => by
    have hk : gs.lookup k = some v := hgs (k, v) mem_cons_self
    rw [isDeepEqualFields, hk]
    dsimp only
    rw [isDeepEqualJson_self v h.1, isDeepEqualFields_self fs gs h.2 fun f hf => hgs f (mem_cons_of_mem _ hf)]
    rfl

end

structure ToolResultData.Reads (original : ToolResultData) (data : Json) : Prop where
  data_eq : data = .obj original.data
  message : original.data.lookup "message" = some (.obj original.message)
  content : ∃ rest, original.message.lookup "content" = some (.arr (.obj original.result :: rest))
  blocks : ∃ blocks, original.result.lookup "content" = some (.arr blocks)
    ∧ blocks.mapM resultBlock? = some original.content
  callId : stringField? (original.message.lookup "source") "callId" = some original.callId

variable {data : Json} {original : ToolResultData}

theorem toolResultData?_eq_some_iff : toolResultData? data = some original ↔ original.Reads data := by
  have hobj : ∀ {v : Json} {fields : List (String × Json)}, v.obj? = some fields ↔ v = .obj fields := by
    intro v fields
    cases v <;> simp [obj?]
  have harr : ∀ {v : Json} {xs : List Json}, v.arr? = some xs ↔ v = .arr xs := by
    intro v xs
    cases v <;> simp [arr?]
  unfold toolResultData?
  simp only [Option.bind_eq_bind, Option.bind_eq_some_iff, Option.pure_def, Option.some.injEq, hobj, harr]
  constructor
  · rintro ⟨fields, rfl, _, hmessage, message, rfl, _, hcontent, elements, rfl, _, hhead, result, rfl, _,
      hblocks, blocks, rfl, content, hread, callId, hcall, rfl⟩
    obtain ⟨rest, rfl⟩ := List.head?_eq_some_iff.mp hhead
    exact ⟨rfl, hmessage, ⟨rest, hcontent⟩, ⟨blocks, hblocks, hread⟩, hcall⟩
  · rintro ⟨rfl, hmessage, ⟨rest, hcontent⟩, ⟨blocks, hblocks, hread⟩, hcall⟩
    exact ⟨original.data, rfl, _, hmessage, original.message, rfl, _, hcontent, _, rfl, _, rfl,
      original.result, rfl, _, hblocks, blocks, rfl, original.content, hread, original.callId, hcall, rfl⟩

/-- The data of a `tool/result` with the content of its block blanked. -/
def blanked (data message result : List (String × Json)) : Json :=
  let result := JsonText.setField result "content" .null
  .obj (JsonText.setField data "message" (.obj (JsonText.setField message "content" (.arr [.obj result]))))

theorem resultRest_eq {data message result : List (String × Json)} {others : List Json}
    (hmessage : data.lookup "message" = some (.obj message))
    (hcontent : message.lookup "content" = some (.arr (.obj result :: others))) :
    resultRest (.obj data) = .ok (blanked data message result) := by
  have hzero : List.lookup "0" (ownFields (some (.arr (.obj result :: others)))) = some (.obj result) := by
    simp only [ownFields, mapIdx_cons]
    rfl
  have hdata : jsGet (some (.obj data)) "message" = .ok (some (.obj message)) := congrArg _ hmessage
  have hblocks : jsGet (some (.obj message)) "content" = .ok (some (.arr (.obj result :: others))) :=
    congrArg _ hcontent
  have hblock : jsGet (some (.arr (.obj result :: others))) "0" = .ok (some (.obj result)) := by
    rw [jsGet, if_neg (by decide), hzero]
  unfold resultRest
  rw [hdata, ok_bind, hblocks, ok_bind, hblock, ok_bind]
  rfl

/-- **Blanked, a replacement is the original.** -/
theorem resultRest_withContent (h : original.Reads data) (content : List ResultBlock) :
    resultRest data = .ok (blanked original.data original.message original.result)
      ∧ resultRest (original.withContent content) = .ok (blanked original.data original.message original.result) := by
  obtain ⟨rfl, hmessage, ⟨others, hcontent⟩, -, -⟩ := h
  refine ⟨resultRest_eq hmessage hcontent, ?_⟩
  unfold ToolResultData.withContent
  dsimp only
  rw [resultRest_eq (lookup_setField _ _ _ _) (lookup_setField _ _ _ _), blanked, blanked]
  rw [setField_setField, setField_setField, setField_setField]

/-! ## Blocks as they are read -/

def ResultBlock.Read : ResultBlock → Prop
  | .text fields _ => (Json.obj fields).WF ∧ fields.lookup "type" = some (.str "text")
  | .rich block => block.WF ∧ resultBlock? block = some (.rich block)

variable {block : ResultBlock}

theorem resultBlock?_read {value : Json} (h : resultBlock? value = some block) (hwf : value.WF) : block.Read := by
  have hread := h
  unfold resultBlock? at h
  simp only [Option.bind_eq_bind, Option.bind_eq_some_iff, Option.pure_def] at h
  obtain ⟨fields, hfields, _, htype, type, hstr, h⟩ := h
  obtain rfl : value = .obj fields := by
    cases value <;> cases hfields
    rfl
  split at h
  · next heq =>
    simp only [Option.bind_eq_some_iff, Option.some.injEq] at h
    obtain ⟨_, -, text, -, rfl⟩ := h
    rw [str?_eq_some_iff] at hstr
    exact ⟨hwf, by rw [htype, hstr, heq]⟩
  · cases h
    exact ⟨hwf, hread⟩

theorem ResultBlock.Read.back (h : block.Read) : block.toJson.WF ∧ ∃ back, resultBlock? block.toJson = some back
      ∧ measureContent [back] = measureContent [block] := by
  cases block with
  | text fields text =>
    refine ⟨setField_wf h.1 (wf_str text), .text (setField fields "text" (.str text)) text, ?_, rfl⟩
    unfold toJson resultBlock?
    have htype : (setField fields "text" (.str text)).lookup "type" = some (.str "text") := by
      rw [lookup_setField, if_neg (by decide)]
      exact h.2
    have htext : (setField fields "text" (.str text)).lookup "text" = some (.str text) := by
      rw [lookup_setField, if_pos rfl]
    simp only [obj?, Option.bind_eq_bind, Option.bind_some, htype, htext, str?, if_true]
    rfl
  | rich block => exact ⟨h.1, .rich block, h.2, rfl⟩

theorem measureContent_cons (block : ResultBlock) (rest : List ResultBlock) :
    measureContent (block :: rest) = measureContent [block] + measureContent rest := by
  cases block with
  | text fields text => rfl
  | rich block => exact (Nat.zero_add _).symm

variable {blocks : List ResultBlock}

theorem mapM_resultBlock? (h : ∀ block ∈ blocks, block.Read) :
    ∃ back, (blocks.map toJson).mapM resultBlock? = some back
      ∧ measureContent back = measureContent blocks := by
  induction blocks with
  | nil => exact ⟨[], rfl, rfl⟩
  | cons block rest ih =>
    obtain ⟨-, first, hfirst, hmeasure⟩ := (h block mem_cons_self).back
    obtain ⟨back, hback, hrest⟩ := ih fun other hmem => h other (mem_cons_of_mem _ hmem)
    refine ⟨first :: back, ?_, ?_⟩
    · rw [map_cons, mapM_cons, hfirst, hback]
      rfl
    · rw [measureContent_cons, measureContent_cons block, hmeasure, hrest]

theorem pruneBlocks_read {removedStart removedEnd consumed : Nat} {markerInserted : Bool}
    (h : ∀ block ∈ blocks, block.Read) :
    ∀ block ∈ (pruneBlocks removedStart removedEnd consumed markerInserted blocks).1, block.Read := by
  induction blocks generalizing consumed markerInserted with
  | nil => exact forall_mem_nil _
  | cons block rest ih =>
    have hrest : ∀ other ∈ rest, other.Read := fun other hmem => h other (mem_cons_of_mem _ hmem)
    have hfirst := h block mem_cons_self
    cases block with
    | rich block =>
      unfold pruneBlocks
      exact forall_mem_cons.mpr ⟨hfirst, ih hrest⟩
    | text fields text =>
      have hkept : ∀ kept, (ResultBlock.text fields kept).Read := fun _ => hfirst
      unfold pruneBlocks
      dsimp only
      generalize String.ofList _ ++ _ ++ _ = kept
      intro other hmem
      split at hmem
      · exact ih hrest other hmem
      · rcases mem_cons.mp hmem with rfl | hmem
        · exact hkept _
        · exact ih hrest other hmem

theorem pruneContent_some {config : ResolvedConfig} {pruned : List ResultBlock}
    (h : pruneContent config blocks = .ok (some pruned)) (hread : ∀ block ∈ blocks, block.Read) :
    (∀ block ∈ pruned, block.Read) ∧ measureContent pruned < measureContent blocks := by
  unfold pruneContent at h
  dsimp only at h
  split at h
  · cases h
  · split at h
    · cases h
    · split at h
      · cases h
      · next hsmaller =>
        cases Except.ok.inj h
        exact ⟨pruneBlocks_read hread, by omega⟩

theorem ToolResultData.Reads.wf (h : original.Reads data) (hwf : data.WF) :
    (obj original.message).WF ∧ (obj original.result).WF ∧ ∀ block ∈ original.content, block.Read := by
  obtain ⟨rfl, hmessage, ⟨others, hcontent⟩, ⟨blocks, hblocks, hread⟩, -⟩ := h
  have hget : ∀ {fields : List (String × Json)} {key : String} {v : Json}, (obj fields).WF →
      fields.lookup key = some v → v.WF := fun hfields hv => get?_wf hfields hv
  have hmessageWf := hget hwf hmessage
  have hcontentWf := hget hmessageWf hcontent
  rw [wf_arr] at hcontentWf
  have hresultWf := hcontentWf _ mem_cons_self
  have hblocksWf := hget hresultWf hblocks
  rw [wf_arr] at hblocksWf
  refine ⟨hmessageWf, hresultWf, ?_⟩
  clear hblocks
  generalize original.content = content at hread
  induction blocks generalizing content with
  | nil =>
    cases hread
    exact forall_mem_nil _
  | cons value rest ih =>
    rw [mapM_cons] at hread
    simp only [Option.bind_eq_bind, Option.bind_eq_some_iff, Option.pure_def, Option.some.injEq] at hread
    obtain ⟨block, hblock, more, hmore, rfl⟩ := hread
    refine forall_mem_cons.mpr ⟨resultBlock?_read hblock (hblocksWf _ mem_cons_self), ?_⟩
    exact ih (fun v hv => hblocksWf v (mem_cons_of_mem _ hv)) more hmore

/-- **A replacement reads back** with the content it was given. -/
theorem withContent_reads (h : original.Reads data) (hwf : data.WF) {content : List ResultBlock}
    (hcontent : ∀ block ∈ content, block.Read) :
    (original.withContent content).WF ∧ ∃ back, toolResultData? (original.withContent content) = some back
        ∧ measureContent back.content = measureContent content := by
  obtain ⟨hmessageWf, hresultWf, -⟩ := h.wf hwf
  obtain ⟨rfl, -, -, -, hcall⟩ := h
  have hblocksWf : (arr (content.map toJson)).WF := by
    rw [wf_arr]
    intro value hvalue
    obtain ⟨block, hblock, rfl⟩ := mem_map.mp hvalue
    exact (hcontent block hblock).back.1
  unfold ToolResultData.withContent
  dsimp only
  set result := setField original.result "content" (.arr (content.map toJson))
    with hresult
  set message := setField original.message "content" (.arr [.obj result]) with hmessage
  have hresultWf' : (obj result).WF := setField_wf hresultWf hblocksWf
  have hmessageWf' : (obj message).WF := by
    refine setField_wf hmessageWf ?_
    rw [wf_arr]
    intro value hvalue
    rw [mem_singleton.mp hvalue]
    exact hresultWf'
  obtain ⟨back, hback, hmeasure⟩ := mapM_resultBlock? hcontent
  refine ⟨setField_wf hwf hmessageWf', ⟨setField original.data "message" (.obj message), message,
    result, back, original.callId⟩, toolResultData?_eq_some_iff.mpr ⟨rfl, ?_, ⟨[], ?_⟩, ⟨_, ?_, hback⟩, ?_⟩,
    hmeasure⟩
  · rw [lookup_setField, if_pos rfl]
  · rw [hmessage, lookup_setField, if_pos rfl]
  · rw [hresult, lookup_setField, if_pos rfl]
  · rw [hmessage, lookup_setField, if_neg (by decide)]
    exact hcall

/-! ## The surface takes a replacement -/

def prunedEvent (at' seq : Int) (data : Json) (now : EpochMs) : SessionEvent where
  type := "tool/result"
  seq := at'
  time := now.ms
  data := data
  sourceEventSeqs := some (.arr [.num (.int seq)])
  surfaceOp := some (.obj [("op", .str "replace"), ("start", .num (.int seq)), ("end", .num (.int seq))])

theorem candidate_pruned (hwf : data.WF) (at' seq : Int) (now : EpochMs) :
    candidate at' (prunedRequest seq data now) = .ok (prunedEvent at' seq data now) := by
  have hdata : snapshotJsonValue (prunedRequest seq data now).data = some data := snapshotJsonValue_ofJson hwf
  have hsupported : assertSupportedRequestHeader (prunedRequest seq data now).type data
      s!"session event \"{(prunedRequest seq data now).type}\"" = .ok () := by
    have htype : (prunedRequest seq data now).type = "tool/result" := rfl
    rw [htype]
    unfold assertSupportedRequestHeader
    rw [if_neg (by decide), if_neg (fun h => absurd h.1 (by decide))]
  unfold candidate
  rw [hdata]
  dsimp only
  rw [hsupported]
  rfl

/-- The event takes the place of one node of the surface, and no other node changes. -/
def Rewrites (log : List SessionEvent) (seq : Int) (e : SessionEvent) : Prop :=
  ∃ state rs left right, surfaceAfter log = .ok (state, rs) ∧ state.nodes = left ++ seq :: right
    ∧ seq ∉ left ∧ seq ∉ right
    ∧ surfaceAfter (log ++ [e]) = .ok (⟨left ++ (log.length : Int) :: right, state.replaceGeneration + 1⟩,
        rs ++ [⟨log.length, seq, seq, [seq]⟩])

section

variable {log : List SessionEvent} {state : SurfaceFoldState} {rs : List SurfaceFoldReplacement} {seq : Int}

theorem node_split (hlog : surfaceAfter log = .ok (state, rs)) (hmem : seq ∈ state.nodes) :
    ∃ left right, state.nodes = left ++ seq :: right ∧ seq ∉ left ∧ seq ∉ right := by
  obtain ⟨left, right, hnodes⟩ := append_of_mem hmem
  have hnodup := surfaceAfter_nodup hlog
  rw [hnodes, nodup_append, nodup_cons] at hnodup
  refine ⟨left, right, hnodes, fun hleft => ?_, hnodup.2.1.1⟩
  exact hnodup.2.2 seq hleft seq mem_cons_self rfl

theorem eventSeq?_node (hsafe : IsSafe seq) (hpos : 0 ≤ seq) : eventSeq? (.num (.int seq)) = some seq := by
  have hint : safeInt? (.num (.int seq)) = some seq := SessionEvent.safeInt?_eq_some_iff.mpr ⟨rfl, hsafe⟩
  rw [eventSeq?, hint, Option.filter_some, if_pos (decide_eq_true hpos)]

theorem replacementRange_single {left right : List Int} (hnodes : state.nodes = left ++ seq :: right)
    (hleft : seq ∉ left) :
    replacementRange state seq seq = .ok ⟨left.length, left.length, [seq]⟩ := by
  have hindex : state.nodes.idxOf? seq = some left.length := by
    have hnone : left.idxOf? seq = none := by
      rw [List.idxOf?_eq_none_iff]
      exact hleft
    rw [hnodes, idxOf?_append, hnone, List.idxOf?_cons]
    simp
  unfold replacementRange
  rw [hindex]
  dsimp only
  rw [if_neg (Nat.lt_irrefl _)]
  congr 2
  rw [hnodes, take_append, drop_append]
  simp

variable {at' : Int} {now : EpochMs}

theorem assertProvenance_pruned (hsafe : IsSafe seq)
    (hpos : 0 ≤ seq) (hlt : seq < at') : assertProvenance (prunedEvent at' seq data now) [seq] = .ok () := by
  have hcited : citedSources (prunedEvent at' seq data now) = .ok [seq] := by
    have hread : [num (.int seq)].mapM eventSeq? = some [seq] := by
      rw [mapM_cons, eventSeq?_node hsafe hpos]
      rfl
    have hearlier : [seq].find? (fun source => decide (at' ≤ source)) = none := by
      rw [List.find?_eq_none]
      intro source hmem
      rw [mem_singleton.mp hmem, decide_eq_true_eq]
      omega
    have hsource : (prunedEvent at' seq data now).sourceEventSeqs = some (.arr [.num (.int seq)]) := rfl
    have hseq : (prunedEvent at' seq data now).seq = at' := rfl
    unfold citedSources
    rw [hsource, hseq]
    dsimp only [arr?]
    rw [if_neg (by simp), hread]
    dsimp only
    rw [if_neg (not_not.mpr (nodup_singleton seq)), hearlier]
  rw [assertProvenance, hcited, ok_bind]
  dsimp only
  rw [if_pos]
  · rfl
  · simp

variable {event : SessionEvent}

theorem assertToolResultRewrite_pruned (hat : eventAt log seq = some event)
    (htype : event.type = "tool/result") (hwf : event.data.WF)
    (hread : original.Reads event.data) {content : List ResultBlock} :
    assertToolResultRewrite (prunedEvent at' seq (original.withContent content) now) [seq] log 0 = .ok () := by
  obtain ⟨hrest, hrest'⟩ := resultRest_withContent hread content
  obtain ⟨hmessage, hresult, -⟩ := hread.wf hwf
  have hblanked : (blanked original.data original.message original.result).WF := by
    have hdata := hwf
    rw [hread.data_eq] at hdata
    refine setField_wf hdata (setField_wf hmessage ?_)
    rw [wf_arr]
    intro value hvalue
    rw [mem_singleton.mp hvalue]
    exact setField_wf hresult wf_null
  unfold assertToolResultRewrite
  rw [if_neg fun hne => hne rfl]
  dsimp only
  rw [Int.sub_zero, hat, Option.filter_some, if_pos (decide_eq_true htype)]
  dsimp only
  rw [hrest, ok_bind]
  show (resultRest (original.withContent content) >>= _) = _
  rw [hrest', ok_bind, isDeepEqualJson_self _ hblanked, if_pos rfl]
  rfl

/-- **The surface takes a replacement** of one of its tool results. -/
theorem rewrites_pruned (hlog : surfaceAfter log = .ok (state, rs)) (hmem : seq ∈ state.nodes)
    (hsafe : IsSafe seq) (hat : eventAt log seq = some event)
    (htype : event.type = "tool/result") (hwf : event.data.WF)
    (hread : original.Reads event.data) (content : List ResultBlock) (now : EpochMs) :
    Rewrites log seq (prunedEvent log.length seq (original.withContent content) now) := by
  obtain ⟨left, right, hnodes, hleft, hright⟩ := node_split hlog hmem
  obtain ⟨hpos, hlt⟩ := surfaceAfter_below hlog seq hmem
  set e := prunedEvent log.length seq (original.withContent content) now with he
  have hop : surfaceOpOf e = .ok (some (.replace seq seq)) := by
    have hshape : replaceOp? [("op", .str "replace"), ("start", .num (.int seq)), ("end", .num (.int seq))]
        = some (.replace seq seq) := by
      have hnode := eventSeq?_node hsafe hpos
      unfold replaceOp?
      rw [if_pos ⟨rfl, rfl⟩]
      simp [lookup_cons, hnode]
    have heligible : isSurfaceEligibleType e.type = true := by
      have htype : e.type = "tool/result" := rfl
      rw [htype]
      decide
    have hmarker : e.surfaceOp = some (.obj [("op", .str "replace"), ("start", .num (.int seq)),
      ("end", .num (.int seq))]) := rfl
    unfold surfaceOpOf
    rw [if_neg (not_not.mpr heligible), hmarker]
    dsimp only
    rw [hshape]
  have hplan : planSurfaceEvent state e log.length log 0
      = .ok (some (.replace ⟨log.length, seq, seq, [seq]⟩ left.length left.length)) := by
    unfold planSurfaceEvent
    rw [if_neg fun hne => hne rfl, hop, ok_bind]
    dsimp only
    rw [replacementRange_single hnodes hleft, ok_bind, assertProvenance_pruned hsafe hpos hlt, ok_bind,
      assertToolResultRewrite_pruned hat htype hwf hread, ok_bind]
    rfl
  refine ⟨state, rs, left, right, hlog, hnodes, hleft, hright, ?_⟩
  rw [surfaceAfter_snoc, hlog, ok_bind]
  dsimp only
  rw [applySurfaceEvent, hplan, ok_bind, pure_eq_ok, ok_bind, applySurfacePlan]
  have htake : state.nodes.take left.length = left := by
    rw [hnodes, take_left']
    rfl
  have hdrop : state.nodes.drop (left.length + (left.length - left.length + 1)) = right := by
    rw [hnodes, Nat.sub_self, drop_append]
    simp
  dsimp only
  rw [htake, hdrop]
  rfl

end

/-! ## A pass -/

def toolChars (e : SessionEvent) : Nat :=
  if e.type = "tool/result" then
    ((toolResultData? e.data).map fun original => measureContent original.content).getD 0
  else 0

def charsAt (log : List SessionEvent) (seq : Int) : Nat := ((eventAt log seq).map toolChars).getD 0

def surfaceChars (log : List SessionEvent) : Nat :=
  match surfaceAfter log with
  | .ok (state, _) => (state.nodes.map (charsAt log)).sum
  | .error _ => 0

theorem Rewrites.shrinks {log : List SessionEvent} {seq : Int} {e : SessionEvent} (h : Rewrites log seq e)
    (hless : toolChars e < charsAt log seq) : surfaceChars (log ++ [e]) < surfaceChars log := by
  obtain ⟨state, rs, left, right, hlog, hnodes, -, -, hafter⟩ := h
  have hbelow := surfaceAfter_below hlog
  have hsame : ∀ n ∈ state.nodes, charsAt (log ++ [e]) n = charsAt log n := by
    intro n hn
    rw [charsAt, charsAt, SessionLog.eventAt_append (hbelow n hn)]
  have hnew : charsAt (log ++ [e]) (log.length : Int) = toolChars e := by
    rw [charsAt, eventAt_last]
    rfl
  have hleft : left.map (charsAt (log ++ [e])) = left.map (charsAt log) := by
    apply map_congr_left
    intro n hn
    exact hsame n (by rw [hnodes]; exact mem_append_left _ hn)
  have hright : right.map (charsAt (log ++ [e])) = right.map (charsAt log) := by
    apply map_congr_left
    intro n hn
    exact hsame n (by rw [hnodes]; exact mem_append_right _ (mem_cons_of_mem _ hn))
  unfold surfaceChars
  rw [hafter, hlog]
  dsimp only
  rw [hnodes, map_append, map_cons, sum_append, sum_cons, map_append, map_cons,
    sum_append, sum_cons, hleft, hright, hnew]
  omega

namespace PairedSession

variable {p q : PairedSession} {request : AppendRequest}

theorem Reachable.admits {state : SurfaceFoldState} {rs : List SurfaceFoldReplacement} (h : p.Reachable) {e : SessionEvent}
    (hcandidate : candidate p.log.length request = .ok e) (hafter : surfaceAfter (p.log ++ [e]) = .ok (state, rs)) :
    ∃ ref, (p.session.admitAppend request).2 = .ok ref ∧ ref.event = e := by
  obtain ⟨a, hrep, hrest⟩ := h.session.atRest
  have hlog : p.log = a.log := hrep.log
  rw [hlog] at hcandidate hafter
  obtain ⟨before, rs₀, plan, hbefore, hplan, -, -⟩ := surfaceAfter_snoc_ok hafter
  have hclosed : ¬ isAppending a.entry = true := by
    intro hopen
    unfold isAppending at hopen
    cases hentry : a.entry with
    | none =>
      rw [hentry] at hopen
      cases hopen
    | some entry =>
      rw [hentry, Option.any_some, (hrest.entry entry hentry).1] at hopen
      cases hopen
  have hfold : (⟨before.nodes, rs₀.length⟩ : SurfaceFoldState) = before := by rw [← surfaceAfter_generation hbefore]
  have hadmitted : a.admitAppend request = .ok e := by
    unfold ScratchSession.admitAppend
    rw [hcandidate, ok_bind, if_neg hclosed, foldSurface_of_surfaceAfter hbefore, ok_bind, hfold, hplan]
    rfl
  obtain ⟨s', result, hresult, -, hmap, -⟩ := hrep.admitAppend request
  rw [hadmitted] at hmap
  rw [hresult]
  cases result with
  | error err => cases hmap
  | ok ref => exact ⟨ref, rfl, Except.ok.inj hmap⟩

theorem Reachable.data_wf {seq : Int} {event : SessionEvent} (h : p.Reachable) (hat : eventAt p.log seq = some event) : event.data.WF := by
  obtain ⟨a, hrep, hrest⟩ := h.session.atRest
  have hlog : p.log = a.log := hrep.log
  have hmem : event ∈ a.log := by
    rw [← hlog]
    unfold eventAt at hat
    split at hat
    · exact mem_of_getElem? hat
    · cases hat
  exact (hrest.storable event hmem).wf.data

/-- The append of a replacement that pruning a candidate comes to, and the session before it. -/
def replacementAppend (config : ResolvedConfig) (p : PairedSession) (candidate : SnapshotCandidate)
    (answers : PruneAnswers) : Option (PairedSession × AppendRequest) :=
  match toolResultData? candidate.event.data with
  | none => none
  | some original =>
    match pruneContent config original.content, estimateMessage (.obj original.message) with
    | .ok (some content), .ok shadowedTokenCount =>
      match p.append (pruneRequest candidate.seq shadowedTokenCount answers.prune.now)
        answers.prune.listeners with
      | (q, .ok _) => some (q, prunedRequest candidate.seq (original.withContent content) answers.replacement.now)
      | (_, .error _) => none
    | _, _ => none

variable {config : ResolvedConfig} {candidate : SnapshotCandidate} {answers : PruneAnswers}
  {entry : Option PrunedEntry}

theorem pruneCandidate_ok (h : p.pruneCandidate config candidate answers = (q, .ok entry)) :
    q = p ∨ ∃ before request ref, p.replacementAppend config candidate answers = some (before, request)
      ∧ before.append request answers.replacement.listeners = (q, .ok ref) := by
  unfold pruneCandidate at h
  split at h
  · cases (Prod.mk.inj h).2
  · next original hread =>
    split at h
    · cases (Prod.mk.inj h).2
    · exact Or.inl (Prod.mk.inj h).1.symm
    · next content hpruned =>
      split at h
      · cases (Prod.mk.inj h).2
      · next price hprice =>
        split at h
        · cases (Prod.mk.inj h).2
        · next before record hrecord =>
          split at h
          · cases (Prod.mk.inj h).2
          · next after ref happend =>
            refine Or.inr ⟨before, prunedRequest candidate.seq (original.withContent content)
              answers.replacement.now, ref, ?_, ?_⟩
            · unfold replacementAppend
              rw [hread]
              dsimp only
              rw [hpruned, hprice]
              dsimp only
              rw [hrecord]
            · rw [happend, (Prod.mk.inj h).1]

/-- What a pass still has to look at: tool results of the surface, each once. -/
structure Ready (p : PairedSession) (candidates : List SnapshotCandidate) : Prop where
  reached : p.Reachable
  found : ∀ c ∈ candidates, Candidate p.log c ∧ IsSafe c.seq
  live : ∃ state rs, surfaceAfter p.log = .ok (state, rs) ∧ ∀ c ∈ candidates, c.seq ∈ state.nodes
  distinct : (candidates.map SnapshotCandidate.seq).Nodup

/-- The session takes the request as a rewrite of the node with less text. -/
def Takes (p : PairedSession) (seq : Int) (request : AppendRequest) : Prop :=
  ∃ ref, (p.session.admitAppend request).2 = .ok ref ∧ Rewrites p.log seq ref.event
    ∧ surfaceChars (p.log ++ [ref.event]) < surfaceChars p.log

variable {rest : List SnapshotCandidate}

/-- **The replacement of a candidate is taken.** -/
theorem Ready.takes (h : p.Ready (candidate :: rest))
    (happend : p.replacementAppend config candidate answers = some (q, request)) :
    q.Takes candidate.seq request ∧ q.Ready (candidate :: rest)
      ∧ ∃ e, SessionLog.candidate q.log.length request = .ok e ∧ Rewrites q.log candidate.seq e := by
  obtain ⟨⟨hat, htype⟩, hsafe⟩ := h.found candidate mem_cons_self
  unfold replacementAppend at happend
  split at happend
  · cases happend
  · next original hread =>
    split at happend
    · next content price hpruned hprice =>
      split at happend
      · next q' record hrecord =>
        obtain ⟨rfl, rfl⟩ := Prod.mk.inj (Option.some.inj happend)
        -- the metering event changes nothing the replacement depends on
        rcases h.reached.append_cases (pruneRequest candidate.seq price answers.prune.now)
          answers.prune.listeners with ⟨_, event, hok, hcandidate, happended⟩ | ⟨_, err, herr, -⟩
        · cases hrecord.symm.trans hok
          obtain ⟨state, rs, hlog, hlive⟩ := h.live
          obtain ⟨state', rs', hafter⟩ := happended.reached.accepted
          have hplain : isSurfaceEligibleType record.event.type = false := by
            rw [candidate_type hcandidate]
            show isSurfaceEligibleType "compaction/prune" = false
            decide
          have hsame : state' = state := by
            rw [happended.log] at hafter
            exact surfaceAfter_plain hlog hafter hplain
          rw [hsame] at hafter
          have hready : q'.Ready (candidate :: rest) := by
            refine ⟨happended.reached, fun c hc => ⟨?_, (h.found c hc).2⟩, ⟨state, rs', hafter, hlive⟩, h.distinct⟩
            rw [happended.log]
            exact (h.found c hc).1.mono
          have hat' : eventAt q'.log candidate.seq = some candidate.event :=
            (hready.found candidate mem_cons_self).1.1
          have hwf : candidate.event.data.WF := happended.reached.data_wf hat'
          have hreads : original.Reads candidate.event.data := toolResultData?_eq_some_iff.mp hread
          obtain ⟨hblocks, hless⟩ := pruneContent_some hpruned (hreads.wf hwf).2.2
          obtain ⟨hwf', back, hback, hmeasure⟩ := withContent_reads hreads hwf hblocks
          have hrewrites : Rewrites q'.log candidate.seq (prunedEvent q'.log.length candidate.seq
              (original.withContent content) answers.replacement.now) :=
            rewrites_pruned hafter (hlive candidate mem_cons_self) hsafe hat' htype hwf hreads content
              answers.replacement.now
          have hmade := candidate_pruned hwf' q'.log.length candidate.seq answers.replacement.now
          have hchars : toolChars (prunedEvent q'.log.length candidate.seq (original.withContent content)
              answers.replacement.now) < charsAt q'.log candidate.seq := by
            have hnew : toolChars (prunedEvent q'.log.length candidate.seq (original.withContent content)
                answers.replacement.now) = measureContent content := by
              have hresult : (prunedEvent q'.log.length candidate.seq (original.withContent content)
                  answers.replacement.now).type = "tool/result" := rfl
              rw [toolChars, if_pos hresult]
              show ((toolResultData? (original.withContent content)).map _).getD 0 = _
              rw [hback]
              exact hmeasure
            have hold : charsAt q'.log candidate.seq = measureContent original.content := by
              rw [charsAt, hat', Option.map_some, toolChars, if_pos htype, hread]
              rfl
            rw [hnew, hold]
            exact hless
          obtain ⟨_, _, _, _, -, -, -, -, hlast⟩ := id hrewrites
          obtain ⟨ref, hadmitted, hevent⟩ := happended.reached.admits hmade hlast
          refine ⟨⟨ref, hadmitted, ?_, ?_⟩, hready, _, hmade, hrewrites⟩
          · rw [hevent]
            exact hrewrites
          · rw [hevent]
            exact hrewrites.shrinks hchars
        · cases hrecord.symm.trans herr
      · cases happend
    · cases happend

/-- **One candidate**: the pass goes on with the others. -/
theorem Ready.next (h : p.Ready (candidate :: rest)) (hprune : p.pruneCandidate config candidate answers = (q, .ok entry)) :
    q.Ready rest := by
  have htail : ∀ {r : PairedSession}, r.Ready (candidate :: rest) → r.Ready rest := by
    intro r hr
    obtain ⟨state, rs, hlog, hlive⟩ := hr.live
    exact ⟨hr.reached, fun c hc => hr.found c (mem_cons_of_mem _ hc),
      ⟨state, rs, hlog, fun c hc => hlive c (mem_cons_of_mem _ hc)⟩,
      (nodup_cons.mp hr.distinct).2⟩
  rcases pruneCandidate_ok hprune with rfl | ⟨before, request, ref, happend, hreplaced⟩
  · exact htail h
  · obtain ⟨-, hready, e, hmade, state, rs, left, right, hlog, hnodes, -, -, hafter⟩ := h.takes happend
    rcases hready.reached.append_cases request answers.replacement.listeners with
      ⟨_, event, hok, hcandidate, happended⟩ | ⟨_, err, herr, -⟩
    · cases hreplaced.symm.trans hok
      cases hcandidate.symm.trans hmade
      refine ⟨happended.reached, fun c hc => ?_, ⟨_, _, by rw [happended.log, hafter], fun c hc => ?_⟩,
        (nodup_cons.mp h.distinct).2⟩
      · obtain ⟨hfound, hsafe⟩ := hready.found c (mem_cons_of_mem _ hc)
        rw [happended.log]
        exact ⟨hfound.mono, hsafe⟩
      · -- the others are other nodes
        obtain ⟨state', rs', hlog', hlive⟩ := hready.live
        cases Except.ok.inj (hlog.symm.trans hlog')
        have hne : c.seq ≠ candidate.seq := by
          intro heq
          exact (nodup_cons.mp h.distinct).1 (heq ▸ mem_map_of_mem hc)
        have hmem := hlive c (mem_cons_of_mem _ hc)
        rw [hnodes, mem_append, mem_cons] at hmem
        show c.seq ∈ left ++ _ :: right
        rw [mem_append, mem_cons]
        rcases hmem with hmem | hmem | hmem
        · exact Or.inl hmem
        · exact absurd hmem hne
        · exact Or.inr (Or.inr hmem)
    · cases hreplaced.symm.trans herr

/-- The replacements a pass over some candidates appends, each with the session it is appended to. -/
def replacementAppends (config : ResolvedConfig) (answers : Int → PruneAnswers) :
    PairedSession → List SnapshotCandidate → List (SnapshotCandidate × PairedSession × AppendRequest)
  | _, [] => []
  | p, candidate :: rest =>
    ((p.replacementAppend config candidate (answers candidate.seq)).map (candidate, ·)).toList
      ++ match p.pruneCandidate config candidate (answers candidate.seq) with
        | (_, .error _) => []
        | (p, .ok _) => replacementAppends config answers p rest

/-- **The run lemma**: every replacement of a pass is taken. -/
theorem Ready.appends {answers : Int → PruneAnswers} {candidates : List SnapshotCandidate} (h : p.Ready candidates) :
    ∀ c q request, (c, q, request) ∈ replacementAppends config answers p candidates → q.Takes c.seq request := by
  induction candidates generalizing p with
  | nil => intro c q request hmem; cases hmem
  | cons candidate rest ih =>
    intro c q request hmem
    rw [replacementAppends, mem_append] at hmem
    rcases hmem with hmem | hmem
    · rw [Option.mem_toList, Option.map_eq_some_iff] at hmem
      obtain ⟨⟨q', request'⟩, happend, heq⟩ := hmem
      obtain ⟨rfl, rfl, rfl⟩ : candidate = c ∧ q' = q ∧ request' = request := by simpa [Prod.mk.injEq] using heq
      exact (h.takes happend).1
    · cases hprune : p.pruneCandidate config candidate (answers candidate.seq) with
      | mk p' outcome =>
        rw [hprune] at hmem
        cases outcome with
        | error e => cases hmem
        | ok entry => exact ih (h.next hprune) c q request hmem

end PairedSession

/-! ## Both sides -/

end CocoHarness.Compaction
