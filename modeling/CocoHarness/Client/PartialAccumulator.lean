/-
# CocoHarness.Client.PartialAccumulator — the message a client shows while it is streamed.

The client folds the chunks of a step into blocks of its own, in a sparse array under their indices; the host assembles
the message that replaces them.  The client shows its array in index order and the host lists its blocks as they were
first seen, and of a tool call that stays open they keep another id and name.  Otherwise the two are the same blocks
(`partial_projects`).
-/
import CocoHarness.Llm.AssembledStream

namespace CocoHarness.Client

open Lib Llm Llm.BlockAssembler List String StreamChunk

/-! ## The accumulator -/

inductive AssistantBlock where
  | text (text : String)
  | reasoning (text : String)
  | image (attachment : Json)
  | toolCall (callId name argsRaw : String)
  | other (block : Option ContentBlock)
  deriving DecidableEq

def toAssistantBlock : ContentBlock → AssistantBlock
  | .text text => .text text
  | .reasoning text => .reasoning text
  | .image attachment => .image attachment
  | .toolCall id name arguments => .toolCall id name arguments
  | .toolResult id content isError => .other (some (.toolResult id content isError))

def emptyAssistantBlock : ContentBlockType → AssistantBlock
  | .text => .text ""
  | .reasoning => .reasoning ""
  | .toolCall => .toolCall "" "" ""
  | .image | .toolResult => .other none

/-- The own properties of the array `blocks`; those whose key is no array index are not among its elements. -/
structure PartialAccumulator where
  blocks : InsertionMap Number AssistantBlock := ∅

namespace PartialAccumulator

def pushText (prev : Option AssistantBlock) (text : String) : AssistantBlock :=
  match prev with
  | some (.text before) => .text (before ++ text)
  | _ => .text ("" ++ text)

def pushReasoning (prev : Option AssistantBlock) (text : String) : AssistantBlock :=
  match prev with
  | some (.reasoning before) => .reasoning (before ++ text)
  | _ => .reasoning ("" ++ text)

def pushToolCall (prev : Option AssistantBlock) (id : String) (name : Option String) (argumentsDelta : String) :
    AssistantBlock :=
  let (callId, baseName, argsRaw) := match prev with
    | some (.toolCall callId name argsRaw) => (callId, name, argsRaw)
    | _ => ("", "", "")
  .toolCall (if callId = "" then id else callId) (name.getD baseName) (argsRaw ++ argumentsDelta)

def push (a : PartialAccumulator) : StreamChunk → PartialAccumulator
  | .blockStart index blockType => { blocks := a.blocks.set index (emptyAssistantBlock blockType) }
  | .textDelta index text => { blocks := a.blocks.set index (pushText (a.blocks.lookup index) text) }
  | .reasoningDelta index text => { blocks := a.blocks.set index (pushReasoning (a.blocks.lookup index) text) }
  | .toolCallDelta index id name argumentsDelta =>
    { blocks := a.blocks.set index (pushToolCall (a.blocks.lookup index) id name argumentsDelta) }
  | .blockEnd index block => { blocks := a.blocks.set index (toAssistantBlock block) }
  | .usage _ | .finish .. => a

end PartialAccumulator

def arrayIndex? : Number → Option Nat
  | .int n => if 0 ≤ n ∧ n < 2 ^ 32 - 1 then some n.toNat else none
  | .frac .. => none

def arrayIndices (keys : List Number) : List Nat := (keys.filterMap arrayIndex?).insertionSort (· ≤ ·)

def PartialAccumulator.toPartial (a : PartialAccumulator) : List AssistantBlock :=
  (arrayIndices a.blocks.keys).filterMap fun index : Nat => a.blocks.lookup (.int index)

def accumulated (chunks : List StreamChunk) : PartialAccumulator := chunks.foldl PartialAccumulator.push {}

/-! ## One index at a time -/

def advanced (prev : Option AssistantBlock) : StreamChunk → Option AssistantBlock
  | .blockStart _ blockType => some (emptyAssistantBlock blockType)
  | .textDelta _ text => some (PartialAccumulator.pushText prev text)
  | .reasoningDelta _ text => some (PartialAccumulator.pushReasoning prev text)
  | .toolCallDelta _ id name argumentsDelta => some (PartialAccumulator.pushToolCall prev id name argumentsDelta)
  | .blockEnd _ block => some (toAssistantBlock block)
  | .usage _ | .finish .. => prev

theorem lookup_push (a : PartialAccumulator) (c : StreamChunk) (i : Number) :
    (a.push c).blocks.lookup i = if c.index? = some i then advanced (a.blocks.lookup i) c else a.blocks.lookup i := by
  have hset : ∀ {index : Number} {f : Option AssistantBlock → AssistantBlock},
      (a.blocks.set index (f (a.blocks.lookup index))).lookup i
        = if some index = some i then some (f (a.blocks.lookup i)) else a.blocks.lookup i := by
    intro index f
    rw [InsertionMap.lookup_set]
    by_cases hi : i = index
    · subst hi
      rw [if_pos rfl, if_pos rfl]
    · rw [if_neg hi, if_neg fun h => hi (Option.some.inj h).symm]
  cases c with
  | blockStart index blockType => exact @hset index fun _ => emptyAssistantBlock blockType
  | textDelta index text => exact @hset index (PartialAccumulator.pushText · text)
  | reasoningDelta index text => exact @hset index (PartialAccumulator.pushReasoning · text)
  | toolCallDelta index id name more => exact @hset index (PartialAccumulator.pushToolCall · id name more)
  | blockEnd index block => exact @hset index fun _ => toAssistantBlock block
  | usage _ | finish _ _ => rfl

theorem lookup_accumulated (chunks : List StreamChunk) (i : Number) :
    (accumulated chunks).blocks.lookup i = (own i chunks).foldl advanced none := by
  have hrun : ∀ a : PartialAccumulator, (chunks.foldl PartialAccumulator.push a).blocks.lookup i
      = (own i chunks).foldl advanced (a.blocks.lookup i) := by
    induction chunks with
    | nil => exact fun _ => rfl
    | cons c chunks ih =>
      intro a
      rw [foldl_cons, ih, lookup_push, own_cons]
      split
      · rfl
      · rfl
  exact hrun {}

def started? : StreamChunk → Option Number
  | .blockStart index _ => some index
  | _ => none

def OpenedOnce (chunks : List StreamChunk) : Prop := (chunks.filterMap started?).Nodup

instance (chunks : List StreamChunk) : Decidable (OpenedOnce chunks) :=
  inferInstanceAs (Decidable (chunks.filterMap started?).Nodup)

/-- **The life of a block** that is opened once, and its type while it is open. -/
inductive Life (i : Number) : List StreamChunk → Option ContentBlockType → Prop
  | unused : Life i [] none
  | opened {t deltas} (hdeltas : ∀ d ∈ deltas, d.isDelta = true ∧ d.address? = some (i, t)) :
      Life i (.blockStart i t :: deltas) (some t)
  | closed {t deltas b} (hdeltas : ∀ d ∈ deltas, d.isDelta = true) :
      Life i (.blockStart i t :: deltas ++ [.blockEnd i b]) none

variable {chunks : List StreamChunk} {i : Number} {s s' : StreamCheck} {c : StreamChunk}

theorem Life.snoc (h : Life i (own i chunks) (s.opened.lookup i)) (honce : OpenedOnce (chunks ++ [c]))
    (hstep : Accepted s s' c) (hc : c.index? = some i) : Life i (own i chunks ++ [c]) (s'.opened.lookup i) := by
  generalize hlife : own i chunks = owned at h
  generalize hopened : s.opened.lookup i = opened at h
  cases hstep with
  | @start j t hnew hset =>
    cases hc
    rw [hset, InsertionMap.lookup_set, if_pos rfl]
    cases h with
    | unused => exact .opened (forall_mem_nil _)
    | opened => rw [hnew] at hopened; cases hopened
    | @closed t' deltas b hdeltas =>
      -- the first start of the index is among the chunks before
      have hmem : blockStart j t' ∈ chunks :=
        mem_of_mem_filter (hlife ▸ mem_append_left _ (mem_cons_self ..) : blockStart j t' ∈ own j chunks)
      rw [OpenedOnce, filterMap_append, nodup_append] at honce
      exact absurd rfl (honce.2.2 j (mem_filterMap.mpr ⟨_, hmem, rfl⟩) j (mem_singleton_self j))
  | @delta _ j t hdelta haddr hopen hsame =>
    have hj : j = i := by
      rw [index?, haddr] at hc
      exact Option.some.inj hc
    subst hj
    rw [hsame, hopened]
    rw [hopen] at hopened
    subst hopened
    cases h with
    | @opened _ deltas hdeltas =>
      refine .opened fun d hd => ?_
      rcases mem_append.mp hd with hd | hd
      · exact hdeltas d hd
      · rw [mem_singleton.mp hd]
        exact ⟨hdelta, haddr⟩
  | @stop j b hopen herase =>
    cases hc
    rw [herase, InsertionMap.lookup_erase, if_pos rfl]
    rw [hopen] at hopened
    subst hopened
    cases h with
    | opened hdeltas => exact .closed fun d hd => (hdeltas d hd).1
  | other haddr _ =>
    rw [index?, haddr] at hc
    cases hc

theorem life (h : validateChunks {} chunks = .ok s) (honce : OpenedOnce chunks) (i : Number) :
    Life i (own i chunks) (s.opened.lookup i) := by
  induction chunks using List.reverseRecOn generalizing s with
  | nil =>
    cases h
    exact .unused
  | append_singleton chunks c ih =>
    rw [validateChunks_append, bind_eq_ok_iff] at h
    obtain ⟨mid, hmid, h⟩ := h
    simp only [validateChunks, bind_eq_ok_iff] at h
    obtain ⟨s', hstep, h⟩ := h
    cases h
    have haccepted := validateChunk_accepted hstep
    have hbefore := ih hmid (by
      rw [OpenedOnce, filterMap_append, nodup_append] at honce
      exact honce.1)
    rw [own_append, own_cons]
    by_cases hc : c.index? = some i
    · rw [if_pos hc]
      exact hbefore.snoc honce haccepted hc
    · rw [if_neg hc, haccepted.lookup_other hc]
      show Life i (own i chunks ++ []) _
      rw [append_nil]
      exact hbefore

/-! ## What the two make of a block -/

def callIds (chunks : List StreamChunk) : List String :=
  chunks.filterMap fun | .toolCallDelta _ id _ _ => some id | _ => none

def callNames (chunks : List StreamChunk) : List String :=
  chunks.filterMap fun | .toolCallDelta _ _ name _ => name | _ => none

/-- Of a call whose deltas these are: the first id that is not empty is the last, and so is the last name. -/
structure OneCall (i : Number) (chunks : List StreamChunk) : Prop where
  id : ((callIds chunks).find? (· ≠ "")).getD "" = (callIds chunks).getLast?.getD s!"call-{printIndex i}"
  name : (callNames chunks).getLast?.getD "" = ((callNames chunks).filter (· ≠ "")).getLast?.getD ""

variable {deltas : List StreamChunk}

theorem foldl_text (h : ∀ d ∈ deltas, d.isDelta = true ∧ d.address? = some (i, .text)) (text : String) :
    deltas.foldl advanced (some (.text text)) = some (.text (text ++ joined (deltas.filterMap text?))) := by
  induction deltas generalizing text with
  | nil => rw [filterMap_nil, joined, append_empty]; rfl
  | cons d deltas ih =>
    obtain ⟨⟨hdelta, haddr⟩, hrest⟩ := forall_mem_cons.mp h
    cases d with
    | textDelta _ more =>
      show deltas.foldl advanced (some (.text (text ++ more))) = some (.text (text ++ (more ++ _)))
      rw [ih hrest, String.append_assoc]
    | reasoningDelta | toolCallDelta => cases haddr
    | _ => cases hdelta

theorem foldl_reasoning (h : ∀ d ∈ deltas, d.isDelta = true ∧ d.address? = some (i, .reasoning)) (text : String) :
    deltas.foldl advanced (some (.reasoning text)) = some (.reasoning (text ++ joined (deltas.filterMap text?))) := by
  induction deltas generalizing text with
  | nil => rw [filterMap_nil, joined, append_empty]; rfl
  | cons d deltas ih =>
    obtain ⟨⟨hdelta, haddr⟩, hrest⟩ := forall_mem_cons.mp h
    cases d with
    | reasoningDelta _ more =>
      show deltas.foldl advanced (some (.reasoning (text ++ more))) = some (.reasoning (text ++ (more ++ _)))
      rw [ih hrest, String.append_assoc]
    | textDelta | toolCallDelta => cases haddr
    | _ => cases hdelta

/-- The first id that is not empty stays, the last name replaces those before it. -/
theorem foldl_toolCall (h : ∀ d ∈ deltas, d.isDelta = true ∧ d.address? = some (i, .toolCall)) (callId name args : String) :
    deltas.foldl advanced (some (.toolCall callId name args))
      = some (.toolCall (if callId = "" then ((callIds deltas).find? (· ≠ "")).getD "" else callId)
          ((callNames deltas).getLast?.getD name) (args ++ joined ((deltas.filterMap call?).map (·.2.2)))) := by
  induction deltas generalizing callId name args with
  | nil =>
    show some (AssistantBlock.toolCall callId name args) = some (.toolCall (if callId = "" then "" else callId) name (args ++ ""))
    rw [append_empty]
    split
    · next hempty => rw [hempty]
    · rfl
  | cons d deltas ih =>
    obtain ⟨⟨hdelta, haddr⟩, hrest⟩ := forall_mem_cons.mp h
    cases d with
    | toolCallDelta _ id name' more =>
      show deltas.foldl advanced (some (.toolCall (if callId = "" then id else callId) (name'.getD name) (args ++ more)))
        = some (.toolCall (if callId = "" then ((id :: callIds deltas).find? (· ≠ "")).getD "" else callId) _
            (args ++ (more ++ _)))
      rw [ih hrest, String.append_assoc]
      congr 2
      · by_cases hempty : callId = ""
        · rw [if_pos hempty, if_pos hempty]
          by_cases hid : id = ""
          · rw [if_pos hid, find?_cons_of_neg (by simp [hid])]
          · rw [if_neg hid, find?_cons_of_pos (by simp [hid])]
            rfl
        · rw [if_neg hempty, if_neg hempty, if_neg hempty]
      · cases name' with
        | none => rfl
        | some name' =>
          show _ = (name' :: callNames deltas).getLast?.getD name
          rw [getLast?_cons]
          rfl
    | textDelta | reasoningDelta => cases haddr
    | _ => cases hdelta

theorem call_ids (chunks : List StreamChunk) : (chunks.filterMap call?).map (·.1) = callIds chunks := by
  rw [map_filterMap, callIds]
  congr 1
  funext d
  cases d <;> rfl

theorem call_names (chunks : List StreamChunk) :
    (chunks.filterMap call?).filterMap (·.2.1) = (callNames chunks).filter (· ≠ "") := by
  rw [filterMap_filterMap, callNames, filter_filterMap]
  congr 1
  funext d
  cases d <;> rfl

/-- **The client shows the block the host assembles.** -/
theorem lookup_projects (h : validateChunks {} chunks = .ok s) (honce : OpenedOnce chunks)
    (hcalls : .blockStart i .toolCall ∈ chunks → firstEnd (own i chunks) = none → OneCall i (own i chunks))
    (hused : own i chunks ≠ []) {b : ContentBlock} (hb : blockAt i chunks = .ok b) :
    (accumulated chunks).blocks.lookup i = some (toAssistantBlock b) := by
  rw [lookup_accumulated]
  unfold blockAt at hb
  have hlife := life h honce i
  generalize s.opened.lookup i = opened at hlife
  generalize hown : own i chunks = owned at *
  cases hlife with
  | unused => exact absurd rfl hused
  | @closed t deltas b' hdeltas =>
    have hend : firstEnd (.blockStart i t :: deltas ++ [.blockEnd i b']) = some b' := by
      rw [cons_append, firstEnd, findSome?_cons, findSome?_append]
      rw [show deltas.findSome? (·.endBlock?) = none from firstEnd_deltas hdeltas]
      rfl
    rw [hend] at hb
    cases hb
    rw [foldl_append]
    rfl
  | @opened t deltas hdeltas =>
    have hend : firstEnd (.blockStart i t :: deltas) = none := by
      show firstEnd deltas = none
      exact firstEnd_deltas fun d hd => (hdeltas d hd).1
    rw [hend] at hb
    cases t with
    | text =>
      cases hb
      exact (foldl_text hdeltas "").trans (by rw [empty_append]; rfl)
    | reasoning =>
      cases hb
      exact (foldl_reasoning hdeltas "").trans (by rw [empty_append]; rfl)
    | toolCall =>
      have hmem : blockStart i .toolCall ∈ own i chunks := hown ▸ mem_cons_self ..
      obtain ⟨hid, hname⟩ := hcalls (mem_of_mem_filter hmem) hend
      cases hb
      refine (foldl_toolCall hdeltas "" "" "").trans ?_
      rw [if_pos rfl, empty_append]
      show some (AssistantBlock.toolCall ((callIds (.blockStart i .toolCall :: deltas)).find? _ |>.getD "")
        ((callNames (.blockStart i .toolCall :: deltas)).getLast?.getD "") _) = _
      rw [hid, hname, ← call_ids, ← call_names]
      rfl
    | image | toolResult => cases hb

/-! ## The whole message -/

theorem mem_keys_accumulated : i ∈ (accumulated chunks).blocks.keys ↔ own i chunks ≠ [] := by
  rw [← InsertionMap.lookup_isSome_iff, lookup_accumulated]
  rcases eq_nil_or_concat (own i chunks) with hnil | ⟨cs, c, hcs⟩
  · rw [hnil]
    simp
  · have hmem : c ∈ own i chunks := by rw [hcs]; simp
    have hc : c.index? = some i := of_decide_eq_true (mem_filter.mp hmem).2
    rw [hcs, concat_eq_append, foldl_append]
    cases c with
    | usage _ | finish _ _ => cases hc
    | _ => simp [advanced]

theorem arrayIndices_eq_of_mem {keys keys' : List Number} (h : keys.Nodup) (h' : keys'.Nodup)
    (hmem : ∀ i, i ∈ keys ↔ i ∈ keys') : arrayIndices keys = arrayIndices keys' := by
  have hperm : keys.Perm keys' := (perm_ext_iff_of_nodup h h').mpr hmem
  have hmap := hperm.filterMap arrayIndex?
  exact ((perm_insertionSort _ _).trans (hmap.trans (perm_insertionSort _ _).symm)).eq_of_pairwise
    (fun _ _ _ _ => Nat.le_antisymm) (pairwise_insertionSort _ _) (pairwise_insertionSort _ _)

theorem int_mem_of_mem_arrayIndices {keys : List Number} {n : Nat} (h : n ∈ arrayIndices keys) : .int n ∈ keys := by
  rw [arrayIndices, mem_insertionSort] at h
  obtain ⟨i, hi, hn⟩ := mem_filterMap.mp h
  cases i with
  | int z =>
    rw [arrayIndex?] at hn
    split at hn
    · next hz => rwa [← Option.some.inj hn, Int.toNat_of_nonneg hz.1]
    · cases hn
  | frac => cases hn

theorem nodup_eraseDups (l : List Number) : l.eraseDups.Nodup := by
  induction l using List.reverseRecOn with
  | nil => exact nodup_nil
  | append_singleton l x ih =>
    rw [eraseDups_concat]
    split
    · exact ih
    · next hx =>
      rw [nodup_append]
      refine ⟨ih, nodup_singleton x, fun y hy z hz hyz => hx ?_⟩
      rw [← mem_singleton.mp hz, ← hyz]
      exact mem_eraseDups.mp hy

theorem blockAt_of_blocks {bs : List ContentBlock} (hblocks : (pushAll {} chunks).blocks = .ok bs)
    (hfinish : (pushAll {} chunks).finish ≠ .maxTokens) :
    Forall₂ (fun i b => blockAt i chunks = .ok b) (firstSeen chunks) bs := by
  rw [BlockAssembler.blocks, bind_eq_ok_iff] at hblocks
  obtain ⟨bs', hmap, hkept⟩ := hblocks
  rw [kept, if_neg hfinish] at hkept
  cases hkept
  rw [mapM_eq_ok_iff, order_pushAll] at hmap
  refine Forall₂.imp (fun i b hb => ?_) hmap
  obtain ⟨p, hp, hassemble⟩ := bind_eq_ok_iff.mp hb
  unfold mustGet at hp
  split at hp
  · next q hq =>
    cases hp
    have hused : own i chunks ≠ [] := fun hnil => by
      rw [(lookup_pushAll_isSome _ _).mpr hnil] at hq
      cases hq
    obtain ⟨p', hp', -, heq⟩ := assemble_lookup hused
    cases hq.symm.trans hp'
    rw [← heq, hassemble]
  · cases hp

theorem lookup_zip_of_forall₂ {R : Number → ContentBlock → Prop} {is : List Number} {bs : List ContentBlock}
    (h : Forall₂ R is bs) (hi : i ∈ is) : ∃ b, (is.zip bs).lookup i = some b ∧ R i b := by
  induction h with
  | nil => cases hi
  | @cons j b is bs hb _ ih =>
    rw [zip_cons_cons, lookup_cons]
    by_cases hj : i = j
    · subst hj
      exact ⟨b, by rw [beq_self_eq_true], hb⟩
    · rw [beq_eq_false_iff_ne.mpr hj]
      exact ih ((mem_cons.mp hi).resolve_left hj)

theorem filterMap_lookup_zip {is : List Number} (hnodup : is.Nodup) {bs : List ContentBlock} (h : is.length = bs.length) :
    (is.filterMap fun i => (is.zip bs).lookup i) = bs := by
  induction is generalizing bs with
  | nil => exact (eq_nil_of_length_eq_zero h.symm).symm
  | cons i is ih =>
    obtain ⟨hi, hnodup⟩ := nodup_cons.mp hnodup
    cases bs with
    | nil => cases h
    | cons b bs =>
      rw [zip_cons_cons, filterMap_cons_some (by rw [lookup_cons, beq_self_eq_true])]
      congr 1
      rw [← ih hnodup (Nat.succ.inj h)]
      apply filterMap_congr
      intro j hj
      rw [lookup_cons, beq_eq_false_iff_ne.mpr (ne_of_mem_of_not_mem hj hi)]
      rw [ih hnodup (Nat.succ.inj h)]

/-- **Host and client assemble the same blocks.**  Of an accepted stream that opens no block again, and in which every
tool call left open keeps the id and the name it had first, the client shows the blocks the host returns at array
indices, in index order; that is the host's own order when the blocks are first seen in index order. -/
theorem partial_projects {chunks : List StreamChunk} (haccepted : validateStream chunks = .ok ())
    (honce : OpenedOnce chunks) {bs : List ContentBlock} (hblocks : (pushAll {} chunks).blocks = .ok bs)
    (hfinish : (pushAll {} chunks).finish ≠ .maxTokens)
    (hcalls : ∀ i, .blockStart i .toolCall ∈ chunks → firstEnd (own i chunks) = none → OneCall i (own i chunks)) :
    (accumulated chunks).toPartial = ((arrayIndices (firstSeen chunks)).filterMap fun index : Nat =>
        ((firstSeen chunks).zip bs).lookup (.int index)).map toAssistantBlock ∧
      ((firstSeen chunks = (arrayIndices (firstSeen chunks)).map fun index : Nat => .int index) →
        (accumulated chunks).toPartial = bs.map toAssistantBlock) := by
  obtain ⟨s, hs, -⟩ := bind_eq_ok_iff.mp haccepted
  have hblock := blockAt_of_blocks hblocks hfinish
  have hmem : ∀ i, i ∈ (accumulated chunks).blocks.keys ↔ i ∈ firstSeen chunks := by
    intro i
    rw [mem_keys_accumulated, firstSeen, mem_eraseDups, mem_indices]
  have hnodup : (firstSeen chunks).Nodup := nodup_eraseDups _
  have hshown : (accumulated chunks).toPartial = ((arrayIndices (firstSeen chunks)).filterMap fun index : Nat =>
      ((firstSeen chunks).zip bs).lookup (.int index)).map toAssistantBlock := by
    rw [PartialAccumulator.toPartial, arrayIndices_eq_of_mem (InsertionMap.keys_nodup _) hnodup hmem, map_filterMap]
    apply filterMap_congr
    intro n hn
    have hi := int_mem_of_mem_arrayIndices hn
    obtain ⟨b, hlookup, hb⟩ := lookup_zip_of_forall₂ hblock hi
    rw [hlookup]
    exact lookup_projects hs honce (hcalls _) (mem_indices.mp (mem_eraseDups.mp hi)) hb
  refine ⟨hshown, fun hordered => ?_⟩
  rw [hshown]
  congr 1
  refine Eq.trans ?_ (filterMap_lookup_zip hnodup hblock.length_eq)
  conv_rhs => arg 2; rw [hordered]
  rw [filterMap_map]
  rfl

def interrupted : List StreamChunk :=
  [.blockStart (.int 0) .toolCall, .toolCallDelta (.int 0) "a" (some "read") "\x7b", .finish (.error .null) none]

theorem partial_projects_interrupted :
    (accumulated interrupted).toPartial = [ContentBlock.toolCall "a" "read" "\x7b"].map toAssistantBlock :=
  (@partial_projects interrupted (by decide +kernel) (by decide +kernel) [.toolCall "a" "read" "\x7b"] (by decide +kernel)
    (by decide +kernel) fun i hi _ => by
      obtain rfl : i = .int 0 := by simpa [interrupted] using hi
      exact ⟨by decide +kernel, by decide +kernel⟩).2 (by decide +kernel)

def outOfOrder : List StreamChunk :=
  [.blockStart (.int 1) .text, .textDelta (.int 1) "b", .blockStart (.int 0) .text, .textDelta (.int 0) "a",
    .blockEnd (.int 0) (.text "a"), .blockEnd (.int 1) (.text "b"), .finish .stop none]

theorem not_projects : ¬ ∀ chunks bs, validateStream chunks = .ok () → OpenedOnce chunks →
    (pushAll {} chunks).blocks = .ok bs → (pushAll {} chunks).finish ≠ .maxTokens →
    (accumulated chunks).toPartial = bs.map toAssistantBlock := by
  intro h
  have hblocks := h outOfOrder [.text "b", .text "a"] (by decide +kernel) (by decide +kernel) (by decide +kernel)
    (by decide +kernel)
  have hclient : (accumulated outOfOrder).toPartial = [.text "a", .text "b"] := by decide +kernel
  rw [hclient] at hblocks
  simp [toAssistantBlock] at hblocks

end CocoHarness.Client
