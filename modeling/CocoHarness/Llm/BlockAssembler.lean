/-
# CocoHarness.Llm.BlockAssembler — chunks to content blocks.

The assembler keeps one partial for each index, in the order the indices were first seen.  A delta adds to
its partial unless the partial was closed; the first end of an index closes it, and its block is the one
that is assembled whatever follows.

Chunks of different indices interleave in any way, and each partial depends on the chunks of its own index
alone (`lookup_pushAll`), so what is assembled is read off those (`blocks_eq`).
-/
import CocoHarness.Llm.Stream

namespace CocoHarness.Llm

open Lib List Option

/-! ## The assembler -/

/-- What is known of a block; `block` is set by its end, and freezes the rest. -/
structure PartialBlock where
  blockType : ContentBlockType
  text : String := ""
  toolCallId : Option String := none
  toolCallName : Option String := none
  toolCallArguments : String := ""
  block : Option ContentBlock := none
  deriving DecidableEq

structure BlockAssembler where
  partials : InsertionMap Number PartialBlock := ∅
  order : List Number := []
  usage : Option TokenUsage := none
  finishReason : Option FinishReason := none
  replayState : Option Json := none

namespace BlockAssembler

variable (a : BlockAssembler)

def ensure (index : Number) (blockType : ContentBlockType) : BlockAssembler × PartialBlock :=
  match a.partials.lookup index with
  | some p => (a, p)
  | none => ({ a with partials := a.partials.set index { blockType }, order := a.order ++ [index] }, { blockType })

def push : StreamChunk → BlockAssembler
  | .blockStart index blockType =>
    if (a.partials.lookup index).isSome then a
    else { a with order := a.order ++ [index], partials := a.partials.set index { blockType } }
  | .textDelta index text =>
    let (a, p) := a.ensure index .text
    if p.block.isSome then a
    else { a with partials := a.partials.set index { p with text := p.text ++ text } }
  | .reasoningDelta index text =>
    let (a, p) := a.ensure index .reasoning
    if p.block.isSome then a
    else { a with partials := a.partials.set index { p with text := p.text ++ text } }
  | .toolCallDelta index id name argumentsDelta =>
    let (a, p) := a.ensure index .toolCall
    if p.block.isSome then a
    else
      { a with
        partials := a.partials.set index { p with
          toolCallId := some id
          toolCallName := if name = none ∨ name = some "" then p.toolCallName else name
          toolCallArguments := p.toolCallArguments ++ argumentsDelta } }
  | .blockEnd index block =>
    let (a, p) := a.ensure index block.type
    -- the first close wins
    if p.block.isSome then a
    else { a with partials := a.partials.set index { p with block := some block } }
  | .usage usage => { a with usage := some usage }
  | .finish reason replayState => { a with finishReason := some reason, replayState }

def pushAll (chunks : List StreamChunk) : BlockAssembler := chunks.foldl push a

/-- Assemble a partial: its block when it was closed, what its deltas add up to otherwise. -/
def assemble (p : PartialBlock) (index : Number) : Except String ContentBlock :=
  match p.block with
  | some block => .ok block
  | none =>
    match p.blockType with
    | .text => .ok (.text p.text)
    | .reasoning => .ok (.reasoning p.text)
    | .toolCall => .ok (.toolCall (p.toolCallId.getD s!"call-{printIndex index}")
        (p.toolCallName.getD "") p.toolCallArguments)
    | other => .error s!"cannot assemble incomplete block of type \"{other.tag}\""

def mustGet (index : Number) : Except String PartialBlock :=
  match a.partials.lookup index with
  | some p => .ok p
  | none => .error s!"BlockAssembler invariant violated: no partial for index {printIndex index}"

/-- Finish reason from the finish chunk; `stop` when the stream ended without one. -/
def finish : FinishReason := a.finishReason.getD .stop

def kept (finish : FinishReason) (blocks : List ContentBlock) : List ContentBlock :=
  if finish = .maxTokens then blocks.filter (·.type ≠ .toolCall) else blocks

def blocks : Except String (List ContentBlock) := do
  let blocks ← a.order.mapM fun index => do assemble (← a.mustGet index) index
  return kept a.finish blocks

end BlockAssembler

/-! ## One index at a time -/

def own (i : Number) (chunks : List StreamChunk) : List StreamChunk := chunks.filter (·.index? = some i)

def firstSeen (chunks : List StreamChunk) : List Number := (chunks.filterMap (·.index?)).eraseDups

def PartialBlock.take (p : PartialBlock) : StreamChunk → PartialBlock
  | .blockStart .. | .usage _ | .finish .. => p
  | .textDelta _ text | .reasoningDelta _ text => if p.block.isSome then p else { p with text := p.text ++ text }
  | .toolCallDelta _ id name argumentsDelta =>
    if p.block.isSome then p
    else
      { p with
        toolCallId := some id
        toolCallName := if name = none ∨ name = some "" then p.toolCallName else name
        toolCallArguments := p.toolCallArguments ++ argumentsDelta }
  | .blockEnd _ block => if p.block.isSome then p else { p with block := some block }

/-- The partial of an index after a chunk, made for the type the chunk takes the block to have. -/
def advance (p : Option PartialBlock) (c : StreamChunk) : Option PartialBlock :=
  match c.address? with
  | none => p
  | some (_, blockType) => some ((p.getD { blockType }).take c)

namespace BlockAssembler

variable (a : BlockAssembler)

theorem ensure_lookup (index : Number) (blockType : ContentBlockType) :
    (a.ensure index blockType).2 = (a.partials.lookup index).getD { blockType } := by
  unfold ensure
  split
  · next p hp => rw [hp]; rfl
  · next hp => rw [hp]; rfl

theorem ensure_partials (index : Number) (blockType : ContentBlockType)
    (i : Number) : (a.ensure index blockType).1.partials.lookup i =
      if i = index then some ((a.partials.lookup index).getD { blockType }) else a.partials.lookup i := by
  unfold ensure
  split
  · next p hp =>
    split
    · next hi => rw [hi, hp]; rfl
    · rfl
  · next hp =>
    show (a.partials.set index { blockType }).lookup i = _
    rw [InsertionMap.lookup_set, hp]
    rfl

theorem ensure_order (index : Number) (blockType : ContentBlockType) : (a.ensure index blockType).1.order =
      if (a.partials.lookup index).isSome then a.order else a.order ++ [index] := by
  unfold ensure
  split
  · next p hp => rw [hp]; rfl
  · next hp => rw [hp]; rfl

/-- Change the partial of an index, made when it is new, unless it was closed. -/
def touch (index : Number) (blockType : ContentBlockType) (f : PartialBlock → PartialBlock) : BlockAssembler :=
  let (a, p) := a.ensure index blockType
  if p.block.isSome then a else { a with partials := a.partials.set index (f p) }

theorem touch_lookup (index : Number) (blockType : ContentBlockType) (f : PartialBlock → PartialBlock) (i : Number) :
    (a.touch index blockType f).partials.lookup i =
      if i = index then
        let p := (a.partials.lookup index).getD { blockType }
        some (if p.block.isSome then p else f p)
      else a.partials.lookup i := by
  have hpartial := ensure_lookup a index blockType
  have hlookup := ensure_partials a index blockType i
  unfold touch
  rcases hensure : a.ensure index blockType with ⟨a', p⟩
  rw [hensure] at hpartial hlookup
  dsimp only at hpartial hlookup ⊢
  rw [← hpartial] at hlookup ⊢
  by_cases hclosed : p.block.isSome = true
  · rw [if_pos hclosed, if_pos hclosed, hlookup]
  · rw [if_neg hclosed, if_neg hclosed, InsertionMap.lookup_set, hlookup]
    split <;> rfl

theorem touch_order (index : Number) (blockType : ContentBlockType) (f : PartialBlock → PartialBlock) :
    (a.touch index blockType f).order =
      if (a.partials.lookup index).isSome then a.order else a.order ++ [index] := by
  rw [← ensure_order a index blockType]
  unfold touch
  rcases a.ensure index blockType with ⟨a', p⟩
  dsimp only
  split <;> rfl

theorem touch_finishReason (index : Number) (blockType : ContentBlockType)
    (f : PartialBlock → PartialBlock) : (a.touch index blockType f).finishReason = a.finishReason := by
  unfold touch ensure
  cases a.partials.lookup index with
  | some p => dsimp only; split <;> rfl
  | none => rfl

theorem push_textDelta (index : Number) (text : String) :
    a.push (.textDelta index text) = a.touch index .text fun p => { p with text := p.text ++ text } := rfl

theorem push_reasoningDelta (index : Number) (text : String) :
    a.push (.reasoningDelta index text) = a.touch index .reasoning fun p => { p with text := p.text ++ text } := rfl

theorem push_toolCallDelta (index : Number) (id : String) (name : Option String) (argumentsDelta : String) :
    a.push (.toolCallDelta index id name argumentsDelta) = a.touch index .toolCall fun p =>
      { p with
        toolCallId := some id
        toolCallName := if name = none ∨ name = some "" then p.toolCallName else name
        toolCallArguments := p.toolCallArguments ++ argumentsDelta } := rfl

theorem push_blockEnd (index : Number) (block : ContentBlock) :
    a.push (.blockEnd index block) = a.touch index block.type fun p => { p with block := some block } := rfl

/-- **One chunk moves one partial.** -/
theorem lookup_push (c : StreamChunk) (i : Number) : (a.push c).partials.lookup i =
      if c.index? = some i then advance (a.partials.lookup i) c else a.partials.lookup i := by
  cases c with
  | blockStart index blockType =>
    show (if (a.partials.lookup index).isSome then a else _).partials.lookup i =
      if some index = some i then some ((a.partials.lookup i).getD { blockType }) else _
    cases hp : a.partials.lookup index with
    | some p =>
      rw [isSome_some, if_pos rfl]
      split
      · next hi => rw [← Option.some.inj hi, hp]; rfl
      · rfl
    | none =>
      rw [isSome_none, if_neg Bool.false_ne_true]
      show (a.partials.set index { blockType }).lookup i = _
      rw [InsertionMap.lookup_set]
      by_cases hi : i = index
      · rw [if_pos hi, hi, if_pos rfl, hp]; rfl
      · rw [if_neg hi, if_neg fun h => hi (Option.some.inj h).symm]
  | textDelta index text =>
    rw [push_textDelta, touch_lookup]
    by_cases hi : i = index
    · subst hi
      rw [if_pos rfl]
      exact (if_pos rfl).symm
    · rw [if_neg hi]
      exact (if_neg fun h => hi (Option.some.inj h).symm).symm
  | reasoningDelta index text =>
    rw [push_reasoningDelta, touch_lookup]
    by_cases hi : i = index
    · subst hi
      rw [if_pos rfl]
      exact (if_pos rfl).symm
    · rw [if_neg hi]
      exact (if_neg fun h => hi (Option.some.inj h).symm).symm
  | toolCallDelta index id name argumentsDelta =>
    rw [push_toolCallDelta, touch_lookup]
    by_cases hi : i = index
    · subst hi
      rw [if_pos rfl]
      exact (if_pos rfl).symm
    · rw [if_neg hi]
      exact (if_neg fun h => hi (Option.some.inj h).symm).symm
  | blockEnd index block =>
    rw [push_blockEnd, touch_lookup]
    by_cases hi : i = index
    · subst hi
      rw [if_pos rfl]
      exact (if_pos rfl).symm
    · rw [if_neg hi]
      exact (if_neg fun h => hi (Option.some.inj h).symm).symm
  | usage u | finish reason replayState => rfl

theorem order_push (c : StreamChunk) : (a.push c).order =
      match c.index? with
      | none => a.order
      | some i => if (a.partials.lookup i).isSome then a.order else a.order ++ [i] := by
  cases c with
  | blockStart index blockType =>
    show (if (a.partials.lookup index).isSome then a else _).order = _
    split
    · next h => exact (if_pos h).symm
    · next h => exact (if_neg h).symm
  | textDelta index text => rw [push_textDelta, touch_order]; rfl
  | reasoningDelta index text => rw [push_reasoningDelta, touch_order]; rfl
  | toolCallDelta index id name argumentsDelta => rw [push_toolCallDelta, touch_order]; rfl
  | blockEnd index block => rw [push_blockEnd, touch_order]; rfl
  | usage u | finish reason replayState => rfl

def reason? : StreamChunk → Option FinishReason
  | .finish reason _ => some reason
  | _ => none

theorem finishReason_push (c : StreamChunk) : (a.push c).finishReason = (reason? c).or a.finishReason := by
  cases c with
  | blockStart index blockType =>
    show (if (a.partials.lookup index).isSome then a else _).finishReason = a.finishReason
    split <;> rfl
  | textDelta index text => rw [push_textDelta, touch_finishReason]; rfl
  | reasoningDelta index text => rw [push_reasoningDelta, touch_finishReason]; rfl
  | toolCallDelta index id name argumentsDelta => rw [push_toolCallDelta, touch_finishReason]; rfl
  | blockEnd index block => rw [push_blockEnd, touch_finishReason]; rfl
  | usage u | finish reason replayState => rfl

/-! ## A whole stream -/

variable (i : Number)

theorem own_append (xs ys : List StreamChunk) : own i (xs ++ ys) = own i xs ++ own i ys :=
  filter_append ..

theorem own_cons (c : StreamChunk) (chunks : List StreamChunk) :
    own i (c :: chunks) = if c.index? = some i then c :: own i chunks else own i chunks := by
  rw [own, filter_cons]
  by_cases hc : c.index? = some i
  · rw [if_pos (decide_eq_true hc), if_pos hc]
    rfl
  · rw [if_neg (by rw [decide_eq_false hc]; exact Bool.false_ne_true), if_neg hc]
    rfl

/-- **Interleaving does not matter** to the partial of an index. -/
theorem lookup_pushAll (chunks : List StreamChunk) (i : Number) :
    (a.pushAll chunks).partials.lookup i = (own i chunks).foldl advance (a.partials.lookup i) := by
  induction chunks generalizing a with
  | nil => rfl
  | cons c chunks ih =>
    show ((a.push c).pushAll chunks).partials.lookup i = _
    rw [ih, lookup_push, own_cons]
    split
    · rfl
    · rfl

theorem advance_isSome {c : StreamChunk} {i : Number} (hc : c.index? = some i) (p : Option PartialBlock) :
    (advance p c).isSome = true := by
  unfold advance
  cases hadd : c.address? with
  | none =>
    rw [StreamChunk.index?, hadd] at hc
    cases hc
  | some addr => rfl

variable (chunks : List StreamChunk)

theorem lookup_pushAll_isSome (i : Number) : (pushAll {} chunks).partials.lookup i = none ↔ own i chunks = [] := by
  rw [lookup_pushAll]
  constructor
  · intro h
    rcases eq_nil_or_concat (own i chunks) with hnil | ⟨cs, c, hcs⟩
    · exact hnil
    · exfalso
      have hmem : c ∈ own i chunks := by
        rw [hcs, concat_eq_append]
        exact mem_append_right _ (mem_singleton_self c)
      have hc : c.index? = some i := of_decide_eq_true (mem_filter.mp hmem).2
      rw [hcs, concat_eq_append, foldl_append, foldl_cons, foldl_nil] at h
      have hsome := advance_isSome hc (cs.foldl advance none)
      rw [show (({} : BlockAssembler).partials.lookup i) = none from rfl] at h
      rw [h] at hsome
      cases hsome
  · intro h
    rw [h]
    rfl

theorem eraseDups_concat {α : Type} [DecidableEq α] {l : List α} (x : α) :
    (l ++ [x]).eraseDups = if x ∈ l then l.eraseDups else l.eraseDups ++ [x] := by
  rw [eraseDups_append]
  by_cases hx : x ∈ l
  · rw [if_pos hx, show [x].removeAll l = [] by simp [List.removeAll, hx], eraseDups_nil, append_nil]
  · rw [if_neg hx, show [x].removeAll l = [x] by simp [List.removeAll, hx]]
    rfl

theorem mem_indices {chunks : List StreamChunk} {i : Number} :
    i ∈ chunks.filterMap (·.index?) ↔ own i chunks ≠ [] := by
  rw [mem_filterMap, own, Ne, filter_eq_nil_iff, not_forall]
  simp

/-- **One block for each index, in first-seen order.** -/
theorem order_pushAll : (pushAll {} chunks).order = firstSeen chunks := by
  induction chunks using List.reverseRecOn with
  | nil => rfl
  | append_singleton chunks c ih =>
    rw [pushAll, foldl_append, foldl_cons, foldl_nil, ← pushAll, order_push, ih, firstSeen,
      firstSeen, filterMap_append]
    cases hc : c.index? with
    | none => rw [filterMap_cons_none hc, filterMap_nil, append_nil]
    | some i =>
      rw [filterMap_cons_some hc, filterMap_nil, eraseDups_concat]
      dsimp only
      have hiff : ((pushAll {} chunks).partials.lookup i).isSome = true ↔ i ∈ chunks.filterMap (·.index?) := by
        rw [mem_indices, Ne, ← lookup_pushAll_isSome, isSome_iff_ne_none]
      by_cases hi : i ∈ chunks.filterMap (·.index?)
      · rw [if_pos hi, if_pos (hiff.mpr hi)]
      · rw [if_neg hi, if_neg fun h => hi (hiff.mp h)]

/-! ## What the chunks of an index add up to -/

def joined : List String → String
  | [] => ""
  | text :: rest => text ++ joined rest

def text? : StreamChunk → Option String
  | .textDelta _ text | .reasoningDelta _ text => some text
  | _ => none

/-- What a tool-call delta brings: id, name if any, and an argument fragment. -/
def call? : StreamChunk → Option (String × Option String × String)
  | .toolCallDelta _ id name argumentsDelta => some (id, name.filter (· ≠ ""), argumentsDelta)
  | _ => none

/-- The concatenated fragments, the last id and the last name given. -/
def openBlock (blockType : ContentBlockType) (chunks : List StreamChunk) : Except String ContentBlock :=
  let calls := chunks.filterMap call?
  match blockType with
  | .text => .ok (.text (joined (chunks.filterMap text?)))
  | .reasoning => .ok (.reasoning (joined (chunks.filterMap text?)))
  | .toolCall => .ok (.toolCall ((calls.map (·.1)).getLast?.getD s!"call-{printIndex i}")
      ((calls.filterMap (·.2.1)).getLast?.getD "") (joined (calls.map (·.2.2))))
  | other => .error s!"cannot assemble incomplete block of type \"{other.tag}\""

def firstEnd : Option ContentBlock := chunks.findSome? (·.endBlock?)

/-- The block of the first end, and what the deltas add up to while there is none. -/
def blockAt (chunks : List StreamChunk) : Except String ContentBlock :=
  match firstEnd (own i chunks) with
  | some block => .ok block
  | none =>
    let blockType := ((own i chunks).head?.bind (·.address?)).map Prod.snd
    openBlock i (blockType.getD .text) (own i chunks)

variable {p : PartialBlock}

theorem take_closed (h : p.block.isSome = true) (c : StreamChunk) : p.take c = p := by
  cases c with
  | blockStart index blockType | usage u | finish reason replayState => rfl
  | textDelta index text | reasoningDelta index text | toolCallDelta index id name argumentsDelta
  | blockEnd index block => exact if_pos h

theorem foldl_take_closed (h : p.block.isSome = true) (chunks : List StreamChunk) :
    chunks.foldl PartialBlock.take p = p := by
  induction chunks with
  | nil => rfl
  | cons c chunks ih => rw [foldl_cons, take_closed h c, ih]

/-- A chunk that ends no block leaves an open partial open, a chunk that does closes it. -/
theorem take_block (h : p.block = none) (c : StreamChunk) : (p.take c).block = c.endBlock? := by
  have hopen : ¬ p.block.isSome = true := by rw [h]; exact Bool.false_ne_true
  cases c with
  | blockStart index blockType | usage u | finish reason replayState => exact h
  | textDelta index text | reasoningDelta index text =>
    show (ite _ _ _ : PartialBlock).block = none; rw [if_neg hopen]; exact h
  | toolCallDelta index id name argumentsDelta =>
    show (ite _ _ _ : PartialBlock).block = none; rw [if_neg hopen]; exact h
  | blockEnd index block => show (ite _ _ _ : PartialBlock).block = some block; rw [if_neg hopen]

/-- **The first close wins.** -/
theorem foldl_take_block (h : p.block = none) (chunks : List StreamChunk) :
    (chunks.foldl PartialBlock.take p).block = firstEnd chunks := by
  induction chunks generalizing p with
  | nil => exact h
  | cons c chunks ih =>
    rw [foldl_cons, firstEnd, findSome?_cons]
    have hstep := take_block h c
    cases hc : c.endBlock? with
    | none => exact ih (hstep.trans hc)
    | some block => rw [foldl_take_closed (by rw [hstep, hc]; rfl), hstep, hc]

/-- **An open partial concatenates.** -/
theorem foldl_take_open (h : p.block = none) {chunks : List StreamChunk} (hopen : firstEnd chunks = none) :
    chunks.foldl PartialBlock.take p = { p with
        text := p.text ++ joined (chunks.filterMap text?)
        toolCallId := ((chunks.filterMap call?).map (·.1)).getLast?.or p.toolCallId
        toolCallName := ((chunks.filterMap call?).filterMap (·.2.1)).getLast?.or p.toolCallName
        toolCallArguments := p.toolCallArguments ++ joined ((chunks.filterMap call?).map (·.2.2)) } := by
  induction chunks generalizing p with
  | nil =>
    show p = { p with text := p.text ++ "", toolCallArguments := p.toolCallArguments ++ "" }
    rw [String.append_empty, String.append_empty]
  | cons c chunks ih =>
    rw [firstEnd, findSome?_cons] at hopen
    have hstep := take_block h c
    have hp : ¬ p.block.isSome = true := by rw [h]; exact Bool.false_ne_true
    rw [foldl_cons]
    cases c with
    | blockStart index blockType | usage u | finish reason replayState => exact ih h hopen
    | textDelta index text =>
      rw [show p.take (.textDelta index text) = { p with text := p.text ++ text } from if_neg hp]
      rw [@ih { p with text := p.text ++ text } h hopen]
      dsimp only
      rw [String.append_assoc]
      rfl
    | reasoningDelta index text =>
      rw [show p.take (.reasoningDelta index text) = { p with text := p.text ++ text } from if_neg hp]
      rw [@ih { p with text := p.text ++ text } h hopen]
      dsimp only
      rw [String.append_assoc]
      rfl
    | toolCallDelta index id name argumentsDelta =>
      rw [show p.take (.toolCallDelta index id name argumentsDelta) = _ from if_neg hp]
      rw [@ih { p with
        toolCallId := some id
        toolCallName := if name = none ∨ name = some "" then p.toolCallName else name
        toolCallArguments := p.toolCallArguments ++ argumentsDelta } h hopen]
      have hcalls : (StreamChunk.toolCallDelta index id name argumentsDelta :: chunks).filterMap call? =
          (id, name.filter (· ≠ ""), argumentsDelta) :: chunks.filterMap call? := rfl
      have hname : ((chunks.filterMap call?).filterMap (·.2.1)).getLast?.or
            (if name = none ∨ name = some "" then p.toolCallName else name) =
          (((id, name.filter (· ≠ ""), argumentsDelta) :: chunks.filterMap call?).filterMap
            (·.2.1)).getLast?.or p.toolCallName := by
        rcases name with - | n
        · rfl
        · by_cases hn : n = ""
          · subst hn
            rfl
          · rw [if_neg (by simp [hn]), filterMap_cons_some (b := n) (by simp [hn]), getLast?_cons,
              or_some, some_or]
      rw [hcalls, ← hname, map_cons, map_cons, getLast?_cons, joined, some_or,
        or_some, String.append_assoc]
      rfl
    | blockEnd index block => cases hopen

end BlockAssembler

end CocoHarness.Llm
