/-
# CocoHarness.Llm.AssembledStream — what is assembled from a stream, and from one the grammar accepts.

Of any stream over text, reasoning and tool-call blocks, one block is assembled for each index in first-seen order,
closed by the first end of its index (`Assembled`).

The grammar forgets an index when its block ends, so it accepts a stream that opens the index again, while the
assembler keeps the closed block and ignores what follows.
-/
import CocoHarness.Llm.BlockAssembler

namespace CocoHarness.Llm

open Lib BlockAssembler List Option InsertionMap

/-! ## Any stream -/

def ContentBlockType.textual : ContentBlockType → Bool
  | .text | .reasoning | .toolCall => true
  | .image | .toolResult => false

/-- The chunk speaks of text, reasoning and tool-call blocks only. -/
def StreamChunk.textual (c : StreamChunk) : Bool := c.address?.all fun addr => addr.2.textual

def lastFinish (chunks : List StreamChunk) : FinishReason := (chunks.filterMap reason?).getLast?.getD .stop

/-- One block for each index in first-seen order, less the tool calls of a response cut short; a closed block stays
what the first end carried. -/
structure Assembled (chunks : List StreamChunk) : Prop where
  blocks : ∃ bs, List.Forall₂ (fun i b => blockAt i chunks = .ok b) (firstSeen chunks) bs ∧
    (pushAll {} chunks).blocks = .ok (kept (lastFinish chunks) bs)
  closed : ∀ i b more, firstEnd (own i chunks) = some b → blockAt i (chunks ++ more) = .ok b

theorem finish_pushAll (chunks : List StreamChunk) : (pushAll {} chunks).finish = lastFinish chunks := by
  have hreason : (pushAll {} chunks).finishReason = (chunks.filterMap reason?).getLast? := by
    induction chunks using List.reverseRecOn with
    | nil => rfl
    | append_singleton chunks c ih =>
      rw [pushAll, foldl_append, foldl_cons, foldl_nil, ← pushAll, filterMap_append,
        getLast?_append, finishReason_push, ih]
      cases hc : reason? c with
      | none => rw [filterMap_cons_none hc]; rfl
      | some reason => rw [filterMap_cons_some hc]; rfl
  rw [finish, hreason]
  rfl

theorem foldl_advance_some (p : PartialBlock) (chunks : List StreamChunk) :
    chunks.foldl advance (some p) = some (chunks.foldl PartialBlock.take p) := by
  induction chunks generalizing p with
  | nil => rfl
  | cons c chunks ih =>
    have hstep : advance (some p) c = some (p.take c) := by
      unfold advance
      cases c <;> rfl
    rw [foldl_cons, hstep, ih]
    rfl

variable {chunks : List StreamChunk} {i : Number}

theorem lookup_eq_some (h : own i chunks ≠ []) :
    ∃ blockType, ((own i chunks).head?.bind (·.address?)).map Prod.snd = some blockType ∧
      (pushAll {} chunks).partials.lookup i = some ((own i chunks).foldl PartialBlock.take { blockType }) := by
  rw [lookup_pushAll]
  cases hown : own i chunks with
  | nil => exact absurd hown h
  | cons c cs =>
    have hmem : c ∈ own i chunks := by rw [hown]; exact mem_cons_self ..
    have hc : c.index? = some i := of_decide_eq_true (mem_filter.mp hmem).2
    rw [StreamChunk.index?, map_eq_some_iff] at hc
    obtain ⟨⟨j, blockType⟩, haddr, -⟩ := hc
    refine ⟨blockType, by rw [head?_cons, bind_some, haddr]; rfl, ?_⟩
    have hfirst : advance (({} : BlockAssembler).partials.lookup i) c =
        some (({ blockType } : PartialBlock).take c) := by
      rw [advance, haddr]
      rfl
    rw [foldl_cons, hfirst, foldl_advance_some, foldl_cons]

theorem assemble_open (blockType : ContentBlockType) (h : firstEnd chunks = none) (i : Number) :
    assemble (chunks.foldl PartialBlock.take { blockType }) i = openBlock i blockType chunks := by
  rw [foldl_take_open rfl h]
  cases blockType with
  | text => exact congrArg (fun s => Except.ok (ContentBlock.text s)) String.empty_append
  | reasoning => exact congrArg (fun s => Except.ok (ContentBlock.reasoning s)) String.empty_append
  | toolCall =>
    rw [assemble, openBlock]
    dsimp only
    rw [or_none, or_none, String.empty_append]
  | image | toolResult => rfl

/-- **Assembling is reading off the chunks of the index.** -/
theorem assemble_lookup (h : own i chunks ≠ []) :
    ∃ p, (pushAll {} chunks).partials.lookup i = some p ∧ p.block = firstEnd (own i chunks) ∧
      assemble p i = blockAt i chunks := by
  obtain ⟨blockType, htype, hlookup⟩ := lookup_eq_some h
  have hblock := @foldl_take_block { blockType } rfl (own i chunks)
  refine ⟨_, hlookup, hblock, ?_⟩
  rw [blockAt]
  cases hend : firstEnd (own i chunks) with
  | some b =>
    rw [hend] at hblock
    rw [assemble, hblock]
  | none =>
    dsimp only
    rw [assemble_open blockType hend, htype]
    rfl

theorem blockAt_ok (htextual : ∀ c ∈ chunks, c.textual = true) (h : own i chunks ≠ []) :
    ∃ b, blockAt i chunks = .ok b := by
  rw [blockAt]
  split
  · next b _ => exact ⟨b, rfl⟩
  · obtain ⟨blockType, htype, -⟩ := lookup_eq_some h
    dsimp only
    rw [htype]
    obtain ⟨addr, haddr, rfl⟩ := map_eq_some_iff.mp htype
    obtain ⟨c, hhead, hc⟩ := bind_eq_some_iff.mp haddr
    have hmem : c ∈ chunks := mem_of_mem_filter (mem_of_head? hhead)
    have hkind : addr.2.textual = true := by
      have hall := htextual c hmem
      rwa [StreamChunk.textual, hc, all_some] at hall
    rw [getD_some]
    cases htag : addr.2 with
    | text | reasoning | toolCall => exact ⟨_, rfl⟩
    | image | toolResult => rw [htag] at hkind; cases hkind

theorem firstEnd_append_of_some {xs : List StreamChunk} {b : ContentBlock} (h : firstEnd xs = some b)
    (ys : List StreamChunk) : firstEnd (xs ++ ys) = some b := by
  rw [firstEnd] at h ⊢
  rw [findSome?_append, h]
  rfl

theorem exists_mapM {f g : Number → Except String ContentBlock} {l : List Number}
    (h : ∀ i ∈ l, ∃ b, f i = .ok b ∧ g i = .ok b) :
    ∃ bs, List.Forall₂ (fun i b => f i = .ok b) l bs ∧ l.mapM g = .ok bs := by
  induction l with
  | nil => exact ⟨[], .nil, rfl⟩
  | cons i l ih =>
    obtain ⟨b, hf, hg⟩ := h i (mem_cons_self ..)
    obtain ⟨bs, hbs, hmap⟩ := ih fun j hj => h j (mem_cons_of_mem _ hj)
    refine ⟨b :: bs, .cons hf hbs, ?_⟩
    rw [mapM_cons, hg, hmap]
    rfl

/-- **One block for each index.** -/
theorem assembled (htextual : ∀ c ∈ chunks, c.textual = true) : Assembled chunks := by
  refine ⟨?_, ?_⟩
  · have hall : ∀ i ∈ (pushAll {} chunks).order, ∃ b, blockAt i chunks = .ok b ∧
        (do assemble (← (pushAll {} chunks).mustGet i) i) = .ok b := by
      intro i hi
      rw [order_pushAll, firstSeen, mem_eraseDups] at hi
      obtain ⟨b, hb⟩ := blockAt_ok htextual (mem_indices.mp hi)
      obtain ⟨p, hp, -, hassemble⟩ := assemble_lookup (mem_indices.mp hi)
      refine ⟨b, hb, ?_⟩
      rw [mustGet, hp, ← hb, ← hassemble]
      rfl
    obtain ⟨bs, hbs, hmap⟩ := exists_mapM hall
    rw [order_pushAll] at hbs
    refine ⟨bs, hbs, ?_⟩
    rw [BlockAssembler.blocks, hmap, finish_pushAll]
    rfl
  · intro i b more h
    rw [blockAt, own_append, firstEnd_append_of_some h]

/-! ## A stream the grammar accepts -/

def sinceStart (i : Number) (chunks : List StreamChunk) : List StreamChunk :=
  ((own i chunks).reverse.takeWhile (·.isDelta)).reverse

/-- No delta is ignored, and at every point each open block equals the deltas since its start. -/
structure Undropped (chunks : List StreamChunk) : Prop where
  taken : ∀ before c after, chunks = before ++ c :: after → c.isDelta = true → ∀ i, c.index? = some i →
    ∀ p, (pushAll {} before).partials.lookup i = some p → p.block = none
  exact : ∀ before after s, chunks = before ++ after → validateChunks {} before = .ok s →
    ∀ i blockType, s.opened.lookup i = some blockType → ∃ p, (pushAll {} before).partials.lookup i = some p ∧
        assemble p i = openBlock i blockType (sinceStart i before)

/-- After its end an index gets no delta, and a start of it finds a closed block that is empty. -/
def Settled (chunks : List StreamChunk) : Prop :=
  ∀ before c after, chunks = before ++ c :: after → ∀ i, c.index? = some i → ∀ b, firstEnd (own i before) = some b →
      c.isDelta = false ∧ ∀ blockType, c = .blockStart i blockType → openBlock i blockType [] = .ok b

/-- **What an accepted chunk can do** to the open blocks. -/
inductive Accepted (s s' : StreamCheck) : StreamChunk → Prop
  | start {i t} (hnew : s.opened.lookup i = none) (hopened : s'.opened = s.opened.set i t) :
      Accepted s s' (.blockStart i t)
  | delta {c i t} (hdelta : c.isDelta = true) (haddr : c.address? = some (i, t))
      (hopen : s.opened.lookup i = some t) (hopened : s'.opened = s.opened) : Accepted s s' c
  | stop {i b} (hopen : s.opened.lookup i = some b.type) (hopened : s'.opened = s.opened.erase i) :
      Accepted s s' (.blockEnd i b)
  | other {c} (haddr : c.address? = none) (hopened : s'.opened = s.opened) : Accepted s s' c

variable {s : StreamCheck}

theorem validateDelta_ok {index : Number} {expected : ContentBlockType} {u : Unit}
    (h : validateDelta s index expected = .ok u) : s.opened.lookup index = some expected := by
  simp only [validateDelta, bind_eq_ok_iff] at h
  obtain ⟨-, -, h⟩ := h
  split at h
  · cases h
  · next hsame => exact not_not.mp hsame

variable {s' : StreamCheck} {c : StreamChunk}

theorem validateChunk_accepted (h : validateChunk s c = .ok s') : Accepted s s' c := by
  unfold validateChunk at h
  dsimp only at h
  split at h
  · cases h
  · cases c with
    | blockStart index blockType =>
      dsimp only at h
      simp only [bind_eq_ok_iff] at h
      obtain ⟨-, -, h⟩ := h
      split at h
      · cases h
      · next hnew =>
        cases h
        exact .start (not_isSome_iff_eq_none.mp hnew) rfl
    | textDelta index text | reasoningDelta index text | toolCallDelta index id name argumentsDelta =>
      dsimp only at h
      simp only [bind_eq_ok_iff] at h
      obtain ⟨_, hdelta, h⟩ := h
      cases h
      exact .delta rfl rfl (validateDelta_ok hdelta) rfl
    | blockEnd index block =>
      dsimp only at h
      simp only [bind_eq_ok_iff] at h
      obtain ⟨-, -, h⟩ := h
      split at h
      · cases h
      · next blockType hopen =>
        split at h
        · cases h
        · next hsame =>
          cases h
          obtain rfl := not_not.mp hsame
          exact .stop hopen rfl
    | usage u | finish reason replayState =>
      dsimp only at h
      split at h
      · cases h
      · cases h
        exact .other rfl rfl

theorem Accepted.lookup_other (h : Accepted s s' c) (hc : c.index? ≠ some i) :
    s'.opened.lookup i = s.opened.lookup i := by
  cases h with
  | start hnew hopened => rw [hopened, lookup_set, if_neg fun heq => hc (congrArg some heq.symm)]
  | delta hdelta haddr hopen hopened | other haddr hopened => rw [hopened]
  | stop hopen hopened => rw [hopened, lookup_erase, if_neg fun heq => hc (congrArg some heq.symm)]

/-- **The grammar, one index at a time.**  An open index was opened by the last of its chunks that is no delta;
another was never used or was closed. -/
structure Grammar (i : Number) (chunks : List StreamChunk) (opened : Option ContentBlockType) : Prop where
  opens : ∀ t, opened = some t → ∃ before deltas, own i chunks = before ++ .blockStart i t :: deltas ∧
    (∀ d ∈ deltas, d.isDelta = true) ∧ (firstEnd before = none → before = [])
  closed : opened = none → firstEnd (own i chunks) = none → own i chunks = []

theorem Grammar.snoc (h : Grammar i chunks (s.opened.lookup i)) (hstep : Accepted s s' c)
    (hc : c.index? = some i) : Grammar i (chunks ++ [c]) (s'.opened.lookup i) := by
  have hown : own i (chunks ++ [c]) = own i chunks ++ [c] := by
    rw [own_append, own_cons, if_pos hc]
    rfl
  cases hstep with
  | @start j t hnew hopened =>
    cases hc
    rw [hopened, lookup_set, if_pos rfl]
    refine ⟨fun t' ht => ?_, fun h => by cases h⟩
    cases ht
    exact ⟨own j chunks, [], hown, forall_mem_nil _, h.closed hnew⟩
  | @delta _ j t hdelta haddr hopen hopened =>
    have hj : j = i := by
      rw [StreamChunk.index?, haddr] at hc
      exact Option.some.inj hc
    subst hj
    rw [hopened]
    refine ⟨fun t' ht => ?_, fun hnone => ?_⟩
    · obtain ⟨before, deltas, hsplit, hdeltas, hbefore⟩ := h.opens t' ht
      refine ⟨before, deltas ++ [c], ?_, ?_, hbefore⟩
      · rw [hown, hsplit, append_assoc, cons_append]
      · intro d hd
        rcases mem_append.mp hd with hd | hd
        · exact hdeltas d hd
        · rw [mem_singleton.mp hd]
          exact hdelta
    · rw [hopen] at hnone
      cases hnone
  | @stop j b hopen hopened =>
    cases hc
    rw [hopened, lookup_erase, if_pos rfl]
    refine ⟨(fun _ h => by cases h), fun _ hend => ?_⟩
    rw [hown, firstEnd, findSome?_append] at hend
    cases hfirst : (own j chunks).findSome? (·.endBlock?) with
    | none | some b' => rw [hfirst] at hend; cases hend
  | other haddr hopened =>
    rw [StreamChunk.index?, haddr] at hc
    cases hc

theorem validateChunks_grammar (h : validateChunks {} chunks = .ok s) (i : Number) :
    Grammar i chunks (s.opened.lookup i) := by
  induction chunks using List.reverseRecOn generalizing s with
  | nil =>
    cases h
    exact ⟨nofun, fun _ _ => rfl⟩
  | append_singleton chunks c ih =>
    rw [validateChunks_append, bind_eq_ok_iff] at h
    obtain ⟨mid, hmid, h⟩ := h
    simp only [validateChunks, bind_eq_ok_iff] at h
    obtain ⟨s', hstep, h⟩ := h
    cases h
    have haccepted := validateChunk_accepted hstep
    by_cases hc : c.index? = some i
    · exact (ih hmid).snoc haccepted hc
    · have hsame : own i (chunks ++ [c]) = own i chunks := by
        rw [own_append, own_cons, if_neg hc]
        exact append_nil _
      rw [haccepted.lookup_other hc]
      obtain ⟨hopens, hclosed⟩ := ih hmid
      exact ⟨by rw [hsame]; exact hopens, by rw [hsame]; exact hclosed⟩

theorem split_own {before after : List StreamChunk} (h : own i chunks = before ++ c :: after) :
    ∃ xs ys, chunks = xs ++ c :: ys ∧ own i xs = before ∧ c.index? = some i := by
  obtain ⟨xs, rest, rfl, hxs, hrest⟩ := filter_eq_append_iff.mp h
  obtain ⟨mid, ys, rfl, hmid, hc, -⟩ := filter_eq_cons_iff.mp hrest
  refine ⟨xs ++ mid, ys, by rw [append_assoc], ?_, of_decide_eq_true hc⟩
  rw [own_append]
  show xs.filter _ ++ mid.filter _ = before
  rw [hxs, filter_eq_nil_iff.mpr hmid, append_nil]

theorem firstEnd_deltas {deltas : List StreamChunk} (h : ∀ d ∈ deltas, d.isDelta = true) : firstEnd deltas = none := by
  rw [firstEnd, findSome?_eq_none_iff]
  intro d hd
  have hdelta := h d hd
  cases d with
  | blockEnd index block => cases hdelta
  | _ => rfl

theorem sinceStart_eq {before deltas : List StreamChunk} {t : ContentBlockType}
    (h : own i chunks = before ++ .blockStart i t :: deltas) (hdeltas : ∀ d ∈ deltas, d.isDelta = true) :
    sinceStart i chunks = deltas := by
  have hrev : (own i chunks).reverse = deltas.reverse ++ .blockStart i t :: before.reverse := by
    rw [h, reverse_append, reverse_cons, append_assoc, singleton_append]
  rw [sinceStart, hrev, takeWhile_append_of_pos fun d hd => hdeltas d (mem_reverse.mp hd),
    takeWhile_cons_of_neg (by exact Bool.false_ne_true), append_nil, reverse_reverse]

/-- **Nothing is dropped exactly when no closed index is used again.** -/
theorem undropped_iff (h : validateStream chunks = .ok ()) : Undropped chunks ↔ Settled chunks := by
  obtain ⟨final, hfinal, -⟩ := bind_eq_ok_iff.mp h
  constructor
  · intro hundropped before c after hsplit i hc b hend
    have hused : own i before ≠ [] := by
      intro hnil
      rw [hnil] at hend
      cases hend
    obtain ⟨p, hp, hblock, -⟩ := assemble_lookup hused
    rw [hend] at hblock
    constructor
    · cases hdelta : c.isDelta with
      | false => rfl
      | true =>
        have hopen := hundropped.taken before c after hsplit hdelta i hc p hp
        rw [hblock] at hopen
        cases hopen
    · -- the block that is opened again is compared before its first delta
      rintro t rfl
      rw [hsplit, append_cons, validateChunks_append, validateChunks_append] at hfinal
      obtain ⟨s', hs', -⟩ := bind_eq_ok_iff.mp hfinal
      obtain ⟨s, hs, hstep⟩ := bind_eq_ok_iff.mp hs'
      simp only [validateChunks, bind_eq_ok_iff] at hstep
      obtain ⟨_, hstep, hlast⟩ := hstep
      cases hlast
      have hopened : s'.opened.lookup i = some t := by
        cases validateChunk_accepted hstep with
        | start hnew hopened => rw [hopened, lookup_set, if_pos rfl]
        | delta hdelta haddr hopen hopened | other hdelta hopened => cases hdelta
      have hwhole : validateChunks {} (before ++ [.blockStart i t]) = .ok s' := by
        rw [validateChunks_append, hs]
        show validateChunks s [.blockStart i t] = _
        rw [validateChunks, hstep]
        rfl
      obtain ⟨q, hq, hassemble⟩ := hundropped.exact (before ++ [.blockStart i t]) after s'
        (by rw [hsplit, append_cons]) hwhole i t hopened
      have hown : own i (before ++ [.blockStart i t]) = own i before ++ .blockStart i t :: [] := by
        rw [own_append, own_cons, if_pos hc]
        rfl
      rw [sinceStart_eq hown (forall_mem_nil _)] at hassemble
      obtain ⟨q', hq', hblock', -⟩ := @assemble_lookup (before ++ [.blockStart i t]) i (by
        rw [hown]
        exact append_ne_nil_of_left_ne_nil hused _)
      cases hq.symm.trans hq'
      rw [hown, firstEnd_append_of_some hend] at hblock'
      rw [← hassemble, assemble, hblock']
  · intro hsettled
    refine ⟨?_, ?_⟩
    · intro before c after hsplit hdelta i hc p hp
      have hused : own i before ≠ [] := by
        intro hnil
        rw [(lookup_pushAll_isSome _ _).mpr hnil] at hp
        cases hp
      obtain ⟨q, hq, hblock, -⟩ := assemble_lookup hused
      cases hq.symm.trans hp
      rw [hblock]
      cases hend : firstEnd (own i before) with
      | none => rfl
      | some b =>
        have hnot := (hsettled before c after hsplit i hc b hend).1
        rw [hdelta] at hnot
        cases hnot
    · intro before after s hsplit hs i t hopened
      obtain ⟨earlier, deltas, hown, hdeltas, hearlier⟩ := (validateChunks_grammar hs i).opens t hopened
      have hused : own i before ≠ [] := by
        rw [hown]
        exact append_ne_nil_of_right_ne_nil _ (cons_ne_nil _ _)
      obtain ⟨p, hp, hblock, hassemble⟩ := assemble_lookup hused
      refine ⟨p, hp, ?_⟩
      rw [sinceStart_eq hown hdeltas]
      obtain ⟨xs, ys, hbefore, hxs, hstart⟩ := split_own hown
      cases hend : firstEnd earlier with
      | none =>
        -- first opened here: the deltas are all there is
        obtain rfl := hearlier hend
        have hnone : firstEnd (own i before) = none := by
          rw [hown]
          show firstEnd deltas = none
          exact firstEnd_deltas hdeltas
        rw [hassemble, blockAt, hnone, hown]
        rfl
      | some b =>
        -- opened again: the closed block is empty, and no delta has come since
        have hempty : openBlock i t [] = .ok b := by
          have hsplit' : chunks = xs ++ .blockStart i t :: (ys ++ after) := by
            rw [hsplit, hbefore, append_assoc, cons_append]
          exact (hsettled xs _ _ hsplit' i hstart b (by rw [hxs]; exact hend)).2 t rfl
        have hquiet : deltas = [] := by
          cases deltas with
          | nil => rfl
          | cons d ds =>
            have hat : own i before = (earlier ++ [.blockStart i t]) ++ d :: ds := by
              rw [hown, append_assoc, singleton_append]
            obtain ⟨us, vs, hbefore', hus, hd⟩ := split_own hat
            have hsplit' : chunks = us ++ d :: (vs ++ after) := by rw [hsplit, hbefore', append_assoc, cons_append]
            have hclosed : firstEnd (own i us) = some b := by
              rw [hus]
              exact firstEnd_append_of_some hend _
            have hnot := (hsettled us d _ hsplit' i hd b hclosed).1
            rw [hdeltas d (mem_cons_self ..)] at hnot
            cases hnot
        rw [hquiet, hempty, hassemble, blockAt, hown, firstEnd_append_of_some hend]

/-- **What the assembler makes of a stream.**  One block for each index; and of an accepted stream nothing is dropped
exactly when no closed index is used again. -/
theorem assembled_and_undropped_iff {chunks : List StreamChunk} (htextual : ∀ c ∈ chunks, c.textual = true) :
    (Assembled chunks ∧ (validateStream chunks = .ok () → Undropped chunks)) ↔
      (validateStream chunks = .ok () → Settled chunks) := by
  constructor
  · rintro ⟨-, h⟩ haccepted
    exact (undropped_iff haccepted).mp (h haccepted)
  · intro h
    exact ⟨assembled htextual, fun haccepted => (undropped_iff haccepted).mpr (h haccepted)⟩

def oneBlock : List StreamChunk :=
  [.blockStart (.int 0) .text, .textDelta (.int 0) "a", .blockEnd (.int 0) (.text "a"), .finish .stop none]

theorem assembled_and_undropped_oneBlock :
    validateStream oneBlock = .ok () ∧ Assembled oneBlock ∧ Undropped oneBlock := by
  have haccepted : validateStream oneBlock = .ok () := by decide +kernel
  have hboth := (@assembled_and_undropped_iff oneBlock (by decide +kernel)).mpr fun _ => by
    intro before c after hsplit i hc b hend
    rw [oneBlock] at hsplit
    rcases before with _ | ⟨x, _ | ⟨y, _ | ⟨z, rest⟩⟩⟩
    · cases hend
    · simp only [cons_append, nil_append, List.cons.injEq] at hsplit
      obtain ⟨rfl, -⟩ := hsplit
      rw [own_cons] at hend
      split at hend <;> cases hend
    · simp only [cons_append, nil_append, List.cons.injEq] at hsplit
      obtain ⟨rfl, rfl, -⟩ := hsplit
      rw [own_cons, own_cons] at hend
      split at hend <;> split at hend <;> cases hend
    · -- only the finish comes after the end
      simp only [cons_append, List.cons.injEq] at hsplit
      obtain ⟨-, -, -, hlast⟩ := hsplit
      have hmem : c ∈ [StreamChunk.finish .stop none] := by
        rw [hlast]
        exact mem_append_right _ (mem_cons_self ..)
      obtain rfl := mem_singleton.mp hmem
      cases hc
  exact ⟨haccepted, hboth.1, hboth.2 haccepted⟩

/-- An index opened again after its end: the grammar accepts the stream, and the delta is ignored. -/
def reopened : List StreamChunk :=
  [.blockStart (.int 0) .text, .blockEnd (.int 0) (.text ""), .blockStart (.int 0) .text,
    .textDelta (.int 0) "x", .blockEnd (.int 0) (.text "x"), .finish .stop none]

theorem not_undropped_reopened : validateStream reopened = .ok () ∧ ¬ Undropped reopened := by
  refine ⟨by decide +kernel, fun h => ?_⟩
  have hopen := h.taken (reopened.take 3) (.textDelta (.int 0) "x") (reopened.drop 4) rfl rfl (.int 0) rfl
    { blockType := .text, block := some (.text "") } (by decide +kernel)
  cases hopen

/-- **How the blocks interleave does not matter.**  Streams in which each index has the same chunks, the indices come
first in the same order and the last finish is the same assemble to the same blocks, or to the same error. -/
theorem blocks_interleaved {xs ys : List StreamChunk} (hown : ∀ i, own i xs = own i ys)
    (hseen : firstSeen xs = firstSeen ys) (hfinish : lastFinish xs = lastFinish ys) :
    (pushAll {} xs).blocks = (pushAll {} ys).blocks := by
  have hget : ∀ i, (pushAll {} xs).mustGet i = (pushAll {} ys).mustGet i := by
    intro i
    rw [mustGet, mustGet, lookup_pushAll, lookup_pushAll, hown]
  simp only [BlockAssembler.blocks, order_pushAll, finish_pushAll, hseen, hfinish, hget]

/-- Text and a tool call, one after the other and interleaved. -/
theorem blocks_interleaved_call :
    (pushAll {} [.textDelta (.int 0) "a", .textDelta (.int 0) "b", .toolCallDelta (.int 1) "c" none "{}"]).blocks
      = (pushAll {} [.textDelta (.int 0) "a", .toolCallDelta (.int 1) "c" none "{}", .textDelta (.int 0) "b"]).blocks := by
  refine blocks_interleaved (fun i => ?_) (by decide) rfl
  by_cases h0 : i = .int 0
  · rw [h0]
    rfl
  · simp [own_cons, StreamChunk.index?, StreamChunk.address?, Ne.symm h0]

end CocoHarness.Llm
