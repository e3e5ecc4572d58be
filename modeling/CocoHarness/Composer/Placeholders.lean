/-
# CocoHarness.Composer.Placeholders — the occurrence table lists the placeholders of its draft.

`Placed` says it of the live draft and of every draft in the undo history.  The machine keeps it over every
event that brings no foreign placeholder (`placed_dispatch`): an edit shifts and drops entries the way
`positions_splice` says the placeholders move, an insertion mints an entry for every placeholder it
writes, and undo and redo put a draft back together with its own table.
-/
import CocoHarness.Composer.InputMachine

namespace CocoHarness.Composer

open Lib Lib.MarkedText List
open Lib.Utf16 (Unit16)

def Backed (draft : Text) (occurrences : List Occurrence) : Prop :=
  occurrences.map (·.offset) = positions placeholder draft

namespace Backed

variable {draft : Text} {occurrences : List Occurrence}

theorem nil : Backed [] [] := rfl

theorem notMem (h : Backed draft []) : placeholder ∉ draft := positions_eq_nil.mp h.symm

theorem eq_nil (h : Backed draft occurrences) (hdraft : placeholder ∉ draft) : occurrences = [] := by
  rw [Backed, positions_eq_nil.mpr hdraft, map_eq_nil_iff] at h
  exact h

theorem substitute (h : Backed draft occurrences) {forms : List Text} (hlength : forms.length = occurrences.length) :
    substitute draft 0 ((occurrences.map (·.offset)).zip forms) = expand placeholder draft forms := by
  rw [h]
  apply substitute_positions
  rw [hlength, ← h, length_map]

end Backed

/-! ## Reconciling the table -/

variable {start stop : Nat}

/-- **How reconciling moves a sorted table**: as the placeholders move. -/
theorem offsets_reconcile {count : Nat} (hle : start ≤ stop) :
    ∀ {occurrences : List Occurrence}, (occurrences.map (·.offset)).Pairwise (· < ·) →
      (occurrences.filterMap (InputMachine.reconcileOne ⟨start, stop, count⟩)).map (·.offset)
        = (occurrences.map (·.offset)).filter (· < start)
          ++ ((occurrences.map (·.offset)).filter (stop ≤ ·)).map (fun i => i - stop + (start + count)) := by
  intro occurrences
  induction occurrences with
  | nil => intro _; rfl
  | cons o occurrences ih =>
    intro hsorted
    rw [map_cons, pairwise_cons] at hsorted
    obtain ⟨hfirst, hsorted⟩ := hsorted
    have htail := ih hsorted
    rw [map_cons, filter_cons, filter_cons]
    by_cases hbefore : o.offset < start
    · -- before the range
      have hone : InputMachine.reconcileOne ⟨start, stop, count⟩ o = some o := if_pos hbefore
      rw [filterMap_cons_some hone, map_cons, htail, if_pos (decide_eq_true hbefore), if_neg (by simp; omega)]
      rfl
    · rw [if_neg (by simpa using hbefore)]
      by_cases hbehind : stop ≤ o.offset
      · -- behind it, with everything that follows
        have hone : InputMachine.reconcileOne ⟨start, stop, count⟩ o
            = some { o with offset := o.offset - stop + (start + count) } := by
          rw [InputMachine.reconcileOne]
          dsimp only
          rw [if_neg hbefore, if_pos hbehind]
          congr 2
          omega
        have hnone : (occurrences.map (·.offset)).filter (· < start) = [] := by
          rw [filter_eq_nil_iff]
          intro i hi
          have := hfirst i hi
          rw [decide_eq_true_eq]
          omega
        rw [filterMap_cons_some hone, map_cons, htail, hnone, if_pos (decide_eq_true hbehind)]
        rfl
      · -- inside it
        have hone : InputMachine.reconcileOne ⟨start, stop, count⟩ o = none := by
          rw [InputMachine.reconcileOne]
          dsimp only
          rw [if_neg hbefore, if_neg hbehind]
        rw [filterMap_cons_none hone, htail, if_neg (by simpa using hbehind)]

variable {draft : Text} {occurrences : List Occurrence}

theorem backed_insertionSort (h : (occurrences.map (·.offset)).Perm (positions placeholder draft)) :
    Backed draft (occurrences.insertionSort fun a b => a.offset ≤ b.offset) := by
  rw [Backed, map_insertionSort _ (· ≤ ·) _ _ fun _ _ _ _ => Iff.rfl]
  apply List.Perm.eq_of_pairwise' (r := (· ≤ ·))
  · exact pairwise_insertionSort _ _
  · exact (positions_sorted draft).imp Nat.le_of_lt
  · exact (perm_insertionSort _ _).trans h

variable {inserted : Text}

/-- **A replaced range, with the entries minted for it.** -/
theorem Backed.splice {minted : List Occurrence} (h : Backed draft occurrences) (hle : start ≤ stop) (hlen : stop ≤ draft.length)
    (hminted : minted.map (·.offset) = (positions placeholder inserted).map (· + start)) :
    Backed (MarkedText.splice draft start stop inserted)
      ((occurrences.filterMap (InputMachine.reconcileOne ⟨start, stop, inserted.length⟩) ++ minted).insertionSort
        fun a b => a.offset ≤ b.offset) := by
  apply backed_insertionSort
  have hsorted : (occurrences.map (·.offset)).Pairwise (· < ·) := by rw [h]; exact positions_sorted draft
  rw [map_append, offsets_reconcile hle hsorted, hminted, h, positions_splice (by omega), append_assoc, append_assoc]
  exact List.Perm.append_left _ perm_append_comm

theorem Backed.splice_plain (h : Backed draft occurrences)
    (hle : start ≤ stop) (hlen : stop ≤ draft.length) (hinserted : placeholder ∉ inserted) :
    Backed (MarkedText.splice draft start stop inserted)
      (occurrences.filterMap (InputMachine.reconcileOne ⟨start, stop, inserted.length⟩)) := by
  have hsorted : (occurrences.map (·.offset)).Pairwise (· < ·) := by rw [h]; exact positions_sorted draft
  rw [Backed, offsets_reconcile hle hsorted, h, positions_splice (by omega), positions_eq_nil.mpr hinserted,
    map_nil, append_nil]

/-! ## The machine -/

/-- The live draft and every draft of the undo history are listed by their tables. -/
structure Placed (m : InputMachine) : Prop where
  table : Backed m.draft m.occurrences
  log : ∀ t ∈ m.log, Backed t.draftBefore t.occurrencesBefore
  redo : ∀ t ∈ m.redoStack, Backed t.draftBefore t.occurrencesBefore

def Plain (m : InputMachine) : InputEvent → Prop
  | .draftChanged draft editRange _ => ∃ before mid after inserted, m.draft = before ++ mid ++ after ∧
      draft = before ++ inserted ++ after ∧ placeholder ∉ inserted ∧
      (editRange = none ∨ editRange = some ⟨before.length, before.length + mid.length, inserted.length⟩)
  | .beginCommand claim _ => placeholder ∉ claim.token
  | _ => True

namespace InputMachine

variable {m : InputMachine}

@[simp] theorem watchClaim_draft (m : InputMachine) : m.watchClaim.draft = m.draft := by
  unfold watchClaim
  split
  · split <;> rfl
  · rfl

@[simp] theorem watchClaim_occurrences (m : InputMachine) : m.watchClaim.occurrences = m.occurrences := by
  unfold watchClaim
  split
  · split <;> rfl
  · rfl

@[simp] theorem watchClaim_log (m : InputMachine) : m.watchClaim.log = m.log := by
  unfold watchClaim
  split
  · split <;> rfl
  · rfl

@[simp] theorem watchClaim_redoStack (m : InputMachine) : m.watchClaim.redoStack = m.redoStack := by
  unfold watchClaim
  split
  · split <;> rfl
  · rfl

theorem casOk_iff {span : TokenSpan} : m.casOk span = true ↔
    span.draftRev = m.draftRev ∧ span.start ≤ span.stop ∧ span.stop ≤ m.draft.length := by
  simp [casOk, and_assoc]

end InputMachine

namespace Placed

open InputMachine

variable {m m' : InputMachine}

theorem of_eq (h : Placed m) (hdraft : m'.draft = m.draft) (htable : m'.occurrences = m.occurrences)
    (hlog : m'.log = m.log) (hredo : m'.redoStack = m.redoStack) : Placed m' := by
  refine ⟨?_, ?_, ?_⟩
  · rw [hdraft, htable]; exact h.table
  · rw [hlog]; exact h.log
  · rw [hredo]; exact h.redo

theorem watchClaim (h : Placed m) : Placed m.watchClaim := by apply h.of_eq <;> simp

theorem pushTxn (h : Placed m) : Placed m.pushTxn := by
  refine ⟨h.table, ?_, nofun⟩
  intro t ht
  rcases mem_cons.mp (mem_of_mem_take ht) with rfl | ht
  · exact h.table
  · exact h.log t ht

end Placed

open InputMachine

variable {m : InputMachine} {editRange : Option EditRange} {time : Nat}

/-- The range an edit replaces leads to the new draft and inserts no placeholder. -/
theorem exists_edit (h : Plain m (.draftChanged draft editRange time)) : ∃ inserted, placeholder ∉ inserted ∧
      (editRange.getD (diffEdit m.draft draft)).insertedLength = inserted.length ∧
      (editRange.getD (diffEdit m.draft draft)).start ≤ (editRange.getD (diffEdit m.draft draft)).stop ∧
      (editRange.getD (diffEdit m.draft draft)).stop ≤ m.draft.length ∧
      draft = MarkedText.splice m.draft (editRange.getD (diffEdit m.draft draft)).start
        (editRange.getD (diffEdit m.draft draft)).stop inserted := by
  obtain ⟨before, mid, after, inserted, hold, hnew, hinserted, rfl | rfl⟩ := h
  · -- the range is recovered
    have hle := commonSuffix_le m.draft draft
    refine ⟨slice draft (commonLength m.draft draft) (draft.length - commonSuffix m.draft draft), ?_, ?_, ?_, ?_, ?_⟩
    · rw [hold, hnew]
      exact notMem_common hinserted
    · show draft.length - commonSuffix m.draft draft - commonLength m.draft draft = _
      rw [slice, length_take, length_drop]
      omega
    · show commonLength m.draft draft ≤ m.draft.length - commonSuffix m.draft draft
      omega
    · exact Nat.sub_le _ _
    · exact (splice_common m.draft draft).symm
  · refine ⟨inserted, hinserted, rfl, Nat.le_add_right _ _, ?_, ?_⟩
    · show before.length + mid.length ≤ m.draft.length
      rw [hold, length_append, length_append]
      omega
    · show draft = MarkedText.splice m.draft before.length (before.length + mid.length) inserted
      rw [hnew, hold, MarkedText.splice, ← length_append, drop_left, append_assoc before mid, take_left]

theorem placed_onDraftChanged (h : Placed m) (hplain : Plain m (.draftChanged draft editRange time)) :
    Placed (m.onDraftChanged draft editRange time) := by
  obtain ⟨inserted, hinserted, hcount, hle, hlen, hdraft⟩ := exists_edit hplain
  unfold onDraftChanged
  split
  · exact h
  · generalize editRange.getD (diffEdit m.draft draft) = range at hcount hle hlen hdraft ⊢
    have hbacked := h.table.splice_plain hle hlen hinserted
    rw [← hdraft, ← hcount] at hbacked
    dsimp only
    split
    · refine Placed.of_eq (Placed.watchClaim ?_) rfl rfl rfl rfl
      exact ⟨hbacked, h.log, h.redo⟩
    · refine Placed.of_eq (Placed.watchClaim ?_) rfl rfl rfl rfl
      exact ⟨hbacked, h.pushTxn.log, h.pushTxn.redo⟩

theorem slice_zero (xs : Text) (stop : Nat) : slice xs 0 stop = xs.take stop := rfl

theorem placed_onBeginCommand (h : Placed m) {claim : CommandClaim} {span : TokenSpan}
    (hplain : Plain m (.beginCommand claim span)) : Placed (m.onBeginCommand claim span) := by
  unfold onBeginCommand
  split
  · exact h
  · split
    · exact h
    · next hcas =>
      rw [Bool.or_eq_true, not_or, Bool.not_eq_true', Bool.not_eq_false, casOk_iff] at hcas
      obtain ⟨⟨-, -, hlen⟩, -⟩ := hcas
      have hbacked := h.table.splice_plain (Nat.zero_le _) hlen hplain
      exact ⟨hbacked, h.pushTxn.log, h.pushTxn.redo⟩

theorem placed_replaceSpanWithChip (h : Placed m) {reference : ReferenceInsert} {span : TokenSpan}
    (hcas : m.casOk span = true) : Placed (m.replaceSpanWithChip reference span).1 := by
  rw [casOk_iff] at hcas
  obtain ⟨-, hle, hlen⟩ := hcas
  have hgap : ∀ gap : Text, placeholder ∉ gap → positions placeholder (placeholder :: gap) = [0] := by
    intro gap hgap
    rw [positions, if_pos rfl, positions_eq_nil.mpr hgap]
    rfl
  have hbacked : ∀ (gap : Text) (minted : Occurrence), placeholder ∉ gap → minted.offset = span.start →
      Backed (MarkedText.splice m.draft span.start span.stop (placeholder :: gap))
        ((m.occurrences.filterMap (reconcileOne ⟨span.start, span.stop, (placeholder :: gap).length⟩)
          ++ [minted]).insertionSort fun a b => a.offset ≤ b.offset) := by
    intro gap minted hfree hoffset
    apply h.table.splice hle hlen
    rw [hgap gap hfree, map_singleton, map_singleton, Nat.zero_add, hoffset]
  unfold replaceSpanWithChip
  refine Placed.watchClaim ?_
  refine ⟨?_, h.pushTxn.log, h.pushTxn.redo⟩
  apply hbacked _ _ _ rfl
  split
  · exact not_mem_nil
  · decide

theorem placed_onInsertRef (h : Placed m) (reference : ReferenceInsert) (span : TokenSpan) :
    Placed (m.onInsertRef reference span) := by
  unfold onInsertRef
  split
  · exact h
  · split
    · exact h
    · next hcas =>
      rw [Bool.not_eq_true', Bool.not_eq_false] at hcas
      exact (placed_replaceSpanWithChip h hcas).of_eq rfl rfl rfl rfl

theorem placed_onConsumeToken (h : Placed m) (guard : ConsumeTokenGuard) : Placed (m.onConsumeToken guard) := by
  unfold onConsumeToken
  split
  · exact h
  · cases guard with
    | span span =>
      dsimp only
      split
      · exact h
      · next hcas =>
        rw [Bool.or_eq_true, not_or, Bool.not_eq_true', Bool.not_eq_false, casOk_iff] at hcas
        obtain ⟨⟨-, hle, hlen⟩, -⟩ := hcas
        have hbacked := h.table.splice_plain hle hlen (not_mem_nil (a := placeholder))
        rw [MarkedText.splice, append_nil] at hbacked
        refine Placed.of_eq (Placed.watchClaim ?_) rfl rfl rfl rfl
        exact ⟨hbacked, h.pushTxn.log, h.pushTxn.redo⟩
    | bareToken token =>
      dsimp only
      split
      · exact h
      · refine Placed.of_eq (Placed.watchClaim ?_) rfl rfl rfl rfl
        exact ⟨Backed.nil, h.pushTxn.log, h.pushTxn.redo⟩

theorem placed_onSetInvalid (h : Placed m) (invalidIds : List Nat) : Placed (m.onSetInvalid invalidIds) := by
  refine ⟨?_, h.log, h.redo⟩
  show ((m.occurrences.map _).map _) = _
  rw [map_map]
  exact h.table

theorem placed_onUndo (h : Placed m) : Placed m.onUndo := by
  unfold onUndo
  split
  · exact h
  · next t log hlog =>
    refine Placed.of_eq (Placed.watchClaim ?_) rfl rfl rfl rfl
    refine ⟨h.log t ?_, ?_, ?_⟩
    · rw [hlog]; exact mem_cons_self ..
    · intro u hu
      exact h.log u (by rw [hlog]; exact mem_cons_of_mem _ hu)
    · exact forall_mem_cons.mpr ⟨h.table, h.redo⟩

theorem placed_onRedo (h : Placed m) : Placed m.onRedo := by
  unfold onRedo
  split
  · exact h
  · next t redoStack hredo =>
    refine Placed.of_eq (Placed.watchClaim ?_) rfl rfl rfl rfl
    refine ⟨h.redo t ?_, ?_, ?_⟩
    · rw [hredo]; exact mem_cons_self ..
    · intro u hu
      rcases mem_cons.mp (mem_of_mem_take hu) with rfl | hu
      · exact h.table
      · exact h.log u hu
    · intro u hu
      exact h.redo u (by rw [hredo]; exact mem_cons_of_mem _ hu)

/-- **Componentizing writes one placeholder for each entry it mints**, at the entry's offset. -/
theorem componentize_spec {text : Text} (htext : placeholder ∉ text) (start : Nat) :
    ∀ (components : List PasteComponent) (m : InputMachine) (cursor : Nat) (inserted : Text),
      ∃ occurrenceSeq inserted' minted, m.componentize text start cursor inserted components
          = ({ m with occurrenceSeq }, inserted', minted) ∧
        (positions placeholder inserted').map (· + start)
          = (positions placeholder inserted).map (· + start) ++ minted.map (·.offset) := by
  intro components
  induction components with
  | nil =>
    intro m cursor inserted
    refine ⟨m.occurrenceSeq, inserted ++ text.drop cursor, [], rfl, ?_⟩
    have hrest : placeholder ∉ text.drop cursor := fun h => htext (mem_of_mem_drop h)
    rw [positions_append, positions_eq_nil.mpr hrest]
    simp
  | cons c components ih =>
    intro m cursor inserted
    have hslice : placeholder ∉ slice text cursor c.start := fun h => htext (mem_of_mem_drop (mem_of_mem_take h))
    obtain ⟨occurrenceSeq, inserted', minted, hrun, hpositions⟩ :=
      ih (m.mint c.reference (start + (inserted ++ slice text cursor c.start).length)).1 c.stop
        (inserted ++ slice text cursor c.start ++ [placeholder])
    refine ⟨occurrenceSeq, inserted',
      (m.mint c.reference (start + (inserted ++ slice text cursor c.start).length)).2 :: minted, ?_, ?_⟩
    · rw [componentize]
      dsimp only
      rw [hrun]
      rfl
    · rw [hpositions, positions_append, positions_append, positions_eq_nil.mpr hslice, map_nil,
        append_nil, map_append, append_assoc]
      congr 1
      rw [positions, if_pos rfl, positions]
      simp only [map_cons, map_nil, cons_append, nil_append, mint, Nat.zero_add, List.cons.injEq, and_true]
      exact Nat.add_comm _ _

theorem placed_onPasteBegin (h : Placed m) (rawText : Text) (start stop : Nat)
    (components : List PasteComponent) (generation : Nat) :
    Placed (m.onPasteBegin rawText start stop components generation) := by
  unfold onPasteBegin
  split
  · exact h
  · next hbounds =>
    rw [Bool.or_eq_true, not_or, decide_eq_true_eq, decide_eq_true_eq] at hbounds
    obtain ⟨hle, hlen⟩ := hbounds
    have htext : placeholder ∉ rawText.filter (· ≠ placeholder) := by
      rw [mem_filter]
      rintro ⟨-, hne⟩
      simp at hne
    obtain ⟨occurrenceSeq, inserted, minted, hrun, hpositions⟩ :=
      componentize_spec htext start (components.insertionSort fun a b => a.start ≤ b.start)
        { m.pushTxn with typingRun := none } 0 []
    dsimp only
    rw [hrun]
    dsimp only
    have hbacked := h.table.splice (Nat.le_of_not_lt hle) (Nat.le_of_not_lt hlen) hpositions.symm
    cases minted with
    | nil =>
      have hfree : placeholder ∉ inserted := by
        rw [← positions_eq_nil]
        simpa [positions] using hpositions
      have hplain := h.table.splice_plain (Nat.le_of_not_lt hle) (Nat.le_of_not_lt hlen) hfree
      split
      · refine Placed.of_eq (Placed.watchClaim ?_) rfl rfl rfl rfl
        exact ⟨hplain, h.pushTxn.log, h.pushTxn.redo⟩
      · refine Placed.of_eq (Placed.watchClaim ?_) rfl rfl rfl rfl
        exact ⟨hplain, h.pushTxn.log, h.pushTxn.redo⟩
    | cons first minted =>
      split
      · refine Placed.of_eq (Placed.watchClaim ?_) rfl rfl rfl rfl
        exact ⟨hbacked, h.pushTxn.log, h.pushTxn.redo⟩
      · refine Placed.of_eq (Placed.watchClaim ?_) rfl rfl rfl rfl
        exact ⟨hbacked, h.pushTxn.log, h.pushTxn.redo⟩

theorem placed_onPasteUpgrade (h : Placed m) (attemptId : Nat) (span : TokenSpan)
    (reference : ReferenceInsert) : Placed (m.onPasteUpgrade attemptId span reference) := by
  unfold onPasteUpgrade
  split
  · exact h
  · split
    · exact h
    · split
      · exact h
      · split
        · exact h
        · next hcas =>
          rw [Bool.or_eq_true, not_or, Bool.not_eq_true', Bool.not_eq_false] at hcas
          exact (@placed_replaceSpanWithChip _ h reference _ hcas.1).of_eq rfl rfl rfl rfl

theorem placed_commit (m : InputMachine) : Placed m.commit := ⟨Backed.nil, nofun, nofun⟩

theorem placed_onEnter (h : Placed m) (mode : InputSubmitMode) : Placed (m.onEnter mode).1 := by
  unfold onEnter
  split
  · exact h
  · split
    · exact h.of_eq rfl rfl rfl rfl
    · dsimp only
      split
      · exact h
      · split
        · exact h.of_eq rfl rfl rfl rfl
        · exact h.of_eq rfl rfl rfl rfl

theorem placed_onAdjudicated (h : Placed m) (attempt : SubmitAttempt) (outcome : PickOutcome) :
    Placed (m.onAdjudicated attempt outcome).1 := by
  unfold onAdjudicated
  split
  · exact h
  · cases outcome <;> exact h.of_eq rfl rfl rfl rfl

theorem placed_onAdjudicationFailed (h : Placed m) (attempt : SubmitAttempt) (message : Text) :
    Placed (m.onAdjudicationFailed attempt message).1 := by
  unfold onAdjudicationFailed
  split
  · exact h
  · exact h.of_eq rfl rfl rfl rfl

theorem placed_onRelease (h : Placed m) : Placed m.onRelease := by
  unfold onRelease
  split <;> exact h.of_eq rfl rfl rfl rfl

theorem placed_onSubmitSettled (h : Placed m) (attempt : SubmitAttempt) (ok : Bool)
    (outcome : Option SubmitOutcome) (message : Option Text) :
    Placed (m.onSubmitSettled attempt ok outcome message).1 := by
  unfold onSubmitSettled
  split
  · exact h
  · split
    · exact h
    · dsimp only
      split
      · split <;> exact placed_commit _
      · split <;> exact h.of_eq rfl rfl rfl rfl

/-- **Every event keeps the tables**, whether it edits, undoes, settles or commits. -/
theorem placed_dispatch (h : Placed m) {ev : InputEvent} (hplain : Plain m ev) : Placed (m.dispatch ev).1 := by
  cases ev with
  | draftChanged draft editRange time => exact (placed_onDraftChanged h hplain).of_eq rfl rfl rfl rfl
  | beginCommand claim span => exact (placed_onBeginCommand h hplain).of_eq rfl rfl rfl rfl
  | insertRef reference span => exact (placed_onInsertRef h reference span).of_eq rfl rfl rfl rfl
  | consumeToken guard => exact (placed_onConsumeToken h guard).of_eq rfl rfl rfl rfl
  | setInvalid invalidIds => exact (placed_onSetInvalid h invalidIds).of_eq rfl rfl rfl rfl
  | undo => exact (placed_onUndo h).of_eq rfl rfl rfl rfl
  | redo => exact (placed_onRedo h).of_eq rfl rfl rfl rfl
  | pasteBegin text start stop components generation =>
    exact (placed_onPasteBegin h text start stop components generation).of_eq rfl rfl rfl rfl
  | pasteUpgrade attemptId span reference =>
    exact (placed_onPasteUpgrade h attemptId span reference).of_eq rfl rfl rfl rfl
  | invalidatePaste => exact h.of_eq rfl rfl rfl rfl
  | enter mode => exact (placed_onEnter h mode).of_eq rfl rfl rfl rfl
  | adjudicated attempt outcome => exact (placed_onAdjudicated h attempt outcome).of_eq rfl rfl rfl rfl
  | adjudicationFailed attempt message => exact (placed_onAdjudicationFailed h attempt message).of_eq rfl rfl rfl rfl
  | submitSettled attempt ok outcome message =>
    exact (placed_onSubmitSettled h attempt ok outcome message).of_eq rfl rfl rfl rfl
  | sendCommitted => exact (placed_commit m).of_eq rfl rfl rfl rfl
  | release => exact (placed_onRelease h).of_eq rfl rfl rfl rfl

end CocoHarness.Composer
