/-
# CocoHarness.Compaction.TransactionExclusion — one compaction at a time.

While nothing but transactions writes brackets, a transaction that begins finds none active, and one that is active
is the only one until it has attempted its end (`Exclusive`).
-/
import CocoHarness.Compaction.TransactionSafety

namespace CocoHarness.Compaction

open Lib SessionLog List

/-! ## One at a time -/

/-- Anything else that is done to the session writes no brackets. -/
def CompactorAct.Quiet : CompactorAct → Prop
  | .other (.session (.append request _)) =>
    request.type ∉ ["compaction/start", "compaction/end", "session/end-seed"]
  | _ => True

namespace Compactor

variable {estimate : Json → Except JsError Nat} {c c' : Compactor} {act : CompactorAct}

/-- The brackets of the log, from a point on, are those of the transactions, one after the other. -/
structure Exclusive (base : Nat) (c : Compactor) : Prop where
  seeded : base ≤ c.paired.log.length
  brackets : Bracketed base c.paired.log
  active : ∀ t ∈ c.transactions, t.active = true → activeCompaction c.paired.log = some t.startSeq
  alone : ∀ (i j : Nat) (t t' : Transaction), c.transactions[i]? = some t → c.transactions[j]? = some t' →
    t.active = true → t'.active = true → i = j
  owned : ∀ seq, activeCompaction c.paired.log = some seq →
    ∃ t ∈ c.transactions, t.startSeq = seq ∧ (t.active = true ∨ ∃ e, t.closings = [.error e])

variable {base : Nat} {paired : PairedSession}

theorem Exclusive.plain {event : SessionEvent} (h : c.Exclusive base)
    (happended : c.paired.Appended paired [event]) (hplain : isPlain event) :
    Exclusive base { c with paired } where
  seeded := by
    show base ≤ paired.log.length
    rw [happended.log, length_append]
    exact Nat.le_add_right_of_le h.seeded
  brackets := by
    show Bracketed base paired.log
    rw [happended.log]
    exact h.brackets.plain h.seeded hplain
  active := by
    show ∀ t ∈ c.transactions, t.active = true → activeCompaction paired.log = some t.startSeq
    rw [happended.log, activeCompaction_plain hplain]
    exact h.active
  alone := h.alone
  owned := by
    show ∀ seq, activeCompaction paired.log = some seq → _
    rw [happended.log, activeCompaction_plain hplain]
    exact h.owned

theorem Exclusive.read (h : c.Exclusive base) (happended : c.paired.Appended paired []) :
    Exclusive base { c with paired } := by
  have hsame : paired.log = c.paired.log := by rw [happended.log, append_nil]
  refine ⟨?_, ?_, ?_, h.alone, ?_⟩
  · show base ≤ paired.log.length
    rw [hsame]
    exact h.seeded
  · show Bracketed base paired.log
    rw [hsame]
    exact h.brackets
  · show ∀ t ∈ c.transactions, t.active = true → activeCompaction paired.log = some t.startSeq
    rw [hsame]
    exact h.active
  · show ∀ seq, activeCompaction paired.log = some seq → _
    rw [hsame]
    exact h.owned

variable {t : Transaction}

theorem Exclusive.begun (h : c.Exclusive base) {start : SessionEvent} {ends : List SessionEvent}
    (happended : c.paired.Appended paired (start :: ends)) (hstarts : Starts t c.paired.log start)
    (hpoint : t.active = true ∧ ends = [] ∨ t.active = false ∧ ∃ closing, t.closings = [closing]
      ∧ Attempt (c.paired.log ++ [start]) closing ends) :
    Exclusive base { paired, transactions := c.transactions ++ [t] } := by
  -- none of the earlier ones is active, for none was when this one began
  have hnone : ∀ t ∈ c.transactions, t.active = false := by
    intro t hmem
    by_contra hactive
    have hsome := h.active t hmem (by simpa using hactive)
    rw [hstarts.inactive] at hsome
    cases hsome
  have hopened : activeCompaction (c.paired.log ++ [start]) = some t.startSeq := by
    rw [activeCompaction_snoc, if_pos hstarts.type, hstarts.seq]
  have hbrackets := h.brackets.opening h.seeded hstarts.type hstarts.inactive
  have hseeded : base ≤ (c.paired.log ++ [start]).length := by
    rw [length_append]
    exact Nat.le_add_right_of_le h.seeded
  have hlog : paired.log = c.paired.log ++ [start] ++ ends := by rw [happended.log, append_cons]
  have hlonger : base ≤ paired.log.length := by
    rw [hlog, length_append]
    exact Nat.le_add_right_of_le hseeded
  rcases hpoint with ⟨hactive, rfl⟩ | ⟨hover, closing, hclosings, hattempt⟩
  · rw [append_nil] at hlog
    refine ⟨hlonger, ?_, ?_, ?_, ?_⟩
    · show Bracketed base paired.log
      rw [hlog]
      exact hbrackets
    · intro t' hmem hactive'
      rcases mem_append.mp hmem with hmem | hmem
      · rw [hnone t' hmem] at hactive'
        cases hactive'
      · rw [mem_singleton.mp hmem]
        show activeCompaction paired.log = _
        rw [hlog]
        exact hopened
    · intro i j t₁ t₂ hi hj hactive₁ hactive₂
      have hlast : ∀ k t', (c.transactions ++ [t])[k]? = some t' → t'.active = true → k = c.transactions.length := by
        intro k t' hk hactive'
        rcases Nat.lt_or_ge k c.transactions.length with hlt | hge
        · rw [getElem?_append_left hlt] at hk
          rw [hnone t' (mem_of_getElem? hk)] at hactive'
          cases hactive'
        · obtain ⟨hlt, -⟩ := List.getElem?_eq_some_iff.mp hk
          rw [length_append, length_singleton] at hlt
          omega
      rw [hlast i t₁ hi hactive₁, hlast j t₂ hj hactive₂]
    · intro seq hseq
      have hseq : activeCompaction paired.log = some seq := hseq
      rw [hlog, hopened] at hseq
      cases hseq
      exact ⟨t, by simp, rfl, .inl hactive⟩
  · obtain ⟨hclosed, hends⟩ := hattempt.bracketed hbrackets hseeded
    rw [← hlog] at hclosed hends
    have hnone' : ∀ t' ∈ c.transactions ++ [t], t'.active = false := by
      intro t' hmem
      rcases mem_append.mp hmem with hmem | hmem
      · exact hnone t' hmem
      · rw [mem_singleton.mp hmem]
        exact hover
    refine ⟨hlonger, hclosed, ?_, ?_, ?_⟩
    · intro t' hmem hactive'
      rw [hnone' t' hmem] at hactive'
      cases hactive'
    · intro i j t₁ t₂ hi hj hactive₁ hactive₂
      rw [hnone' t₁ (mem_of_getElem? hi)] at hactive₁
      cases hactive₁
    · intro seq hseq
      have hseq : activeCompaction paired.log = some seq := hseq
      rcases hends with hinactive | ⟨hsame, e, rfl⟩
      · rw [hinactive] at hseq
        cases hseq
      · rw [hsame, hopened] at hseq
        cases hseq
        exact ⟨t, by simp, rfl, .inr ⟨e, hclosings⟩⟩

theorem Exclusive.ended (h : c.Exclusive base) {index : Nat} {t' : Transaction}
    (hindex : c.transactions[index]? = some t) (hactive : t.active = true) (hover : t'.active = false)
    (hstartSeq : t'.startSeq = t.startSeq) {more ends : List SessionEvent}
    {closing : Except JsError Int} (hclosings : t'.closings = [closing])
    (happended : c.paired.Appended paired (more ++ ends)) (hplain : ∀ event ∈ more, isPlain event)
    (hattempt : Attempt (c.paired.log ++ more) closing ends) :
    Exclusive base { paired, transactions := c.transactions.set index t' } := by
  obtain ⟨hlt, hget⟩ := List.getElem?_eq_some_iff.mp hindex
  have hmem' : t' ∈ c.transactions.set index t' := mem_set hlt t'
  -- it was the only one
  have hnone : ∀ t'' ∈ c.transactions.set index t', t''.active = false := by
    intro t'' hmem
    by_contra hactive''
    have hactive'' : t''.active = true := by simpa using hactive''
    obtain ⟨k, hk⟩ := mem_iff_getElem?.mp hmem
    by_cases heq : index = k
    · subst heq
      rw [getElem?_set_self hlt] at hk
      cases hk
      rw [hover] at hactive''
      cases hactive''
    · rw [getElem?_set_ne heq] at hk
      exact heq (h.alone index k t t'' hindex hk hactive hactive'')
  obtain ⟨hmore, hsame⟩ := h.brackets.plains h.seeded hplain
  have hseeded : base ≤ (c.paired.log ++ more).length := by
    rw [length_append]
    exact Nat.le_add_right_of_le h.seeded
  obtain ⟨hclosed, hends⟩ := hattempt.bracketed hmore hseeded
  have hlog : paired.log = c.paired.log ++ more ++ ends := by rw [happended.log, append_assoc]
  rw [← hlog] at hclosed hends
  refine ⟨?_, hclosed, ?_, ?_, ?_⟩
  · show base ≤ paired.log.length
    rw [hlog, length_append]
    exact Nat.le_add_right_of_le hseeded
  · intro t'' hmem hactive''
    rw [hnone t'' hmem] at hactive''
    cases hactive''
  · intro i j t₁ t₂ hi hj hactive₁ hactive₂
    rw [hnone t₁ (mem_of_getElem? hi)] at hactive₁
    cases hactive₁
  · intro seq hseq
    have hseq : activeCompaction paired.log = some seq := hseq
    rcases hends with hinactive | ⟨hkept, e, rfl⟩
    · rw [hinactive] at hseq
      cases hseq
    · rw [hkept, hsame, h.active t (mem_of_getElem? hindex) hactive] at hseq
      cases hseq
      exact ⟨t', hmem', hstartSeq, .inr ⟨e, hclosings⟩⟩

/-- What is changed in a transaction that is not active changes nothing for the others. -/
theorem Exclusive.settled (h : c.Exclusive base) {index : Nat}
    (hindex : c.transactions[index]? = some t) (hover : t.active = false) {point : TransactionPoint}
    (hpoint : point.awaitsSummary = false) :
    Exclusive base { c with transactions := c.transactions.set index { t with point } } := by
  obtain ⟨hlt, -⟩ := List.getElem?_eq_some_iff.mp hindex
  have hold : ∀ (k : Nat) (t' : Transaction),
      (c.transactions.set index { t with point })[k]? = some t' → t'.active = true →
      c.transactions[k]? = some t' := by
    intro k t' hk hactive
    by_cases heq : index = k
    · subst heq
      rw [getElem?_set_self hlt] at hk
      cases hk
      exact absurd (hpoint.symm.trans hactive) (by decide)
    · rwa [getElem?_set_ne heq] at hk
  refine ⟨h.seeded, h.brackets, ?_, ?_, ?_⟩
  · intro t' hmem hactive
    obtain ⟨k, hk⟩ := mem_iff_getElem?.mp hmem
    exact h.active t' (mem_of_getElem? (hold k t' hk hactive)) hactive
  · intro i j t₁ t₂ hi hj hactive₁ hactive₂
    exact h.alone i j t₁ t₂ (hold i t₁ hi hactive₁) (hold j t₂ hj hactive₂) hactive₁ hactive₂
  · intro seq hseq
    obtain ⟨t', hmem, hstartSeq, howns⟩ := h.owned seq hseq
    obtain ⟨k, hk⟩ := mem_iff_getElem?.mp hmem
    by_cases heq : index = k
    · subst heq
      rw [hindex] at hk
      cases hk
      refine ⟨{ t with point }, mem_set hlt _, hstartSeq, ?_⟩
      rcases howns with hactive | howns
      · rw [hover] at hactive
        cases hactive
      · exact .inr howns
    · refine ⟨t', ?_, hstartSeq, howns⟩
      apply mem_of_getElem? (i := k)
      rw [getElem?_set_ne heq]
      exact hk

theorem Moves.exclusive (hc : c.InOrder estimate) (hone : c.Exclusive base) (hquiet : act.Quiet)
    (h : Moves estimate c act c') : c'.Exclusive base := by
  cases h with
  | @other op =>
    rcases hc.reached.step_log op with happended | ⟨request, listeners, event, rfl, htype, happended⟩
    · exact hone.read happended
    · apply hone.plain happended
      unfold isPlain
      rw [htype]
      exact hquiet
  | refused happended => exact hone.read happended
  | begun happended hstarts _ _ hpoint =>
    apply hone.begun happended hstarts
    rcases hpoint with ⟨prepared, hpoint, -, -, hends⟩ | ⟨hover, -, hattempt⟩
    · refine .inl ⟨?_, hends⟩
      unfold Transaction.active
      rw [hpoint]
      rfl
    · exact .inr ⟨hover, hattempt⟩
  | @summarized index answers paired t t' prepared body ends replacement closing hindex hpoint hbody hends
      hattempt happended _ =>
    obtain ⟨-, hclosings, -⟩ := (hc.sound t (mem_of_getElem? hindex)).waiting prepared hpoint
    have hactive : t.active = true := by
      unfold Transaction.active
      rw [hpoint]
      rfl
    refine hone.ended hindex hactive hends.ended hends.startSeq ?_ happended hbody.plain hattempt
    rw [hends.closings]
    show t.closings ++ _ = _
    rw [hclosings, nil_append]
  | @flushed index failure aborted t outcome hindex hpoint =>
    apply hone.settled hindex
    · unfold Transaction.active
      rw [hpoint]
      rfl
    · rfl

end Compactor

/-! ## Every run -/

theorem created_brackets {id : String} {seed : Option (List JsValue)} {now : EpochMs} {s : Session}
    (h : Session.create id seed now = .ok s) :
    openCompactions (eventsOf s.log) = [] ∧ activeCompaction (eventsOf s.log) = none := by
  obtain ⟨events, hevents, hrep⟩ := create_represents h
  rw [hrep.log]
  dsimp only
  -- a log that ends at a seed boundary has nothing open
  have hlast : ∀ log : List SessionEvent, log.getLast?.map (·.type) = some "session/end-seed" →
      openCompactions log = [] ∧ activeCompaction log = none := by
    intro log hlast
    obtain ⟨event, hevent, htype⟩ := Option.map_eq_some_iff.mp hlast
    obtain ⟨before, rfl⟩ := getLast?_eq_some_iff.mp hevent
    simp [openCompactions_snoc, activeCompaction_snoc, htype]
  unfold seededLog
  split
  · exact hlast _ (by simp [endSeedEvent])
  · next hmarked =>
    cases seed with
    | none =>
      cases hevents
      exact ⟨rfl, rfl⟩
    | some sources =>
      apply hlast
      simpa using hmarked

/-- **The compaction transaction.**  After every run on a created session, whatever the summarizers answer, whichever
appends throw and whatever else is done meanwhile: each transaction has attempted its end once, or awaits its summary;
its replacement, if any, stands for the span that was validated, and is smaller; without one the surface is unchanged
by it. The scan agrees with the brackets, and while nothing else writes brackets, one compaction is active at most,
and a start left open is one whose end could not be logged. -/
theorem compaction_transaction {id : String} {seed : Option (List JsValue)} {now : EpochMs} {s : Session}
    (hcreate : Session.create id seed now = .ok s) (estimate : Json → Except JsError Nat)
    {acts : List CompactorAct} {c : Compactor}
    (hrun : Machine.exec (Compactor.step estimate) { paired := { session := s } } acts = some c) :
    let log := c.paired.log
    (∀ t ∈ c.transactions, LoggedAt log t.startSeq (Starts t)
      ∧ (if t.active then t.closings = [] else ∃ closing, t.closings = [closing])
      ∧ (∀ seq, .ok seq ∈ t.closings → LoggedAt log seq fun _ event => event.type = "compaction/end")
      ∧ (∀ seq, t.replacement = some seq → LoggedAt log seq (Replaces estimate t.selection.shadowedSeqs))
      ∧ ∀ result, t.point.succeeded = some result → t.replacement.isSome
          ∧ t.closings = [.ok result.endSeq] ∧ result.shadowedSeqs = t.selection.shadowedSeqs)
    ∧ (∀ act c', c.step estimate act = some c' → (∃ op, act = .other op) ∨ SameSurface log c'.paired.log
          ∨ ∃ index answers t, act = .summarized index answers ∧ c'.transactions[index]? = some t
              ∧ t.replacement.isSome)
    ∧ (∀ entryState stage, inspectCompactionEntryState log = .ok entryState →
        (assertCompactionInactive entryState stage = .ok () ↔ activeCompaction log = none))
    ∧ ((∀ act ∈ acts, act.Quiet) →
        (∀ n, s.log.length ≤ n → openCompactions (log.take n) = (activeCompaction (log.take n)).toList)
        ∧ (∀ (i j : Nat) (t t' : Transaction), c.transactions[i]? = some t → c.transactions[j]? = some t' →
            t.active = true → t'.active = true → i = j)
        ∧ (∀ t ∈ c.transactions, t.active = true → activeCompaction log = some t.startSeq)
        ∧ ∀ seq, activeCompaction log = some seq → ∃ t ∈ c.transactions, t.startSeq = seq
            ∧ (t.active = true ∨ ∃ e, t.closings = [.error e])) := by
  intro log
  have hreached : PairedSession.Reachable { session := s } := .run (.create hcreate) []
  have hfirst : Compactor.InOrder estimate { paired := { session := s } } := ⟨hreached, forall_mem_nil _⟩
  have horder : c.InOrder estimate :=
    Machine.exec_invariant (I := Compactor.InOrder estimate)
      (fun act _ c c' hc hstep => (Compactor.moves hc hstep).sound hc) hfirst hrun
  obtain ⟨state, rs, hlog⟩ := horder.reached.accepted
  refine ⟨fun t hmem => ?_, fun act c' hstep => ?_, fun entryState stage hscan => ?_, fun hquiet => ?_⟩
  · have hsound := horder.sound t hmem
    refine ⟨hsound.starts, ?_, hsound.ends, hsound.replaces, hsound.succeeded⟩
    split
    · next hactive =>
      cases hpoint : t.point with
      | summarizing prepared => exact (hsound.waiting prepared hpoint).2.1
      | flushing _ | settled _ =>
        unfold Transaction.active at hactive
        rw [hpoint] at hactive
        cases hactive
    · next hover => exact hsound.attempted (by simpa using hover)
  · exact (Compactor.moves horder hstep).surface horder.reached
  · exact compactionInactive_iff hlog hscan stage
  · obtain ⟨hopen, hactive⟩ := created_brackets hcreate
    have hexclusive : Compactor.Exclusive s.log.length { paired := { session := s } } := by
      refine ⟨?_, ?_, forall_mem_nil _, ?_, ?_⟩
      · show s.log.length ≤ (eventsOf s.log).length
        rw [eventsOf_length]
      · intro n hn
        show openCompactions ((eventsOf s.log).take n) = _
        rw [take_of_length_le (by rwa [eventsOf_length]), hopen]
        show [] = (activeCompaction ((eventsOf s.log).take n)).toList
        rw [take_of_length_le (by rwa [eventsOf_length]), hactive]
        rfl
      · intro i j t t' hi
        cases hi
      · intro seq hseq
        have hseq : activeCompaction (eventsOf s.log) = some seq := hseq
        rw [hactive] at hseq
        cases hseq
    have hlast := (Machine.exec_invariant (I := fun c => c.InOrder estimate ∧ c.Exclusive s.log.length)
      (fun act hmem c c' hc hstep => by
        have hmoves := Compactor.moves hc.1 hstep
        exact ⟨hmoves.sound hc.1, hmoves.exclusive hc.1 hc.2 (hquiet act hmem)⟩)
      ⟨hfirst, hexclusive⟩ hrun).2
    exact ⟨hlast.brackets, hlast.alone, hlast.active, hlast.owned⟩

def textLength : Json → Except JsError Nat
  | .str text => .ok text.length
  | _ => .ok 0

/-- A turn with one question, whose compaction is under way when a second question comes. -/
def compactingActs : List CompactorAct :=
  let now : EpochMs := ⟨0, isSafe_zero⟩
  [.other (.session (.append { type := "turn/start", data := .obj [("turn", jsInt 1)], now } {})),
    .other (appendOp "user/message" (.str "a long question")),
    .begin { start := 1, stop := 1, manual := false, wholeSurface := false, flush := false, compactionId := "c" }
      { publication := { now }, close := { publication := { now } } },
    .other (appendOp "user/message" (.str "another question")),
    .summarized 0
      { answer := .ok { summary := .str "short", provider := .str "p", model := .str "m",
                        checkpointMessage := .str "short", wf := trivial }
        summary := { now }, replacement := { now }, close := { publication := { now } } }]

/-- The summary takes the place of the first question, and the end is logged after it. -/
theorem compaction_transaction_meanwhile : ∃ s c t, Session.create "s" none ⟨0, by decide⟩ = .ok s
      ∧ Machine.exec (Compactor.step textLength) { paired := { session := s } } compactingActs = some c
      ∧ t ∈ c.transactions ∧ LoggedAt c.paired.log 5 (Replaces textLength t.selection.shadowedSeqs)
      ∧ LoggedAt c.paired.log 6 (fun _ event => event.type = "compaction/end") := by
  let s : Session := { id := "s" }
  have hcreate : Session.create "s" none ⟨0, by decide⟩ = .ok s := rfl
  have hrun : (Machine.exec (Compactor.step textLength) { paired := { session := s } } compactingActs).map
      (fun c => c.transactions.map fun t => (t.replacement, t.closings.map Except.toOption))
        = some [(some 5, [some 6])] := by
    decide +kernel
  obtain ⟨c, hrun, hseen⟩ := Option.map_eq_some_iff.mp hrun
  obtain ⟨t, htransactions, hseen⟩ := map_eq_singleton_iff.mp hseen
  obtain ⟨hreplacement, hclosings⟩ := Prod.mk.inj hseen
  have hmem : t ∈ c.transactions := by
    rw [htransactions]
    exact mem_singleton_self t
  obtain ⟨-, -, hends, hreplaces, -⟩ := (compaction_transaction hcreate textLength hrun).1 t hmem
  refine ⟨s, c, t, hcreate, hrun, hmem, hreplaces 5 hreplacement, hends 6 ?_⟩
  obtain ⟨closing, hone, hclosing⟩ := map_eq_singleton_iff.mp hclosings
  rw [hone]
  cases closing with
  | error e => cases hclosing
  | ok seq =>
    cases hclosing
    exact mem_singleton_self _

end CocoHarness.Compaction
