/-
# CocoHarness.Compaction.TransactionLock — the log is the lock.

A compaction begins only when none is in progress, which is read off the log: the scan of the log from its end sees a
compaction in progress exactly when the fold of its brackets does (`compactionInactive_iff`).
-/
import CocoHarness.Compaction.TransactionSteps

namespace CocoHarness.Compaction

open Lib SessionLog List

/-! ## The scan and the fold -/

def isCompactionMarker (event : SessionEvent) : Bool :=
  event.type = "compaction/start" || event.type = "compaction/end"

def isEndSeed (event : SessionEvent) : Bool := event.type = "session/end-seed"

namespace CompactionEntryState

theorem seeEndSeed_spec (state : CompactionEntryState) (event : SessionEvent) :
    (state.seeEndSeed event).latestEndSeedSeq
        = state.latestEndSeedSeq.or (if isEndSeed event then some event.seq else none)
      ∧ (state.seeEndSeed event).unmatchedCompactionStart = state.unmatchedCompactionStart
      ∧ (state.seeEndSeed event).compactionEntryStateKnown = state.compactionEntryStateKnown := by
  unfold seeEndSeed isEndSeed
  cases hlatest : state.latestEndSeedSeq with
  | none => by_cases hseed : event.type = "session/end-seed" <;> simp [hseed, hlatest]
  | some seq => simp [hlatest]

theorem seeTurn_spec {state state' : CompactionEntryState} {event : SessionEvent}
    (h : state.seeTurn event = .ok state') :
    state'.latestEndSeedSeq = state.latestEndSeedSeq ∧ state'.unmatchedCompactionStart = state.unmatchedCompactionStart
      ∧ state'.compactionEntryStateKnown = state.compactionEntryStateKnown := by
  unfold seeTurn at h
  split at h
  · cases h
    exact ⟨rfl, rfl, rfl⟩
  · split at h
    · simp only [bind_eq_ok_iff, pure_eq_ok, Except.ok.injEq] at h
      obtain ⟨_, -, rfl⟩ := h
      exact ⟨rfl, rfl, rfl⟩
    · split at h <;> cases h <;> exact ⟨rfl, rfl, rfl⟩

/-- What the scan comes to: the newest seed boundary, and the newest marker if it is a start. -/
theorem scan_spec {state final : CompactionEntryState} {events : List SessionEvent} (h : state.scan events = .ok final)
    (hunknown : state.compactionEntryStateKnown = false → state.unmatchedCompactionStart = none) :
    final.latestEndSeedSeq = state.latestEndSeedSeq.or ((events.find? isEndSeed).map (·.seq))
      ∧ final.unmatchedCompactionStart = if state.compactionEntryStateKnown then state.unmatchedCompactionStart
          else (events.find? isCompactionMarker).filter (·.type = "compaction/start") := by
  induction events generalizing state with
  | nil =>
    have hfinal : state = final := Except.ok.inj h
    subst hfinal
    refine ⟨(Option.or_none ..).symm, ?_⟩
    by_cases hknown : state.compactionEntryStateKnown = true
    · rw [if_pos hknown]
    · rw [if_neg hknown, hunknown (by simpa using hknown)]
      rfl
  | cons event earlier ih =>
    simp only [scan, bind_eq_ok_iff] at h
    obtain ⟨next, hturn, h⟩ := h
    obtain ⟨hseed, hstart, hknown⟩ := seeTurn_spec hturn
    obtain ⟨hseed₀, hstart₀, hknown₀⟩ := seeEndSeed_spec state event
    have hcompaction : ((state.seeEndSeed event).seeCompaction event).latestEndSeedSeq
        = (state.seeEndSeed event).latestEndSeedSeq := by
      unfold seeCompaction
      split
      · rfl
      · split
        · rfl
        · split <;> rfl
    rw [hcompaction, hseed₀] at hseed
    -- the marker is known from before, or this event is one, or neither
    have hmarker : (next.compactionEntryStateKnown = true
          ∧ next.unmatchedCompactionStart = if state.compactionEntryStateKnown
              then state.unmatchedCompactionStart
              else (List.find? isCompactionMarker (event :: earlier)).filter (·.type = "compaction/start"))
        ∨ (state.compactionEntryStateKnown = false ∧ next.compactionEntryStateKnown = false
          ∧ next.unmatchedCompactionStart = none ∧ isCompactionMarker event = false) := by
      rw [hstart, hknown]
      unfold seeCompaction
      rw [hknown₀, hstart₀]
      by_cases hbefore : state.compactionEntryStateKnown = true
      · rw [if_pos hbefore]
        exact .inl ⟨hknown₀.trans hbefore, by rw [if_pos hbefore]; exact hstart₀⟩
      · have hfalse : state.compactionEntryStateKnown = false := by simpa using hbefore
        rw [if_neg hbefore, List.find?_cons]
        by_cases hopens : event.type = "compaction/start"
        · exact .inl ⟨by rw [if_pos hopens], by simp [Option.filter, hopens, isCompactionMarker, hbefore]⟩
        · by_cases hcloses : event.type = "compaction/end"
          · have hnone := hunknown hfalse
            exact .inl ⟨by simp [hcloses], by simp [Option.filter, hcloses, isCompactionMarker, hbefore, hnone]⟩
          · refine .inr ⟨hfalse, ?_, ?_, by simp [isCompactionMarker, hopens, hcloses]⟩
            · rw [if_neg hopens, if_neg hcloses]
              exact hknown₀.trans hfalse
            · rw [if_neg hopens, if_neg hcloses]
              exact hstart₀.trans (hunknown hfalse)
    have hlatest : state.latestEndSeedSeq.or ((List.find? isEndSeed (event :: earlier)).map (·.seq))
        = next.latestEndSeedSeq.or ((earlier.find? isEndSeed).map (·.seq)) := by
      rw [hseed, List.find?_cons]
      cases isEndSeed event <;> cases state.latestEndSeedSeq <;> rfl
    rw [hlatest]
    split at h
    · -- everything is known: the scan stops
      next hall =>
      cases h
      simp only [Bool.and_eq_true] at hall
      obtain ⟨seq, hseq⟩ := Option.isSome_iff_exists.mp hall.2
      refine ⟨by rw [hseq]; rfl, ?_⟩
      rcases hmarker with ⟨-, hmarker⟩ | ⟨-, hunknown', -, -⟩
      · exact hmarker
      · rw [hunknown'] at hall
        exact absurd hall.1.2 (by decide)
    · have hrest := ih h fun hunknown' => by
        rcases hmarker with ⟨hknown', -⟩ | ⟨-, -, hnone, -⟩
        · rw [hknown'] at hunknown'
          cases hunknown'
        · exact hnone
      refine ⟨hrest.1, hrest.2.trans ?_⟩
      rcases hmarker with ⟨hknown', hmarker⟩ | ⟨hbefore, hunknown', -, hplain⟩
      · rw [if_pos hknown', hmarker]
      · rw [if_neg (by rw [hunknown']; decide), if_neg (by rw [hbefore]; decide), List.find?_cons, hplain]

end CompactionEntryState

theorem activeCompaction_snoc (log : List SessionEvent) (event : SessionEvent) : activeCompaction (log ++ [event])
      = if event.type = "compaction/start" then some event.seq
        else if event.type = "compaction/end" || event.type = "session/end-seed" then none
        else activeCompaction log := by
  unfold activeCompaction
  rw [foldl_append]
  rfl

variable {log : List SessionEvent}

theorem activeCompaction_eq_none_iff (hseqs : (log.map (·.seq)).Pairwise (· < ·)) : activeCompaction log = none ↔
      ∀ start, (log.reverse.find? isCompactionMarker).filter (·.type = "compaction/start") = some start →
        ((log.reverse.find? isEndSeed).map (·.seq)).any (start.seq < ·) = true := by
  induction log using List.reverseRecOn with
  | nil => exact ⟨fun _ => nofun, fun _ => rfl⟩
  | append_singleton log event ih =>
    rw [map_append, pairwise_append] at hseqs
    obtain ⟨hbefore, -, hless⟩ := hseqs
    have hless' : ∀ earlier ∈ log, earlier.seq < event.seq := fun earlier hmem =>
      hless earlier.seq (mem_map_of_mem hmem) event.seq (mem_singleton_self _)
    have ih := ih hbefore
    rw [activeCompaction_snoc, reverse_append, reverse_singleton, singleton_append, List.find?_cons, List.find?_cons]
    by_cases hopens : event.type = "compaction/start"
    · -- every seed boundary is older than this start
      have hmarker : isCompactionMarker event = true := by simp [isCompactionMarker, hopens]
      have hseed : isEndSeed event = false := by simp [isEndSeed, hopens]
      rw [if_pos hopens, hmarker, hseed]
      refine ⟨nofun, fun hlater => ?_⟩
      have hnewer := hlater event (by simp [hopens])
      cases hfind : log.reverse.find? isEndSeed with
      | none =>
        rw [hfind] at hnewer
        cases hnewer
      | some earlier =>
        rw [hfind] at hnewer
        have hmem := mem_reverse.mp (mem_of_find?_eq_some hfind)
        have hlt := hless' earlier hmem
        simp only [Option.map_some, Option.any_some, decide_eq_true_eq] at hnewer
        omega
    · rw [if_neg hopens]
      by_cases hcloses : event.type = "compaction/end"
      · have hmarker : isCompactionMarker event = true := by simp [isCompactionMarker, hcloses]
        rw [hmarker]
        simp [hcloses]
      · have hmarker : isCompactionMarker event = false := by simp [isCompactionMarker, hopens, hcloses]
        rw [hmarker]
        by_cases hseeds : event.type = "session/end-seed"
        · -- every start is older than this boundary
          have hseed : isEndSeed event = true := by simp [isEndSeed, hseeds]
          rw [hseed]
          refine ⟨fun _ start hstart => ?_, fun _ => by simp [hseeds]⟩
          obtain ⟨hfind, -⟩ := Option.filter_eq_some_iff.mp hstart
          have hmem := mem_reverse.mp (mem_of_find?_eq_some hfind)
          exact decide_eq_true (hless' start hmem)
        · have hseed : isEndSeed event = false := by simp [isEndSeed, hseeds]
          rw [hseed]
          simp only [hcloses, hseeds, decide_false, Bool.or_self, Bool.false_eq_true, if_false]
          exact ih

/-- **The scan agrees with the fold**: it finds no compaction in progress exactly when the brackets leave none. -/
theorem compactionInactive_iff {state : SurfaceFoldState} {rs : List SurfaceFoldReplacement}
    (hlog : surfaceAfter log = .ok (state, rs)) {entryState : CompactionEntryState}
    (hscan : inspectCompactionEntryState log = .ok entryState) (stage : String) :
    assertCompactionInactive entryState stage = .ok () ↔ activeCompaction log = none := by
  have hseqs : (log.map (·.seq)).Pairwise (· < ·) := by
    rw [surfaceAfter_seqs hlog, pairwise_map]
    exact pairwise_lt_range.imp fun hlt => by simpa using hlt
  obtain ⟨hlatest, hstart⟩ := CompactionEntryState.scan_spec hscan (fun _ => rfl)
  rw [activeCompaction_eq_none_iff hseqs]
  have hlatest' : entryState.latestEndSeedSeq = (log.reverse.find? isEndSeed).map (·.seq) := by
    rw [hlatest]
    rfl
  have hstart' : entryState.unmatchedCompactionStart
      = (log.reverse.find? isCompactionMarker).filter (·.type = "compaction/start") := hstart
  rw [← hlatest', ← hstart']
  unfold assertCompactionInactive
  cases entryState.unmatchedCompactionStart with
  | none => exact ⟨fun _ => nofun, fun _ => rfl⟩
  | some start =>
    dsimp only
    by_cases hnewer : entryState.latestEndSeedSeq.any (start.seq < ·) = true
    · rw [if_pos hnewer]
      refine ⟨?_, fun _ => rfl⟩
      rintro - other ⟨⟩
      exact hnewer
    · rw [if_neg hnewer]
      exact ⟨nofun, fun hall => absurd (hall start rfl) hnewer⟩

/-! ## Brackets -/

theorem openCompactions_snoc (log : List SessionEvent) (event : SessionEvent) : openCompactions (log ++ [event])
      = if event.type = "compaction/start" then event.seq :: openCompactions log
        else if event.type = "compaction/end" then (openCompactions log).tail
        else if event.type = "session/end-seed" then []
        else openCompactions log := by
  unfold openCompactions
  rw [foldl_append]
  rfl

/-- From a point on, what is open after the log and its prefixes is the compaction that is active. -/
def Bracketed (base : Nat) (log : List SessionEvent) : Prop :=
  ∀ n, base ≤ n → openCompactions (log.take n) = (activeCompaction (log.take n)).toList

variable {base : Nat}

theorem Bracketed.whole (h : Bracketed base log) (hbase : base ≤ log.length) :
    openCompactions log = (activeCompaction log).toList := by
  have := h log.length hbase
  rwa [take_length] at this

variable {event : SessionEvent}

theorem Bracketed.snoc (h : Bracketed base log)
    (hlast : openCompactions (log ++ [event]) = (activeCompaction (log ++ [event])).toList) :
    Bracketed base (log ++ [event]) := by
  intro n hn
  rcases Nat.lt_or_ge log.length n with hlonger | hshorter
  · rw [take_of_length_le (by rw [length_append]; exact hlonger)]
    exact hlast
  · rw [take_append_of_le_length hshorter]
    exact h n hn

def isPlain (event : SessionEvent) : Prop := event.type ∉ ["compaction/start", "compaction/end", "session/end-seed"]

theorem activeCompaction_plain (hplain : isPlain event) :
    activeCompaction (log ++ [event]) = activeCompaction log := by
  simp only [isPlain, mem_cons, not_mem_nil, or_false, not_or] at hplain
  simp [activeCompaction_snoc, hplain]

theorem activeCompaction_end (hend : event.type = "compaction/end") : activeCompaction (log ++ [event]) = none := by
  simp [activeCompaction_snoc, hend]

theorem Bracketed.plain (h : Bracketed base log) (hbase : base ≤ log.length) (hplain : isPlain event) :
    Bracketed base (log ++ [event]) := by
  apply h.snoc
  rw [activeCompaction_plain hplain, ← h.whole hbase]
  simp only [isPlain, mem_cons, not_mem_nil, or_false, not_or] at hplain
  simp [openCompactions_snoc, hplain]

theorem Bracketed.plains {more : List SessionEvent} (h : Bracketed base log) (hbase : base ≤ log.length)
    (hplain : ∀ event ∈ more, isPlain event) :
    Bracketed base (log ++ more) ∧ activeCompaction (log ++ more) = activeCompaction log := by
  induction more using List.reverseRecOn with
  | nil =>
    rw [append_nil]
    exact ⟨h, rfl⟩
  | append_singleton more event ih =>
    obtain ⟨hmore, hactive⟩ := ih fun event hmem => hplain event (mem_append_left _ hmem)
    have hevent := hplain event (mem_append_right _ (mem_singleton_self _))
    rw [← append_assoc]
    refine ⟨hmore.plain ?_ hevent, (activeCompaction_plain hevent).trans hactive⟩
    rw [length_append]
    exact Nat.le_add_right_of_le hbase

theorem Bracketed.closing (h : Bracketed base log) (hbase : base ≤ log.length)
    (hend : event.type = "compaction/end") : Bracketed base (log ++ [event]) := by
  apply h.snoc
  rw [activeCompaction_end hend, openCompactions_snoc, h.whole hbase]
  simp only [hend, String.reduceEq, if_false, if_true]
  cases activeCompaction log <;> rfl

theorem Bracketed.opening (h : Bracketed base log) (hbase : base ≤ log.length)
    (hstart : event.type = "compaction/start") (hinactive : activeCompaction log = none) :
    Bracketed base (log ++ [event]) := by
  apply h.snoc
  rw [openCompactions_snoc, activeCompaction_snoc, h.whole hbase, hinactive]
  simp [hstart]

end CocoHarness.Compaction
