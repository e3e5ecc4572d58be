/-
# CocoHarness.Compaction.Retention — what the selector retains.

A cut may be retained when the tail behind it is not empty, reaches the budget, and begins at a balanced boundary.
The selector finds the last such cut (`selected`): the walk by price stops at the last cut that reaches the budget
(`le_keepFrom_iff`), every earlier one reaches it too, and the walk by balance stops at the last of these that is
balanced.
-/
import CocoHarness.Compaction.Region
import CocoHarness.Compaction.ToolPairingCache

namespace CocoHarness.Compaction

open Lib SessionLog List Nat

/-! ## The walk by price -/

variable {index : Nat} {nodes : List TokenSurfaceNode}

theorem totalTokens_drop (h : index < nodes.length) : totalTokens (nodes.drop index)
      = totalTokens (nodes.drop (index + 1)) + (nodes[index]?.map (·.tokens)).getD 0 := by
  rw [drop_eq_getElem_cons h, getElem?_eq_getElem h]
  show _ + _ = _ + _
  simp only [Option.map_some, Option.getD_some]
  exact add_comm _ _

theorem totalTokens_anti {i j : Nat} (h : i ≤ j) : totalTokens (nodes.drop j) ≤ totalTokens (nodes.drop i) := by
  obtain ⟨d, rfl⟩ := Nat.exists_eq_add_of_le h
  unfold totalTokens
  rw [← drop_drop]
  have hsplit := congrArg (fun l : List TokenSurfaceNode => (l.map (·.tokens)).sum)
    (take_append_drop d (nodes.drop i))
  simp only [map_append, sum_append] at hsplit
  omega

theorem totalTokens_nothing (nodes : List TokenSurfaceNode) : totalTokens (nodes.drop nodes.length) = 0 := by
  rw [drop_length]
  rfl

/-- **The walk by price** stops at the last cut whose tail reaches the budget. -/
theorem le_keepFrom_iff (nodes : List TokenSurfaceNode) (retainTokens : JsNumber) (hindex : index ≤ nodes.length) :
    (keepFrom nodes retainTokens index (totalTokens (nodes.drop index)) < index ∨ index = 0)
      ∧ ∀ cut, 0 < cut → cut < index → (retainTokens.leNat (totalTokens (nodes.drop cut)) = true
          ↔ cut ≤ keepFrom nodes retainTokens index (totalTokens (nodes.drop index))) := by
  induction index with
  | zero => exact ⟨.inr rfl, fun cut _ hlt => absurd hlt (not_lt_zero cut)⟩
  | succ index ih =>
    obtain ⟨hbound, hreach⟩ := ih (by omega)
    simp only [keepFrom]
    rw [← totalTokens_drop (by omega)]
    split
    · next hstop =>
      refine ⟨.inl (lt_succ_self index), fun cut hpos hlt => ?_⟩
      have hle : cut ≤ index := by omega
      exact ⟨fun _ => hle, fun _ => JsNumber.leNat_mono hstop (totalTokens_anti hle)⟩
    · next hgo =>
      refine ⟨.inl ?_, fun cut hpos hlt => ?_⟩
      · rcases hbound with hlt | rfl
        · omega
        · exact zero_lt_one
      · -- the cut just left behind does not reach the budget
        by_cases hhere : cut = index
        · subst hhere
          refine ⟨fun hreaches => absurd hreaches hgo, fun hle => ?_⟩
          rcases hbound with hlt | rfl
          · omega
          · omega
        · exact hreach cut hpos (by omega)

/-! ## The walk by balance -/

variable {seqs : List Int} {seq : Int}

theorem idxOf?_of_getElem? (hnodup : seqs.Nodup) (h : seqs[index]? = some seq) : seqs.idxOf? seq = some index := by
  obtain ⟨hlt, rfl⟩ := List.getElem?_eq_some_iff.mp h
  apply List.idxOf?_eq_some_iff.mpr
  refine ⟨hlt, rfl, fun j hj heq => ?_⟩
  have hsame := (List.Nodup.getElem_inj_iff hnodup).mp heq
  omega

variable {events : List SessionEvent} {cuts : List Bool}

theorem pairedFromScratch_at (hnodup : seqs.Nodup) (hpairs : pairing events seqs = .ok cuts)
    (hseq : seqs[index]? = some seq) (side : CutSide) {balanced : Bool}
    (hcut : cuts[index + side.offset]? = some balanced) :
    pairedFromScratch events seqs seq side = .ok balanced := by
  unfold pairedFromScratch
  rw [hpairs, ok_bind, idxOf?_of_getElem? hnodup hseq]
  simp only [Option.bind_some, hcut, pure_eq_ok]

theorem pairing_length (h : pairing events seqs = .ok cuts) : cuts.length = seqs.length + 1 := by
  simp only [pairing, bind_eq_ok_iff, pure_eq_ok, Except.ok.injEq] at h
  obtain ⟨⟨more, _⟩, hpair, rfl⟩ := h
  rw [length_cons, pairTail_length hpair]

namespace PairedSession

variable {p : PairedSession} {a : ScratchSession} {state : SurfaceFoldState}
  {rs : List SurfaceFoldReplacement}

theorem balancedCut_spec (h : p.Synced a) (hlog : surfaceAfter a.log = .ok (state, rs)) (hpairs : pairing a.log state.nodes = .ok cuts) (index : Nat)
    (hindex : index < state.nodes.length ∨ index = 0) :
    ∃ p' cut, p'.Synced a ∧ p.balancedCut state.nodes index = (p', .ok cut) ∧ cut ≤ index
      ∧ (0 < cut → cuts[cut]? = some true) ∧ ∀ j, cut < j → j ≤ index → cuts[j]? = some false := by
  induction index generalizing p with
  | zero => exact ⟨p, 0, h, rfl, le_refl 0, nofun, fun j hj hle => by omega⟩
  | succ index ih =>
    have hlt : index + 1 < state.nodes.length := by omega
    obtain ⟨p', hp', hanswer⟩ := toolPairingBalanced_spec h hlog state.nodes[index + 1] .before
    have hlength := pairing_length hpairs
    have hcut : cuts[index + 1]? = some cuts[index + 1] := getElem?_eq_getElem (by omega)
    have hanswers := pairedFromScratch_at (surfaceAfter_nodup hlog) hpairs
      (getElem?_eq_getElem hlt) .before hcut
    rw [hanswers] at hanswer
    simp only [balancedCut, getElem?_eq_getElem hlt, hanswer]
    cases hbalanced : cuts[index + 1] with
    | true =>
      refine ⟨p', index + 1, hp', rfl, le_refl _, fun _ => ?_, fun j hj hle => by omega⟩
      rw [hcut, hbalanced]
    | false =>
      obtain ⟨p'', cut, hp'', hwalk, hle, htrue, hfalse⟩ := ih hp' (.inl (by omega))
      refine ⟨p'', cut, hp'', hwalk, le_succ_of_le hle, htrue, fun j hj hle' => ?_⟩
      by_cases hhere : j = index + 1
      · rw [hhere, hcut, hbalanced]
      · exact hfalse j hj (by omega)

/-- On a surface that does not pair the walk throws, unless there is nothing to walk over. -/
theorem balancedCut_unpaired (h : p.Synced a) (hlog : surfaceAfter a.log = .ok (state, rs))
    {e : JsError} (hpairs : pairing a.log state.nodes = .error e)
    (hindex : index + 1 < state.nodes.length) :
    ∃ p', p'.Synced a ∧ p.balancedCut state.nodes (index + 1) = (p', .error e) := by
  obtain ⟨p', hp', hanswer⟩ := toolPairingBalanced_spec h hlog state.nodes[index + 1] .before
  refine ⟨p', hp', ?_⟩
  unfold pairedFromScratch at hanswer
  rw [hpairs] at hanswer
  simp only [balancedCut, getElem?_eq_getElem hindex, hanswer]
  rfl

theorem surfaceNodes_spec (h : p.Synced a) (hlog : surfaceAfter a.log = .ok (state, rs)) :
    ∃ p', p'.Synced a ∧ p.surfaceNodes = (p', .ok state.nodes) := by
  obtain ⟨state', rs', s', hlog', hsurface, hs'⟩ := h.session.surface_state
  cases hlog.symm.trans hlog'
  refine ⟨{ p with session := s' }, ⟨hs', h.cache⟩, ?_⟩
  unfold surfaceNodes
  rw [hsurface]
  rfl

end PairedSession

/-! ## Selecting -/

/-- The tail behind the cut and the range before it are not empty, it reaches the budget, and it begins balanced. -/
def Retainable (cuts : List Bool) (pricedNodes : List TokenSurfaceNode) (retainTokens : JsNumber) (cut : Nat) : Prop :=
  0 < cut ∧ cut < pricedNodes.length ∧ retainTokens.leNat (totalTokens (pricedNodes.drop cut)) = true
    ∧ cuts[cut]? = some true

def Selected (cuts : List Bool) (pricedNodes : List TokenSurfaceNode) (retainTokens : JsNumber) (cut : Nat) : Prop :=
  Retainable cuts pricedNodes retainTokens cut ∧ ∀ other, Retainable cuts pricedNodes retainTokens other → other ≤ cut

namespace PairedSession

variable {p : PairedSession} {a : ScratchSession} {state : SurfaceFoldState}
  {rs : List SurfaceFoldReplacement} {pricedNodes : List TokenSurfaceNode}

/-- **Selecting.** -/
theorem select_spec (h : p.Synced a) (hlog : surfaceAfter a.log = .ok (state, rs)) (hmatch : state.nodes = pricedNodes.map (·.seq))
    (retainTokens : JsNumber) (hpairs : pairing a.log state.nodes = .ok cuts) :
    ∃ p', p'.Synced a ∧ ((∃ cut start stop, Selected cuts pricedNodes retainTokens cut
          ∧ state.nodes[0]? = some start ∧ state.nodes[cut - 1]? = some stop
          ∧ p.selectCompactableRange pricedNodes retainTokens = (p', .ok (some ⟨start, stop⟩)))
        ∨ (∀ cut, ¬ Retainable cuts pricedNodes retainTokens cut)
          ∧ p.selectCompactableRange pricedNodes retainTokens = (p', .ok none)) := by
  have hlength : state.nodes.length = pricedNodes.length := by rw [hmatch, length_map]
  by_cases hempty : pricedNodes = []
  · refine ⟨p, h, .inr ⟨fun cut hcut => ?_, ?_⟩⟩
    · have hlt := hcut.2.1
      rw [hempty] at hlt
      exact not_lt_zero _ hlt
    · unfold selectCompactableRange
      rw [if_pos hempty]
  · obtain ⟨p₁, hp₁, hnodes⟩ := surfaceNodes_spec h hlog
    have hpos : 0 < pricedNodes.length := length_pos_iff.mpr hempty
    obtain ⟨hbound, hreach⟩ := le_keepFrom_iff pricedNodes retainTokens (le_refl _)
    rw [totalTokens_nothing] at hbound hreach
    obtain ⟨p₂, cut, hp₂, hwalk, hle, htrue, hfalse⟩ :=
      balancedCut_spec hp₁ hlog hpairs (keepFrom pricedNodes retainTokens pricedNodes.length 0)
        (.inl (by
          rcases hbound with hlt | hzero
          · rw [hlength]
            exact hlt
          · omega))
    refine ⟨p₂, hp₂, ?_⟩
    unfold selectCompactableRange
    rw [if_neg hempty, hnodes]
    dsimp only
    rw [if_neg (fun hne => hne hmatch), hwalk]
    -- a cut that may be retained is among those walked over
    have hlast : ∀ other, Retainable cuts pricedNodes retainTokens other → other ≤ cut := by
      intro other hother
      obtain ⟨hopos, holt, hotokens, hobalanced⟩ := hother
      by_contra hgt
      have hkept := (hreach other hopos holt).mp hotokens
      rw [hfalse other (by omega) hkept] at hobalanced
      cases hobalanced
    cases cut with
    | zero =>
      refine .inr ⟨fun other hother => ?_, rfl⟩
      have hzero := hlast other hother
      exact absurd hother.1 (by omega)
    | succ last =>
      have hkept : last + 1 < pricedNodes.length := by
        rcases hbound with hlt | hzero
        · omega
        · omega
      have hlast' : last < state.nodes.length := by omega
      have hfirst : 0 < state.nodes.length := by omega
      refine .inl ⟨last + 1, state.nodes[0], state.nodes[last], ⟨⟨succ_pos last, hkept, ?_, ?_⟩, hlast⟩,
        getElem?_eq_getElem hfirst, getElem?_eq_getElem hlast', ?_⟩
      · exact (hreach (last + 1) (succ_pos last) hkept).mpr hle
      · exact htrue (succ_pos last)
      · simp only [getElem?_eq_getElem hfirst, getElem?_eq_getElem hlast']
        rfl

theorem select_unpaired (h : p.Synced a) (hlog : surfaceAfter a.log = .ok (state, rs)) (hmatch : state.nodes = pricedNodes.map (·.seq))
    (retainTokens : JsNumber) {e : JsError} (hpairs : pairing a.log state.nodes = .error e) :
    (p.selectCompactableRange pricedNodes retainTokens).2 = .error e
      ∨ (p.selectCompactableRange pricedNodes retainTokens).2 = .ok none ∧ ∀ cut, 0 < cut → cut < pricedNodes.length →
          retainTokens.leNat (totalTokens (pricedNodes.drop cut)) = false := by
  have hlength : state.nodes.length = pricedNodes.length := by rw [hmatch, length_map]
  unfold selectCompactableRange
  split
  · next hempty =>
    refine .inr ⟨rfl, fun cut hpos hlt => ?_⟩
    rw [hempty] at hlt
    exact absurd hlt (not_lt_zero cut)
  · next hempty =>
    obtain ⟨p₁, hp₁, hnodes⟩ := surfaceNodes_spec h hlog
    have hpos : 0 < pricedNodes.length := length_pos_iff.mpr hempty
    obtain ⟨hbound, hreach⟩ := le_keepFrom_iff pricedNodes retainTokens (le_refl _)
    rw [totalTokens_nothing] at hbound hreach
    rw [hnodes]
    dsimp only
    rw [if_neg (fun hne => hne hmatch)]
    cases hkeep : keepFrom pricedNodes retainTokens pricedNodes.length 0 with
    | zero =>
      refine .inr ⟨rfl, fun cut hcut hlt => ?_⟩
      rw [hkeep] at hreach
      have hnot := mt (hreach cut hcut hlt).mp (by omega)
      exact Bool.eq_false_iff.mpr hnot
    | succ index =>
      have hindex : index + 1 < state.nodes.length := by omega
      obtain ⟨p₂, -, hwalk⟩ := balancedCut_unpaired hp₁ hlog hpairs hindex
      rw [hwalk]
      exact .inl rfl

end PairedSession

/-! ## Validating -/

namespace PairedSession

variable {p : PairedSession} {a : ScratchSession} {state : SurfaceFoldState}
  {rs : List SurfaceFoldReplacement}

theorem validate_spec (h : p.Synced a) (hlog : surfaceAfter a.log = .ok (state, rs)) {cuts : List Bool}
    (hpairs : pairing a.log state.nodes = .ok cuts) {cut : Nat} (hpos : 0 < cut)
    (hcut : cuts[cut]? = some true) {start stop : Int} (hstart : state.nodes[0]? = some start)
    (hstop : state.nodes[cut - 1]? = some stop) :
    (p.validateSurfaceRegion start stop).2 = .ok ⟨start, stop, 0, cut - 1, state.nodes.take cut⟩ := by
  have hnodup := surfaceAfter_nodup hlog
  obtain ⟨p₁, hp₁, hnodes⟩ := surfaceNodes_spec h hlog
  -- the cut before the head is balanced, as of nothing
  have hhead : cuts[0]? = some true := by
    simp only [pairing, bind_eq_ok_iff, pure_eq_ok, Except.ok.injEq] at hpairs
    obtain ⟨_, -, rfl⟩ := hpairs
    rfl
  have hbefore := pairedFromScratch_at hnodup hpairs hstart .before hhead
  have hlast : cuts[cut - 1 + CutSide.after.offset]? = some true := by
    show cuts[cut - 1 + 1]? = some true
    rw [Nat.sub_add_cancel hpos]
    exact hcut
  have hafter := pairedFromScratch_at hnodup hpairs hstop .after hlast
  obtain ⟨p₂, hp₂, hanswer⟩ := toolPairingBalanced_spec hp₁ hlog start .before
  obtain ⟨p₃, hp₃, hanswer'⟩ := toolPairingBalanced_spec hp₂ hlog stop .after
  rw [hbefore] at hanswer
  rw [hafter] at hanswer'
  unfold validateSurfaceRegion
  simp only [hnodes, idxOf?_of_getElem? hnodup hstart, idxOf?_of_getElem? hnodup hstop]
  rw [if_neg (not_lt_zero _)]
  simp only [hanswer, hanswer', Nat.sub_add_cancel hpos, drop_zero]

end PairedSession

/-! ## Replacing -/

theorem pairTail_last {n last : Int} (h : pairTail events n seqs = .ok (cuts, last)) :
    (decide (n = 0) :: cuts)[seqs.length]? = some (decide (last = 0)) := by
  induction seqs generalizing n cuts with
  | nil =>
    cases h
    rfl
  | cons seq rest ih =>
    simp only [pairTail, bind_eq_ok_iff] at h
    obtain ⟨_, -, delta, -, h⟩ := h
    split at h
    · cases h
    · simp only [bind_eq_ok_iff, pure_eq_ok, Except.ok.injEq, Prod.mk.injEq] at h
      obtain ⟨⟨more, _⟩, hmore, rfl, rfl⟩ := h
      exact ih hmore

variable {cut : Nat}

theorem pairTail_drop (h : pairing events seqs = .ok cuts) (hle : cut ≤ seqs.length) (hcut : cuts[cut]? = some true) :
    ∃ more last, pairTail events 0 (seqs.drop cut) = .ok (more, last) ∧ cuts.drop cut = true :: more := by
  simp only [pairing, bind_eq_ok_iff, pure_eq_ok, Except.ok.injEq] at h
  obtain ⟨⟨all, _⟩, hpair, rfl⟩ := h
  have hsplit := pairTail_append events 0 (seqs.take cut) (seqs.drop cut)
  rw [take_append_drop, hpair] at hsplit
  have hsplit := hsplit.symm
  simp only [bind_eq_ok_iff, pure_eq_ok, Except.ok.injEq, Prod.mk.injEq] at hsplit
  obtain ⟨⟨front, mid⟩, hfront, ⟨more, last⟩, hmore, rfl, rfl⟩ := hsplit
  have htake : (seqs.take cut).length = cut := by
    rw [length_take]
    omega
  have hlength : front.length = cut := by rw [pairTail_length hfront, htake]
  -- the count in progress at the cut is zero
  have hmid := pairTail_last hfront
  rw [htake] at hmid
  have hsame : (true :: (front ++ more))[cut]? = (true :: front)[cut]? := by
    show ((true :: front) ++ more)[cut]? = _
    rw [getElem?_append_left (by rw [length_cons]; omega)]
  have hzero : mid = 0 := by
    have hbalanced : some (decide (mid = 0)) = some true := by
      rw [← hmid, ← hcut, hsame]
      rfl
    exact of_decide_eq_true (Option.some.inj hbalanced)
  rw [hzero] at hmore
  refine ⟨more, last, hmore, ?_⟩
  show ((true :: front) ++ more).drop cut = true :: more
  rw [drop_append_of_le_length (by rw [length_cons]; omega)]
  have hone : (true :: front).drop cut = [true] := by
    have hget : (true :: front)[cut]? = some true := hsame.symm.trans hcut
    obtain ⟨hlt, htrue⟩ := List.getElem?_eq_some_iff.mp hget
    rw [drop_eq_getElem_cons hlt, htrue, drop_eq_nil_of_le (by rw [length_cons]; omega)]
  rw [hone]
  rfl

variable {log : List SessionEvent} {state : SurfaceFoldState} {rs : List SurfaceFoldReplacement}
  {event : SessionEvent} {state' : SurfaceFoldState} {rs' : List SurfaceFoldReplacement} {start stop : Int}

theorem replaced_nodes (hlog : surfaceAfter log = .ok (state, rs))
    (hlog' : surfaceAfter (log ++ [event]) = .ok (state', rs'))
    (hop : surfaceOpOf event = .ok (some (.replace start stop))) {i j : Nat} (hle : i ≤ j)
    (hstart : state.nodes[i]? = some start) (hstop : state.nodes[j]? = some stop) :
    state'.nodes = state.nodes.take i ++ (log.length : Int) :: state.nodes.drop (j + 1) ∧ event.seq = log.length := by
  have hnodup := surfaceAfter_nodup hlog
  obtain ⟨before, rs₀, plan, hbefore, hplan, rfl, -⟩ := surfaceAfter_snoc_ok hlog'
  cases hlog.symm.trans hbefore
  obtain ⟨hseq, -, -⟩ := planSurfaceEvent_spec hplan
  refine ⟨?_, hseq⟩
  unfold planSurfaceEvent at hplan
  rw [if_neg (fun hne => hne hseq)] at hplan
  simp only [hop, ok_bind, bind_eq_ok_iff, pure_eq_ok, Except.ok.injEq] at hplan
  obtain ⟨range, hrange, _, -, _, -, rfl⟩ := hplan
  unfold replacementRange at hrange
  simp only [idxOf?_of_getElem? hnodup hstart, idxOf?_of_getElem? hnodup hstop] at hrange
  rw [if_neg (not_lt.mpr hle)] at hrange
  cases hrange
  simp only [applySurfacePlan, hseq]
  rw [show i + (j - i + 1) = j + 1 by omega]

/-- A summary in the place of the range before a balanced cut leaves every later balance alone. -/
theorem pairing_replaced (hlog : surfaceAfter log = .ok (state, rs))
    (hpairs : pairing log state.nodes = .ok cuts) (hle : cut ≤ state.nodes.length)
    (hcut : cuts[cut]? = some true) (htype : event.type = "user/message")
    (hseq : event.seq = log.length) :
    pairing (log ++ [event]) ((log.length : Int) :: state.nodes.drop cut) = .ok (true :: cuts.drop cut) := by
  obtain ⟨more, last, hmore, hdrop⟩ := pairTail_drop hpairs hle hcut
  have hsame : pairTail (log ++ [event]) 0 (state.nodes.drop cut) = .ok (more, last) := by
    rw [pairTail_congr (fun seq hmem => ?_) 0]
    · exact hmore
    · exact eventAt_append (surfaceAfter_below hlog seq (mem_of_mem_drop hmem)) [event]
  have hevent : eventForSeq (log ++ [event]) log.length = .ok event := by
    have hat : eventAt (log ++ [event]) log.length = some event := by simp [eventAt]
    unfold eventForSeq
    rw [hat]
    simp [Option.filter, hseq]
  have hdelta : eventDelta event = .ok 0 := by simp [eventDelta, htype]
  rw [hdrop]
  unfold pairing
  simp only [pairTail, hevent, hdelta, ok_bind, Int.add_zero, lt_irrefl, if_false, hsame]
  rfl

/-- **A replaced range.**  Behind a message in the place of the range before a balanced cut, the surface pairs and
every balance is as before. -/
theorem replaced_balances (hlog : surfaceAfter log = .ok (state, rs)) (hpairs : pairing log state.nodes = .ok cuts)
    (hpos : 0 < cut) (hle : cut ≤ state.nodes.length) (hcut : cuts[cut]? = some true)
    (hlog' : surfaceAfter (log ++ [event]) = .ok (state', rs'))
    (hop : surfaceOpOf event = .ok (some (.replace start stop))) (hstart : state.nodes[0]? = some start)
    (hstop : state.nodes[cut - 1]? = some stop) (htype : event.type = "user/message") :
    state'.nodes = event.seq :: state.nodes.drop cut
      ∧ pairing (log ++ [event]) state'.nodes = .ok (true :: cuts.drop cut)
      ∧ ∀ seq ∈ state.nodes.drop cut, ∀ side, pairedFromScratch (log ++ [event]) state'.nodes seq side
            = pairedFromScratch log state.nodes seq side := by
  obtain ⟨hnodes, hseq⟩ := replaced_nodes hlog hlog' hop (Nat.zero_le _) hstart hstop
  rw [take_zero, nil_append, Nat.sub_add_cancel hpos] at hnodes
  have hpairs' := pairing_replaced hlog hpairs hle hcut htype hseq
  rw [← hnodes] at hpairs'
  refine ⟨by rw [hnodes, hseq], hpairs', fun seq hmem side => ?_⟩
  have hnodup := surfaceAfter_nodup hlog
  have hlength := pairing_length hpairs
  obtain ⟨i, hi, rfl⟩ := getElem_of_mem hmem
  have hlt : cut + i < state.nodes.length := by
    rw [length_drop] at hi
    omega
  have hoffset : side.offset ≤ 1 := by cases side <;> decide
  have hbound : cut + i + side.offset < cuts.length := by omega
  have hold : state.nodes[cut + i]? = some (state.nodes.drop cut)[i] := by
    rw [← getElem?_drop, getElem?_eq_getElem hi]
  have hnew : state'.nodes[i + 1]? = some (state.nodes.drop cut)[i] := by
    rw [hnodes, getElem?_cons_succ, getElem?_eq_getElem hi]
  rw [pairedFromScratch_at hnodup hpairs hold side (getElem?_eq_getElem hbound)]
  apply pairedFromScratch_at (surfaceAfter_nodup hlog') hpairs' hnew side
  rw [add_right_comm, getElem?_cons_succ, getElem?_drop, ← add_assoc,
    getElem?_eq_getElem hbound]

/-! ## Every surface -/

/-- A paired session as it is reached: a session, and any operations and queries. -/
inductive PairedSession.Reachable : PairedSession → Prop
  | run {s : Session} (hs : s.Reachable) (ops : List PairingOp) :
      Reachable (Machine.run pairingStep { session := s } ops).1

theorem PairedSession.Reachable.synced {p : PairedSession} (h : p.Reachable) : ∃ a, p.Synced a := by
  obtain ⟨hs, ops⟩ := h
  rename_i s
  obtain ⟨a, hrep, hrest⟩ := hs.atRest
  have hfirst : Beside { session := s } s := ⟨a, hrest, ⟨hrep, nofun⟩, hrep⟩
  have hlast := (Machine.run_simulates (R := Beside) (fun _ _ op h => beside_step h op) hfirst ops).2
  obtain ⟨a', -, hsynced, -⟩ := hlast
  exact ⟨a', hsynced⟩

/-- A message in the place of the range before the cut leaves a surface that pairs, with the balances behind the cut.
-/
def KeepsBalances (log : List SessionEvent) (seqs : List Int) (cuts : List Bool) (start stop : Int)
    (cut : Nat) : Prop :=
  ∀ more event state state' rs rs', surfaceAfter (log ++ more) = .ok (state, rs) → state.nodes = seqs →
    surfaceAfter (log ++ more ++ [event]) = .ok (state', rs') → event.type = "user/message" →
    surfaceOpOf event = .ok (some (.replace start stop)) →
    state'.nodes = event.seq :: seqs.drop cut
      ∧ pairing (log ++ more ++ [event]) state'.nodes = .ok (true :: cuts.drop cut)
      ∧ ∀ seq ∈ seqs.drop cut, ∀ side, pairedFromScratch (log ++ more ++ [event]) state'.nodes seq side
            = pairedFromScratch log seqs seq side

theorem pairing_later (hlog : surfaceAfter log = .ok (state, rs)) (more : List SessionEvent) :
    pairing (log ++ more) state.nodes = pairing log state.nodes := by
  unfold pairing
  rw [pairTail_congr (eventAt_earlier hlog (prefix_append log more)) 0]

theorem keepsBalances (hlog : surfaceAfter log = .ok (state, rs))
    (hpairs : pairing log state.nodes = .ok cuts) (hpos : 0 < cut) (hle : cut ≤ state.nodes.length)
    (hcut : cuts[cut]? = some true) (hstart : state.nodes[0]? = some start)
    (hstop : state.nodes[cut - 1]? = some stop) :
    KeepsBalances log state.nodes cuts start stop cut := by
  intro more event later state' rs₁ rs' hlater hnodes hlog' htype hop
  have hsame := pairing_later hlog more
  have hpairs' : pairing (log ++ more) later.nodes = .ok cuts := by
    rw [hnodes, hsame]
    exact hpairs
  rw [← hnodes] at hle hstart hstop ⊢
  obtain ⟨hafter, hbalanced, hanswers⟩ := replaced_balances hlater hpairs' hpos hle hcut hlog' hop hstart hstop htype
  refine ⟨hafter, hbalanced, fun seq hmem side => ?_⟩
  rw [hanswers seq hmem side]
  unfold pairedFromScratch
  rw [hpairs', hnodes, hpairs]

/-- **What the selector selects.**  On a surface that pairs, the range before the shortest tail that may be retained,
and nothing exactly when there is none; the validator accepts the range, and a message may take its place. On another
surface it throws, unless no tail that reaches the budget leaves a range. -/
theorem selectCompactableRange_spec {p : PairedSession} (hp : p.Reachable)
    {pricedNodes : List TokenSurfaceNode} {generation : Nat}
    (hmatch : p.session.surface.2 = .ok (pricedNodes.map (·.seq), generation))
    (retainTokens : JsNumber) :
    let log := eventsOf p.session.log
    let seqs := pricedNodes.map (·.seq)
    let selected := p.selectCompactableRange pricedNodes retainTokens
    (∀ cuts, pairing log seqs = .ok cuts → (∀ start stop, selected.2 = .ok (some ⟨start, stop⟩) ↔ ∃ cut,
          Selected cuts pricedNodes retainTokens cut ∧ seqs[0]? = some start ∧ seqs[cut - 1]? = some stop)
        ∧ (selected.2 = .ok none ↔ ∀ cut, ¬ Retainable cuts pricedNodes retainTokens cut)
        ∧ ∀ cut start stop, Selected cuts pricedNodes retainTokens cut → seqs[0]? = some start →
          seqs[cut - 1]? = some stop →
          (selected.1.validateSurfaceRegion start stop).2 = .ok ⟨start, stop, 0, cut - 1, seqs.take cut⟩
            ∧ KeepsBalances log seqs cuts start stop cut)
      ∧ ∀ e, pairing log seqs = .error e →
        selected.2 = .error e ∨ selected.2 = .ok none ∧ ∀ cut, 0 < cut → cut < pricedNodes.length →
          retainTokens.leNat (totalTokens (pricedNodes.drop cut)) = false := by
  intro log seqs selected
  obtain ⟨a, ha⟩ := hp.synced
  obtain ⟨state, rs, s', hlog, hsurface, -⟩ := ha.session.surface_state
  rw [hsurface] at hmatch
  obtain ⟨hnodes, -⟩ := Prod.mk.inj (Except.ok.inj hmatch)
  have hsame : log = a.log := ha.session.log
  have hseqs : state.nodes = seqs := hnodes
  have hlength : seqs.length = pricedNodes.length := length_map ..
  rw [hsame, ← hseqs]
  constructor
  · intro cuts hpairs
    obtain ⟨p', hp', hselect⟩ := PairedSession.select_spec ha hlog hnodes retainTokens hpairs
    have hunique : ∀ cut other, Selected cuts pricedNodes retainTokens cut →
        Selected cuts pricedNodes retainTokens other → cut = other := by
      intro cut other hcut hother
      exact Nat.le_antisymm (hother.2 cut hcut.1) (hcut.2 other hother.1)
    have hafter : selected.1 = p' := by
      rcases hselect with ⟨_, _, _, -, -, -, hselect⟩ | ⟨-, hselect⟩ <;>
        exact congrArg Prod.fst hselect
    refine ⟨fun start stop => ?_, ?_, fun cut start stop hcut hstart hstop => ⟨?_, ?_⟩⟩
    · rcases hselect with ⟨cut, start', stop', hcut, hstart', hstop', hselect⟩ | ⟨hnone, hselect⟩
      · have hreply : selected.2 = .ok (some ⟨start', stop'⟩) := congrArg Prod.snd hselect
        rw [hreply]
        constructor
        · intro heq
          cases heq
          exact ⟨cut, hcut, hstart', hstop'⟩
        · rintro ⟨other, hother, hstart, hstop⟩
          obtain rfl := hunique cut other hcut hother
          cases hstart'.symm.trans hstart
          cases hstop'.symm.trans hstop
          rfl
      · have hreply : selected.2 = .ok none := congrArg Prod.snd hselect
        rw [hreply]
        refine ⟨nofun, ?_⟩
        rintro ⟨cut, hcut, -, -⟩
        exact absurd hcut.1 (hnone cut)
    · rcases hselect with ⟨cut, start', stop', hcut, -, -, hselect⟩ | ⟨hnone, hselect⟩
      · have hreply : selected.2 = .ok (some ⟨start', stop'⟩) := congrArg Prod.snd hselect
        rw [hreply]
        exact ⟨nofun, fun hnone => absurd hcut.1 (hnone cut)⟩
      · have hreply : selected.2 = .ok none := congrArg Prod.snd hselect
        exact ⟨fun _ => hnone, fun _ => hreply⟩
    · rw [hafter]
      exact PairedSession.validate_spec hp' hlog hpairs hcut.1.1 hcut.1.2.2.2 hstart hstop
    · have hle : cut ≤ state.nodes.length := by
        have hlt := hcut.1.2.1
        rw [hseqs]
        omega
      exact keepsBalances hlog hpairs hcut.1.1 hle hcut.1.2.2.2 hstart hstop
  · intro e hpairs
    exact PairedSession.select_unpaired ha hlog hnodes retainTokens hpairs

def calledSession : PairedSession :=
  (Machine.run pairingStep { session := enteredSession } [appendOp "user/message" (.obj []),
    appendOp "assistant/message" oneCall, appendOp "tool/result" (.obj []),
    appendOp "user/message" (.obj [])]).1

/-- Two nodes reach the budget, but the cut before them would split the call from its result. -/
theorem selectCompactableRange_spec_split :
    let pricedNodes : List TokenSurfaceNode := [⟨0, 10⟩, ⟨1, 10⟩, ⟨2, 10⟩, ⟨3, 10⟩]
    let selected := calledSession.selectCompactableRange pricedNodes (.finite (.int 15))
    selected.2 = .ok (some ⟨0, 0⟩) ∧ (selected.1.validateSurfaceRegion 0 0).2 = .ok ⟨0, 0, 0, 0, [0]⟩ := by
  intro pricedNodes selected
  have hreached : calledSession.Reachable := .run enteredSession_reachable _
  have hmatch : calledSession.session.surface.2 = .ok (pricedNodes.map (·.seq), 0) := by decide +kernel
  have hpairs : pairing (eventsOf calledSession.session.log) (pricedNodes.map (·.seq))
      = .ok [true, true, false, true, true] := by
    decide +kernel
  have hselected : selected.2 = .ok (some ⟨0, 0⟩) := by decide +kernel
  have hspec := (selectCompactableRange_spec hreached hmatch (.finite (.int 15))).1 _ hpairs
  obtain ⟨cut, hcut, hstart, hstop⟩ := (hspec.1 0 0).mp hselected
  have haccepted := (hspec.2.2 cut 0 0 hcut hstart hstop).1
  refine ⟨hselected, haccepted.trans ?_⟩
  -- the range ends at the node before the cut, which is node 0
  obtain ⟨hpos, hlt, -, -⟩ := hcut.1
  have hone : cut = 1 := by
    have hlt' : cut < 4 := hlt
    have : cut = 1 ∨ cut = 2 ∨ cut = 3 := by omega
    rcases this with rfl | rfl | rfl
    · rfl
    · cases hstop
    · cases hstop
  rw [hone]
  rfl

end CocoHarness.Compaction
