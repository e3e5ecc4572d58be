/-
# CocoHarness.Schedule.FixedRate — fixed-rate schedules stay on the grid of their creation.

A fixed-rate record is created with a target, its anchor, and every dispatch moves the target on; the
record in between is only ever the text in the log.  What is carried from event to event is that the
target of an active record lies on the grid of its anchor and after every occurrence dispatched before
(`Anchored`), so no dispatch repeats or drifts, however late it comes and wherever the log is folded
back from.
-/
import CocoHarness.Schedule.Runtime

namespace CocoHarness.Schedule

open Lib Lib.SafeInteger SessionLog Agent List InsertionMap ScheduleRecord

variable {seedLength : Nat} {log : List SessionEvent}

/-! ## Dispatches in a log -/

/-- The event `e`, appended to the log `front`, dispatches the active fixed-rate record `r`. -/
structure Dispatches (seedLength : Nat) (front : List SessionEvent) (e : SessionEvent)
    (r : EveryScheduleRecord) (accepted : Int) (o : EveryOccurrence) : Prop where
  own : seedLength ≤ front.length
  active : ∃ s, foldSuffix front seedLength = .ok s ∧ s.active.lookup r.id = some (.every r)
  change : e.type = scheduleChange ∧ ∃ text, decodeScheduleChange e.data = .ok (.dispatch r.id (some text))
      ∧ dateParse text = some accepted
  resolved : resolveEveryOccurrence r accepted = .ok o

/-! ## The invariant -/

/-- The target lies on the grid of the record's creation, not before its anchor. -/
def OnGrid (c : EveryScheduleRecord) (target : Int) : Prop :=
  ∃ anchor, InRange anchor ∧ c.scheduledAt = toISOString anchor ∧ anchor ≤ target ∧ InRange target
    ∧ c.interval ∣ target - anchor

/-- The fold of a log, and how its active fixed-rate records came to their targets. -/
structure Anchored (seedLength : Nat) (log : List SessionEvent) (s : FoldState) : Prop where
  inv : s.Inv
  anchored : ∀ id r, s.active.lookup id = some (.every r) → ∃ c target,
    Creates seedLength log (.every c) ∧ OnGrid c target ∧ r = { c with scheduledAt := toISOString target }
      ∧ ∀ front e r' accepted o occurrence, front ++ [e] <+: log →
        Dispatches seedLength front e r' accepted o → r'.id = id →
        dateParse o.occurrenceAt = some occurrence → occurrence < target
  dispatched : ∀ front e r accepted o, front ++ [e] <+: log →
    Dispatches seedLength front e r accepted o → r.id ∈ s.seen

variable {front : List SessionEvent} {e : SessionEvent} {r : EveryScheduleRecord} {accepted : Int}
  {o : EveryOccurrence} {target : Int}

theorem Dispatches.occurrence (h : Dispatches seedLength front e r accepted o)
    (hvalid : (every r).Valid) (hrange : InRange target)
    (htarget : r.scheduledAt = toISOString target) :
    InRange accepted ∧ target ≤ accepted ∧ dateParse o.occurrenceAt = some (latestDue target r.interval accepted)
      ∧ o.nextScheduledAt = if maxFourDigitYearMs < latestDue target r.interval accepted + r.interval then none
            else some (toISOString (latestDue target r.interval accepted + r.interval)) := by
  obtain ⟨haccepted, hle, hoccurrence, hnext⟩ := (resolveEveryOccurrence_ok_iff hvalid hrange htarget).mp h.resolved
  have hpos : 0 < r.interval := by have := hvalid.interval; omega
  refine ⟨haccepted, hle, ?_, hnext⟩
  rw [hoccurrence, dateParse_toISOString (inRange_latestDue hpos hrange haccepted hle)]

theorem prefix_snoc_cases {d : SessionEvent} (h : front ++ [d] <+: log ++ [e]) :
    front ++ [d] <+: log ∨ front = log ∧ d = e := by
  rcases prefix_concat_iff.mp h with heq | hearlier
  · obtain ⟨hfront, hlast⟩ := append_inj' heq rfl
    exact Or.inr ⟨hfront, (List.cons.inj hlast).1⟩
  · exact Or.inl hearlier

variable {s : FoldState}

/-- **The step lemma.**  An accepted event keeps every active record on its grid, ahead of what was dispatched. -/
theorem Anchored.snoc {s' : FoldState} (hs : Anchored seedLength log s)
    (hseed : seedLength ≤ log.length) (hfold : foldSuffix log seedLength = .ok s)
    (h : foldEvent s e = .ok s') : Anchored seedLength (log ++ [e]) s' := by
  have hinv := hs.inv.event h
  -- a dispatch by the last event finds its record in `s`
  have hlast : ∀ {r accepted o}, Dispatches seedLength log e r accepted o →
      s.active.lookup r.id = some (.every r) := by
    intro r accepted o hd
    obtain ⟨t, ht, hactive⟩ := hd.active
    cases hfold.symm.trans ht
    exact hactive
  rcases foldEvent_ok h with ⟨htype, rfl⟩ | ⟨htype, change, hdata, hchange⟩
  · refine ⟨hinv, ?_, ?_⟩
    · intro id r hr
      obtain ⟨c, target, hcreates, hgrid, hrecord, hahead⟩ := hs.anchored id r hr
      refine ⟨c, target, hcreates.snoc hseed e, hgrid, hrecord, ?_⟩
      intro front d r' accepted o occurrence hpre hd
      rcases prefix_snoc_cases hpre with hpre | ⟨rfl, rfl⟩
      · exact hahead front d r' accepted o occurrence hpre hd
      · exact absurd hd.change.1 htype
    · intro front d r accepted o hpre hd
      rcases prefix_snoc_cases hpre with hpre | ⟨rfl, rfl⟩
      · exact hs.dispatched front d r accepted o hpre hd
      · exact absurd hd.change.1 htype
  · -- what the last event dispatches, if it is a dispatch at all
    have hsame : ∀ {r accepted o}, Dispatches seedLength log e r accepted o →
        ∃ text, change = .dispatch r.id (some text) ∧ dateParse text = some accepted := by
      intro r accepted o hd
      obtain ⟨-, text, hdata', hparse⟩ := hd.change
      exact ⟨text, Except.ok.inj (hdata.symm.trans hdata'), hparse⟩
    have hseen : ∀ {l}, l ∈ s.seen → l ∈ s'.seen := by
      intro l hl
      rcases foldChange_ok hchange with ⟨_, -, -, rfl⟩ | ⟨_, _, -, -, rfl⟩ | ⟨_, _, _, _, -, -, -, rfl⟩
      · exact mem_append_left _ hl
      · exact hl
      · exact hl
    -- records the event does not name keep their history
    have hother : ∀ id r, s.active.lookup id = some (.every r) → (∀ text, change ≠ .dispatch id text) → ∃ c target,
          Creates seedLength (log ++ [e]) (.every c) ∧ OnGrid c target
            ∧ r = { c with scheduledAt := toISOString target }
            ∧ ∀ front d r' accepted o occurrence, front ++ [d] <+: log ++ [e] →
              Dispatches seedLength front d r' accepted o → r'.id = id →
              dateParse o.occurrenceAt = some occurrence → occurrence < target := by
      intro id r hr hunnamed
      obtain ⟨c, target, hcreates, hgrid, hrecord, hahead⟩ := hs.anchored id r hr
      refine ⟨c, target, hcreates.snoc hseed e, hgrid, hrecord, ?_⟩
      intro front d r' accepted o occurrence hpre hd hid
      rcases prefix_snoc_cases hpre with hpre | ⟨rfl, rfl⟩
      · exact hahead front d r' accepted o occurrence hpre hd hid
      · obtain ⟨text, hdispatch, -⟩ := hsame hd
        rw [hid] at hdispatch
        exact absurd hdispatch (hunnamed _)
    have hdispatched : ∀ front d r accepted o, front ++ [d] <+: log ++ [e] →
        Dispatches seedLength front d r accepted o → r.id ∈ s'.seen := by
      intro front d r accepted o hpre hd
      rcases prefix_snoc_cases hpre with hpre | ⟨rfl, rfl⟩
      · exact hseen (hs.dispatched front d r accepted o hpre hd)
      · exact hseen (hs.inv.seen r.id _ (hlast hd))
    refine ⟨hinv, ?_, hdispatched⟩
    rcases foldChange_ok hchange with ⟨schedule, rfl, hnew, rfl⟩ | ⟨gone, record, rfl, hactive, rfl⟩
      | ⟨named, acceptedAt, record, next, rfl, hactive, hnext, rfl⟩
    · intro id r hr
      rw [lookup_set] at hr
      split at hr
      · next hid =>
        -- a new record is at its anchor, and its id has never been dispatched
        cases hr
        obtain ⟨anchor, hrange, htext⟩ := (decodeScheduleChange_valid hdata).target
        refine ⟨r, anchor, creates_last hseed htype hdata, ⟨anchor, hrange, htext, le_refl _, hrange, by simp⟩, ?_, ?_⟩
        · rw [show toISOString anchor = r.scheduledAt from htext.symm]
        · intro front d r' accepted o occurrence hpre hd hid' _
          rcases prefix_snoc_cases hpre with hpre | ⟨rfl, rfl⟩
          · refine absurd (hs.dispatched front d r' accepted o hpre hd) ?_
            rw [hid', hid]
            exact hnew
          · obtain ⟨text, hdispatch, -⟩ := hsame hd
            cases hdispatch
      · exact hother id r hr (fun _ h => by cases h)
    · intro id r hr
      rw [lookup_erase] at hr
      split at hr
      · cases hr
      · exact hother id r hr (fun _ h => by cases h)
    · intro id r hr
      by_cases hid : id = named
      · subst hid
        cases next with
        | none =>
          rw [Option.elim_none, lookup_erase, if_pos rfl] at hr
          cases hr
        | some next =>
          rw [Option.elim_some, lookup_set, if_pos rfl] at hr
          cases hr
          cases record with
          | oneShot record => cases (dispatchedRecord_oneShot_iff.mp hnext).2
          | every record =>
            -- the target moves past the occurrence that is dispatched now
            obtain ⟨c, target, hcreates, hgrid, rfl, hahead⟩ := hs.anchored id record hactive
            obtain ⟨anchor, hanchor, htext, hle, hrange, hdvd⟩ := hgrid
            have hvalid := hs.inv.valid id _ hactive
            obtain ⟨text, accepted, rfl, hparse, haccepted, hdue, hafter⟩ :=
              (dispatchedRecord_every_iff hvalid hrange rfl).mp hnext
            have hleast : 300000 ≤ c.interval := hvalid.interval.2
            have hpos : 0 < c.interval := by omega
            have hin := inRange_latestDue hpos hrange haccepted hdue
            obtain ⟨hnextRange, hnextRecord⟩ := EveryScheduleRecord.after_eq_some hvalid hin hafter.symm
            have hlater : target ≤ latestDue target c.interval accepted := le_latestDue hpos hdue
            refine ⟨c, _, hcreates.snoc hseed e, ⟨anchor, hanchor, htext, ?_, hnextRange, ?_⟩,
              every.inj hnextRecord, ?_⟩
            · show anchor ≤ latestDue target c.interval accepted + c.interval
              omega
            · have hstep : c.interval ∣ latestDue target c.interval accepted - target := dvd_latestDue_sub
              have hsum := Int.dvd_add (Int.dvd_add hstep (Int.dvd_refl c.interval)) hdvd
              rwa [show latestDue target c.interval accepted - target + c.interval
                + (target - anchor) = latestDue target c.interval accepted + c.interval - anchor by omega] at hsum
            · intro front d r' accepted' o occurrence hpre hd hid' hocc
              rcases prefix_snoc_cases hpre with hpre | ⟨rfl, rfl⟩
              · have hbefore := hahead front d r' accepted' o occurrence hpre hd hid' hocc
                show occurrence < latestDue target c.interval accepted + c.interval
                omega
              · have hactive' := hlast hd
                rw [hid', hactive] at hactive'
                obtain rfl := every.inj (Option.some.inj hactive')
                obtain ⟨text', hdispatch, hparse'⟩ := hsame hd
                obtain rfl := Option.some.inj (ScheduleChange.dispatch.inj hdispatch).2
                cases hparse.symm.trans hparse'
                obtain ⟨-, -, hocc', -⟩ := hd.occurrence hvalid hrange rfl
                cases hocc'.symm.trans hocc
                show latestDue target c.interval accepted < latestDue target c.interval accepted + c.interval
                omega
      · rw [show ({ s with active := next.elim (s.active.erase named) (s.active.set named) } :
            FoldState).active.lookup id = s.active.lookup id by
          cases next with
          | none => rw [Option.elim_none, lookup_erase, if_neg hid]
          | some next => rw [Option.elim_some, lookup_set, if_neg hid]] at hr
        refine hother id r hr ?_
        intro text heq
        exact hid (ScheduleChange.dispatch.inj heq).1.symm

/-- **The run lemma.** Folding a whole log keeps it. -/
theorem anchored_of_fold : ∀ {log : List SessionEvent}, seedLength ≤ log.length → ∀ {s : FoldState},
    foldSuffix log seedLength = .ok s → Anchored seedLength log s := by
  intro log
  induction log using List.reverseRecOn with
  | nil =>
    intro _ s h
    have hempty : s = {} := by
      rw [foldSuffix, drop_nil] at h
      exact (Except.ok.inj h).symm
    subst hempty
    refine ⟨.empty, (fun _ _ h => by cases h), ?_⟩
    intro front e r accepted o hpre
    exact absurd (prefix_nil.mp hpre) (by simp)
  | append_singleton log e ih =>
    intro hseed s h
    by_cases hlast : seedLength ≤ log.length
    · rw [foldSuffix_snoc hlast, bind_eq_ok_iff] at h
      obtain ⟨mid, hmid, hevent⟩ := h
      exact (ih hlast hmid).snoc hlast hmid hevent
    · -- the whole log is inherited
      have hall : seedLength = (log ++ [e]).length := by
        rw [length_append, length_singleton] at hseed ⊢
        omega
      have hempty : s = {} := by
        rw [hall, foldSuffix_seed] at h
        exact (Except.ok.inj h).symm
      subst hempty
      refine ⟨.empty, (fun _ _ h => by cases h), ?_⟩
      intro front d r accepted o hpre hd
      have hlength := hpre.length_le
      have hown := hd.own
      rw [length_append, length_singleton] at hlength
      omega

theorem fold_of_prefix {back : List SessionEvent} (hseed : seedLength ≤ front.length)
    (h : foldSuffix (front ++ back) seedLength = .ok s) : ∃ t, foldSuffix front seedLength = .ok t := by
  rw [foldSuffix, drop_append_of_le_length hseed, foldlM_append, bind_eq_ok_iff] at h
  obtain ⟨t, ht, -⟩ := h
  exact ⟨t, ht⟩

/-! ## Creation -/

/-- A created fixed-rate record has its first target one interval after its creation. -/
theorem createEvery_anchor {id prompt : String} {seconds : Number} {now : Int}
    (hvalid : (every r).Valid)
    (h : createEveryScheduleRecord id prompt seconds now = .ok r) :
    dateParse r.scheduledAt = some (now + r.interval) := by
  simp only [createEveryScheduleRecord, bind_eq_ok_iff] at h
  obtain ⟨prompt', -, n, -, n', hn', text, htext, hr⟩ := h
  cases hr
  have hproduct : fmul n' 1000 = n' * 1000 := fmul_of_isSafe hvalid.interval.1
  show dateParse text = some (now + n' * 1000)
  rw [hproduct] at htext
  unfold futureInstant at htext
  split at htext
  · cases htext
  · next hrange =>
    simp only [not_or, not_not, not_lt] at hrange
    obtain ⟨-, hsafe, hlow, hhigh⟩ := hrange
    have hsum : fadd now (n' * 1000) = now + n' * 1000 := fadd_of_isSafe ((isSafe_fadd_iff _ _).mp hsafe)
    split at htext
    · cases htext
    · split at htext
      · cases htext
      · rw [← Except.ok.inj htext, dateParse_toISOString ⟨hlow, hhigh⟩, hsum]

/-! ## The theorem -/

/-- One dispatch of `r` after `front`, with `c` the record created: anchor, target and accepted occurrence. -/
structure FixedRateStep (seedLength : Nat) (front : List SessionEvent) (e : SessionEvent)
    (r : EveryScheduleRecord) (accepted : Int) (o : EveryOccurrence) (c : EveryScheduleRecord)
    (anchor target occurrence : Int) : Prop where
  created : Creates seedLength front (.every c)
  rule : r = { c with scheduledAt := r.scheduledAt }
  anchorText : dateParse c.scheduledAt = some anchor
  targetText : dateParse r.scheduledAt = some target
  occurrenceText : dateParse o.occurrenceAt = some occurrence
  aligned : target ≡ anchor [ZMOD c.interval] ∧ occurrence ≡ anchor [ZMOD c.interval]
  ordered : anchor ≤ target ∧ target ≤ occurrence ∧ occurrence ≤ accepted
  latest : ∀ point, point ≡ anchor [ZMOD c.interval] → point ≤ accepted → point ≤ occurrence
  next : accepted < occurrence + c.interval ∧ match o.nextScheduledAt with
      | some text => dateParse text = some (occurrence + c.interval)
      | none => maxFourDigitYearMs < occurrence + c.interval
  after : ∃ s, foldSuffix (front ++ [e]) seedLength = .ok s ∧ s.active.lookup r.id
      = o.nextScheduledAt.map fun text => .every { r with scheduledAt := text }
  /-- Every number in the decision is an exact safe integer, and every instant in range. -/
  exact : InRange anchor ∧ InRange target ∧ InRange occurrence ∧ InRange accepted
    ∧ IsSafe c.interval ∧ 0 < c.interval ∧ fmul c.everySeconds 1000 = c.interval
    ∧ IsSafe (accepted - target) ∧ ⌊fdiv (fsub accepted target) c.interval⌋ = (accepted - target) / c.interval
    ∧ IsSafe ((accepted - target) / c.interval * c.interval)
    ∧ fadd target (fmul ⌊fdiv (fsub accepted target) c.interval⌋ c.interval) = occurrence
  /-- The anchor is aligned with the clock of the creation. -/
  creation : ∀ prompt now, createEveryScheduleRecord c.id prompt (.int c.everySeconds) now = .ok c →
    occurrence ≡ now [ZMOD c.interval]

theorem decision_exact {interval : Int} (hpos : 0 < interval) (hrange : InRange target)
    (haccepted : InRange accepted) (hdue : target ≤ accepted) :
    IsSafe (accepted - target) ∧ ⌊fdiv (fsub accepted target) interval⌋ = (accepted - target) / interval
      ∧ IsSafe ((accepted - target) / interval * interval)
      ∧ fadd target (fmul ⌊fdiv (fsub accepted target) interval⌋ interval) = latestDue target interval accepted := by
  have hbelow : latestDue target interval accepted ≤ accepted := latestDue_le hpos
  have habove : target ≤ latestDue target interval accepted := le_latestDue hpos hdue
  have hin := inRange_latestDue hpos hrange haccepted hdue
  have hsafe := hin.isSafe
  simp only [InRange, minFourDigitYearMs, maxFourDigitYearMs] at hrange haccepted
  have hgap : IsSafe (accepted - target) := by
    simp only [IsSafe]
    omega
  have hsteps : ⌊fdiv (fsub accepted target) interval⌋ = (accepted - target) / interval := by
    rw [fsub_of_isSafe hgap]
    exact floor_fdiv (by omega) hpos (by omega)
  have hproduct : IsSafe ((accepted - target) / interval * interval) := by
    rw [latestDue] at hbelow habove
    simp only [IsSafe]
    omega
  refine ⟨hgap, hsteps, hproduct, ?_⟩
  rw [hsteps, fmul_of_isSafe hproduct]
  exact fadd_of_isSafe (by rw [latestDue] at hsafe; exact hsafe)

theorem Dispatches.fixedRateStep (h : Dispatches seedLength front e r accepted o) : ∃ c anchor target occurrence,
      FixedRateStep seedLength front e r accepted o c anchor target occurrence := by
  obtain ⟨s, hs, hactive⟩ := h.active
  have hanchored := anchored_of_fold h.own hs
  obtain ⟨c, target, hcreates, ⟨anchor, hanchor, htext, hle, hrange, hdvd⟩, hrecord, -⟩ :=
    hanchored.anchored r.id r hactive
  have hvalid := hanchored.inv.valid r.id _ hactive
  have htarget : r.scheduledAt = toISOString target := by rw [hrecord]
  have hinterval : r.interval = c.interval := by rw [hrecord]; rfl
  obtain ⟨haccepted, hdue, hoccurrence, hnext⟩ := h.occurrence hvalid hrange htarget
  obtain ⟨hsafe, hleast⟩ := hvalid.interval
  rw [hinterval] at hoccurrence hnext hsafe hleast
  have hpos : 0 < c.interval := by omega
  have hin := inRange_latestDue hpos hrange haccepted hdue
  have hlatestTarget : c.interval ∣ latestDue target c.interval accepted - target := dvd_latestDue_sub
  have hlatestAnchor : c.interval ∣ latestDue target c.interval accepted - anchor := by
    have := Int.dvd_add hlatestTarget hdvd
    rwa [show latestDue target c.interval accepted - target + (target - anchor)
      = latestDue target c.interval accepted - anchor by omega] at this
  obtain ⟨hgap, hsteps, hproduct, hsum⟩ := decision_exact hpos hrange haccepted hdue
  have hvalidC : (every c).Valid := by
    obtain ⟨_, _, _, hcreate⟩ := hcreates
    exact decodeScheduleChange_valid hcreate
  refine ⟨c, anchor, target, latestDue target c.interval accepted, ?_⟩
  refine {
    created := hcreates
    rule := by rw [htarget]; exact hrecord
    anchorText := by rw [htext, dateParse_toISOString hanchor]
    targetText := by rw [htarget, dateParse_toISOString hrange]
    occurrenceText := hoccurrence
    aligned := ⟨(Int.modEq_iff_dvd.mpr hdvd).symm, (Int.modEq_iff_dvd.mpr hlatestAnchor).symm⟩
    ordered := ⟨hle, le_latestDue hpos hdue, latestDue_le hpos⟩
    latest := ?_
    next := ⟨lt_latestDue_add hpos, ?_⟩
    after := ?_
    exact := ⟨hanchor, hrange, hin, haccepted, hsafe, hpos, fmul_of_isSafe hvalidC.interval.1, hgap,
      hsteps, hproduct, hsum⟩
    creation := ?_ }
  · intro point hpoint hbefore
    refine le_latestDue_of_dvd hpos ?_ hbefore
    have hpoint' := Int.modEq_iff_dvd.mp hpoint.symm
    have := Int.dvd_sub hpoint' hdvd
    rwa [show point - anchor - (target - anchor) = point - target by omega] at this
  · rw [hnext]
    split
    · next text hsome =>
      split at hsome
      · cases hsome
      · next hend =>
        cases hsome
        exact dateParse_toISOString ⟨by have := hin.1; omega, not_lt.mp hend⟩
    · next hnone =>
      split at hnone
      · next hend => exact hend
      · cases hnone
  · obtain ⟨htype, text, hdata, hparse⟩ := h.change
    have hdispatched : dispatchedRecord (.every r) (some text)
        = .ok (r.after (latestDue target r.interval accepted)) :=
      (dispatchedRecord_every_iff hvalid hrange htarget).mpr
        ⟨text, accepted, rfl, hparse, haccepted, hdue, rfl⟩
    have hmap : r.after (latestDue target r.interval accepted)
        = o.nextScheduledAt.map fun text => .every { r with scheduledAt := text } := by
      rw [r.after_eq_map, hnext, hinterval]
    have hfold : foldEvent s e = foldChange s (.dispatch r.id (some text)) := by
      rw [foldEvent, if_neg (not_not.mpr htype), hdata]
      rfl
    rw [foldSuffix_snoc h.own, hs, ok_bind, hfold, foldChange, hactive]
    dsimp only
    rw [hdispatched, ok_bind, hmap]
    cases o.nextScheduledAt with
    | none => exact ⟨_, rfl, by rw [lookup_erase, if_pos rfl]; rfl⟩
    | some text => exact ⟨_, rfl, by rw [lookup_set, if_pos rfl]; rfl⟩
  · intro prompt now hcreate
    have hstart := createEvery_anchor hvalidC hcreate
    rw [htext, dateParse_toISOString hanchor] at hstart
    have hfirst := Option.some.inj hstart
    refine (Int.modEq_iff_dvd.mpr ?_).symm
    have := Int.dvd_add hlatestAnchor (Int.dvd_refl c.interval)
    rwa [show latestDue target c.interval accepted - anchor + c.interval
      = latestDue target c.interval accepted - now by omega] at this

theorem Dispatches.lt {front' : List SessionEvent} {e' : SessionEvent} {r' : EveryScheduleRecord}
    {accepted' : Int} {o' : EveryOccurrence} (h : Dispatches seedLength front e r accepted o)
    (h' : Dispatches seedLength front' e' r' accepted' o') (hearlier : front ++ [e] <+: front')
    (hid : r.id = r'.id) {t t' : Int} (ht : dateParse o.occurrenceAt = some t)
    (ht' : dateParse o'.occurrenceAt = some t') : t < t' := by
  obtain ⟨s, hs, hactive⟩ := h'.active
  have hanchored := anchored_of_fold h'.own hs
  obtain ⟨c, target, -, ⟨-, -, -, -, hrange, -⟩, hrecord, hahead⟩ := hanchored.anchored r'.id r' hactive
  have htarget : r'.scheduledAt = toISOString target := by rw [hrecord]
  have hvalid := hanchored.inv.valid r'.id _ hactive
  have hbefore := hahead front e r accepted o t hearlier h hid ht
  obtain ⟨-, hdue, hoccurrence, -⟩ := h'.occurrence hvalid hrange htarget
  have hpos : 0 < r'.interval := by have := hvalid.interval; omega
  rw [hoccurrence] at ht'
  cases ht'
  exact hbefore.trans_le (le_latestDue hpos hdue)

variable {folded : FoldedSchedules}

theorem claimDue_error {inbox : Inbox} {claim : Claim}
    (hfold : foldScheduleEvents (eventsOf inbox.session.log) seedLength = .ok folded)
    {error : ScheduleLogError} (h : dueDecision folded claim.now.ms = .error error) :
    claimDue seedLength inbox claim = (inbox, .nothing) := by
  unfold claimDue
  split
  · rfl
  · rw [hfold]
    dsimp only
    rw [h]

/-- **Fixed-rate schedules never drift or repeat.**  At every point of a log that folds: each dispatch of an active
fixed-rate record is a step on the grid of its creation; of two dispatches of one id the later accepts a later
occurrence; what is still scheduled lies on its grid, after everything dispatched; and a dispatch outside the range or
before the target is refused, by the fold and by the runtime before it writes. -/
theorem fixed_rate_never_drifts (hfold : foldScheduleEvents log seedLength = .ok folded) :
    (∀ front e s r acceptedAt, front ++ [e] <+: log → seedLength ≤ front.length →
      foldSuffix front seedLength = .ok s → s.active.lookup r.id = some (.every r) →
      e.type = scheduleChange → decodeScheduleChange e.data = .ok (.dispatch r.id acceptedAt) →
      ∃ accepted o c anchor target occurrence, Dispatches seedLength front e r accepted o
        ∧ FixedRateStep seedLength front e r accepted o c anchor target occurrence)
    ∧ (∀ front e r accepted o front' e' r' accepted' o' t t', front ++ [e] <+: log →
      front' ++ [e'] <+: log → front.length < front'.length →
      Dispatches seedLength front e r accepted o → Dispatches seedLength front' e' r' accepted' o' →
      r.id = r'.id → dateParse o.occurrenceAt = some t → dateParse o'.occurrenceAt = some t' → t < t')
    ∧ (∀ r, .every r ∈ folded.active → ∃ c anchor target, Creates seedLength log (.every c)
      ∧ r = { c with scheduledAt := r.scheduledAt }
      ∧ dateParse c.scheduledAt = some anchor ∧ dateParse r.scheduledAt = some target
      ∧ target ≡ anchor [ZMOD c.interval] ∧ anchor ≤ target ∧ InRange target
      ∧ (∀ front e r' accepted o t, front ++ [e] <+: log → Dispatches seedLength front e r' accepted o → r'.id = r.id →
        dateParse o.occurrenceAt = some t → t < target)
      ∧ ∀ accepted, ((∃ o, resolveEveryOccurrence r accepted = .ok o) ↔ InRange accepted ∧ target ≤ accepted)
        ∧ (¬ (InRange accepted ∧ target ≤ accepted) → ∀ e text, e.type = scheduleChange →
          decodeScheduleChange e.data = .ok (.dispatch r.id (some text)) →
          dateParse text = some accepted →
          ∃ error, foldScheduleEvents (log ++ [e]) seedLength = .error error))
    ∧ ∀ inbox claim error, eventsOf inbox.session.log = log → dueDecision folded claim.now.ms = .error error →
      claimDue seedLength inbox claim = (inbox, .nothing) := by
  obtain ⟨⟨hsafe, -, hlength⟩, s, hs, rfl⟩ := foldScheduleEvents_ok_iff.mp hfold
  rw [Int.toNat_natCast] at hs
  have hseed : seedLength ≤ log.length := by omega
  refine ⟨?_, ?_, ?_, ?_⟩
  · intro front e t r acceptedAt hpre hown ht hactive htype hdata
    -- the fold of the log passes through the event
    obtain ⟨back, rfl⟩ := hpre
    obtain ⟨t', ht'⟩ := fold_of_prefix (by rw [List.length_append]; omega) hs
    rw [foldSuffix_snoc hown, ht, ok_bind, foldEvent, if_neg (not_not.mpr htype), hdata, ok_bind] at ht'
    have hanchored := anchored_of_fold hown ht
    have hvalid := hanchored.inv.valid r.id _ hactive
    obtain ⟨target, hrange, htarget⟩ := hvalid.target
    rcases foldChange_ok ht' with ⟨_, hbad, -⟩ | ⟨_, _, hbad, -⟩
      | ⟨id, text?, record, next, hchange, hactive', hnext, -⟩
    · cases hbad
    · cases hbad
    · obtain ⟨rfl, rfl⟩ := ScheduleChange.dispatch.inj hchange
      rw [hactive] at hactive'
      cases hactive'
      obtain ⟨text, accepted, rfl, hparse, haccepted, hdue, -⟩ :=
        (dispatchedRecord_every_iff hvalid hrange htarget).mp hnext
      have hd : Dispatches seedLength front e r accepted ⟨_, _⟩ :=
        ⟨hown, ⟨t, ht, hactive⟩, ⟨htype, text, hdata, hparse⟩,
          (resolveEveryOccurrence_ok_iff hvalid hrange htarget).mpr ⟨haccepted, hdue, rfl, rfl⟩⟩
      obtain ⟨c, anchor, target', occurrence, hstep⟩ := hd.fixedRateStep
      exact ⟨accepted, _, c, anchor, target', occurrence, hd, hstep⟩
  · intro front e r accepted o front' e' r' accepted' o' t t' hpre hpre' hlt hd hd' hid ht ht'
    have hearlier : front ++ [e] <+: front' :=
      List.prefix_of_prefix_length_le hpre ((List.prefix_append _ _).trans hpre')
        (by rw [List.length_append, List.length_singleton]; omega)
    exact hd.lt hd' hearlier hid ht ht'
  · intro r hr
    obtain ⟨⟨id, record⟩, hentry, hrecord⟩ := List.mem_map.mp hr
    obtain rfl : record = .every r := hrecord
    have hactive : s.active.lookup id = some (.every r) := InsertionMap.lookup_eq_some_iff.mpr hentry
    have hanchored := anchored_of_fold hseed hs
    have hid : r.id = id := hanchored.inv.named id _ hactive
    obtain ⟨c, target, hcreates, ⟨anchor, hanchor, htext, hle, hrange, hdvd⟩, hrule, hahead⟩ :=
      hanchored.anchored id r hactive
    have hvalid := hanchored.inv.valid id _ hactive
    have htarget : r.scheduledAt = toISOString target := by rw [hrule]
    have hresolve : ∀ accepted, (∃ o, resolveEveryOccurrence r accepted = .ok o)
        ↔ InRange accepted ∧ target ≤ accepted := by
      intro accepted
      constructor
      · rintro ⟨o, ho⟩
        obtain ⟨haccepted, hdue, -⟩ := (resolveEveryOccurrence_ok_iff hvalid hrange htarget).mp ho
        exact ⟨haccepted, hdue⟩
      · rintro ⟨haccepted, hdue⟩
        exact ⟨⟨_, _⟩, (resolveEveryOccurrence_ok_iff hvalid hrange htarget).mpr ⟨haccepted, hdue, rfl, rfl⟩⟩
    refine ⟨c, anchor, target, hcreates, by rw [htarget]; exact hrule,
      by rw [htext, dateParse_toISOString hanchor], by rw [htarget, dateParse_toISOString hrange],
      (Int.modEq_iff_dvd.mpr hdvd).symm, hle, hrange, ?_, fun accepted => ⟨hresolve accepted, ?_⟩⟩
    · intro front e r' accepted o t hpre hd hid' ht
      exact hahead front e r' accepted o t hpre hd (hid'.trans hid) ht
    · intro hrefused e text htype hdata hparse
      cases hextended : foldScheduleEvents (log ++ [e]) seedLength with
      | error error => exact ⟨error, rfl⟩
      | ok extended =>
        exfalso
        obtain ⟨-, t, ht, -⟩ := foldScheduleEvents_ok_iff.mp hextended
        rw [Int.toNat_natCast, foldSuffix_snoc hseed, hs, ok_bind, foldEvent,
          if_neg (not_not.mpr htype), hdata, ok_bind, foldChange, hid, hactive] at ht
        obtain ⟨next, hnext, -⟩ := bind_eq_ok_iff.mp ht
        obtain ⟨text', accepted', htext', hparse', haccepted, hdue, -⟩ :=
          (dispatchedRecord_every_iff hvalid hrange htarget).mp hnext
        cases htext'
        cases hparse.symm.trans hparse'
        exact hrefused ⟨haccepted, hdue⟩
  · intro inbox claim error hlog hdecision
    exact claimDue_error (by rw [hlog, hfold]) hdecision

def changeEvent (seq time : Int) (change : ScheduleChange) : SessionEvent :=
  { type := scheduleChange, seq, time, data := change.toJson }

def everyFiveMinutes : EveryScheduleRecord :=
  { id := "schedule-1", prompt := "drink water", everySeconds := 300
    scheduledAt := "2024-03-01T12:05:00.000Z" }

/-- It is dispatched seven seconds late, and again after two hours of sleep. -/
def sleepyLog : List SessionEvent :=
  [changeEvent 0 1709294400000 (.create (.every everyFiveMinutes)),
    changeEvent 1 1709294707000 (.dispatch "schedule-1" (some "2024-03-01T12:05:07.000Z")),
    changeEvent 2 1709302021000 (.dispatch "schedule-1" (some "2024-03-01T14:07:01.000Z"))]

def afterSleep : EveryScheduleRecord := { everyFiveMinutes with scheduledAt := "2024-03-01T14:10:00.000Z" }

theorem fixed_rate_never_drifts_asleep :
    foldScheduleEvents sleepyLog 0 = .ok { active := [.every afterSleep], seenIds := ["schedule-1"] }
      ∧ ∃ c anchor target, Creates 0 sleepyLog (.every c) ∧ dateParse c.scheduledAt = some anchor
        ∧ dateParse afterSleep.scheduledAt = some target ∧ target ≡ anchor [ZMOD c.interval] := by
  have hfold : foldScheduleEvents sleepyLog (0 : Nat)
      = .ok { active := [.every afterSleep], seenIds := ["schedule-1"] } := by decide +kernel
  obtain ⟨c, anchor, target, hcreates, -, hanchor, htarget, haligned, -⟩ :=
    (fixed_rate_never_drifts hfold).2.2.1 afterSleep (List.mem_singleton.mpr rfl)
  exact ⟨hfold, c, anchor, target, hcreates, hanchor, htarget, haligned⟩

end CocoHarness.Schedule
