/-
# CocoHarness.TokenMeter.Coverage — a measurement is never below the heuristic price.

What the meter keeps for a session is determined by the events it has consumed (`Replayed`), whatever the order in
which events were appended and measurements taken.  The anchor is the one of the newest assistant message, and it is at
least the heuristic price of its own envelope and surface; so is then everything that is measured from it.
-/
import CocoHarness.TokenMeter.Measure
import CocoHarness.TokenMeter.Totals

namespace CocoHarness.TokenMeter

open Lib SessionLog Compaction List Option MeasuredSession JsonText

/-! ## Envelopes -/

variable {xs ys : List Json}

theorem elementsText_congr (h : xs.map text = ys.map text) :
    elementsText xs = elementsText ys := by
  induction xs generalizing ys with
  | nil =>
    cases ys with
    | nil => rfl
    | cons y ys => cases h
  | cons x xs ih =>
    cases ys with
    | nil => cases h
    | cons y ys =>
      obtain ⟨hhead, htail⟩ := List.cons.inj h
      rw [elementsText, elementsText, hhead, ih htail]

theorem stringify_arr_congr (h : xs.map stringify = ys.map stringify) : stringify (.arr xs) = stringify (.arr ys) := by
  have htexts : xs.map text = ys.map text := by
    have := congrArg (List.map String.toList) h
    simpa [stringify, Function.comp_def] using this
  cases xs with
  | nil =>
    cases ys with
    | nil => rfl
    | cons y ys => cases htexts
  | cons x xs =>
    cases ys with
    | nil => cases htexts
    | cons y ys =>
      obtain ⟨hhead, htail⟩ := List.cons.inj htexts
      rw [stringify, stringify, text, text, hhead, elementsText_congr htail]

theorem estimateToolsTokens_eq (header : EpochHeader) : estimateToolsTokens header
      = if header.tools.getD [] = [] then 0 else textTokens (stringify (.arr (header.tools.getD []))) + blockOverhead := by
  unfold estimateToolsTokens
  split
  · next h => simp [h]
  · next h => simp [h]
  · next tools hne h => rw [h, getD_some, if_neg hne]

theorem estimateHeader_congr {left right : Option RequestHeader} (h : optionalHeaderEquals left right = true) :
    estimateHeader left = estimateHeader right := by
  match left, right with
  | none, none => rfl
  | some left, some right =>
    simp only [optionalHeaderEquals, headerEquals, Bool.and_eq_true, decide_eq_true_eq] at h
    obtain ⟨⟨-, hsystem⟩, htools⟩ := h
    have hprice : estimateToolsTokens left.toEpochHeader = estimateToolsTokens right.toEpochHeader := by
      rw [estimateToolsTokens_eq, estimateToolsTokens_eq, stringify_arr_congr htools]
      have hempty : (left.tools.getD []) = [] ↔ (right.tools.getD []) = [] := by
        rw [← map_eq_nil_iff (f := stringify), htools, map_eq_nil_iff]
      simp only [hempty]
    simp only [estimateHeader, hprice, estimateSystemTokens, hsystem]

/-! ## The surface -/

/-- The fold of a surface event is that of the priced surface, with `deltaTokens`. -/
theorem foldSurface_spec {nodes : List TokenSurfaceNode} {event : SessionEvent} {fold : SurfaceTokenFold}
    (h : foldSurface nodes event = .ok fold) :
    foldSurfaceTokens estimateMessage nodes event = .ok fold.nodes ∧ priceEvent estimateMessage event = .ok fold.tokens ∧
      (totalTokens fold.nodes : Int) = totalTokens nodes + fold.deltaTokens := by
  unfold foldSurface at h
  rw [bind_eq_ok_iff] at h
  obtain ⟨tokens, hprice, h⟩ := h
  rw [bind_eq_ok_iff] at h
  obtain ⟨op, hop, h⟩ := h
  unfold foldSurfaceTokens
  rw [hprice, ok_bind, hop, ok_bind]
  split at h
  · next start stop =>
    split at h
    · next startIdx endIdx hstart hstop =>
      split at h
      · cases h
      · next hordered =>
        cases h
        refine ⟨by simp only [hstart, hstop, if_neg hordered]; rfl, rfl, ?_⟩
        -- the range goes out of the total, and the replacement comes in
        have hsplit := totalTokens_range nodes (Nat.not_lt.mp hordered)
        rw [totalTokens_append, totalTokens_cons]
        show ((_ + (tokens + _) : Nat) : Int) = _ + ((tokens : Int) - (totalTokens _ : Nat))
        omega
    · cases h
  · next hplain =>
    cases h
    refine ⟨?_, rfl, ?_⟩
    · match op, hplain with
      | none, _ => rfl
      | some .append, _ => rfl
      | some (.replace start stop), hplain => exact (hplain start stop rfl).elim
    · rw [totalTokens_append]
      show ((_ + (tokens + 0) : Nat) : Int) = _ + (tokens : Int)
      omega

/-! ## What the replay knows -/

variable (events : List ReplayedEvent)

def logOf : List SessionEvent := events.map (·.event)

def foldRequestHeader : Option RequestHeader :=
  events.foldl (fun header e => match e.replay with
    | .header header => some header.canonical
    | _ => header) none

theorem foldRequestHeader_snoc (e : ReplayedEvent) : foldRequestHeader (events ++ [e]) = match e.replay with
      | .header header => some header.canonical
      | _ => foldRequestHeader events := by
  rw [foldRequestHeader, foldl_append]
  rfl

def ReplayedEvent.isStep (e : ReplayedEvent) : Bool :=
  match e.replay with
  | .stepStart _ _ | .stepEnd _ _ => true
  | _ => false

def ReplayedEvent.isAssistant (e : ReplayedEvent) : Bool :=
  match e.replay with
  | .assistant _ _ _ _ => true
  | _ => false

/-- The step that is open, and the price of the surface when it began. -/
def Opened (start : StepStart) : Prop :=
  ∃ before e after nodes, events = before ++ e :: after ∧ e.replay = .stepStart start.turn start.step ∧
    (∀ x ∈ after, x.isStep = false) ∧ measuredNodes estimateMessage (logOf before) = .ok nodes ∧
    start.surfaceTokens = totalTokens nodes

/-- The anchor covers the surface at the start of the newest step, and what was sent since. -/
def Anchored (anchor : MeasurementAnchor) : Prop :=
  ∃ before e after start usage sources tokens, events = before ++ e :: after ∧
    e.replay = .assistant start.turn start.step usage sources ∧ (∀ x ∈ after, x.isAssistant = false) ∧
    Opened before start ∧ priceEvent estimateMessage e.event = .ok tokens ∧
    nextAnchor before (foldRequestHeader before) start e.event.seq start.turn start.step usage sources tokens = .ok anchor

structure Replayed (events : List ReplayedEvent) (state : ReplayState) : Prop where
  nodes : measuredNodes estimateMessage (logOf events) = .ok state.surface
  surfaceTokens : state.surfaceTokens = totalTokens state.surface
  header : state.header = foldRequestHeader events
  stepStart : ∀ start, state.stepStart = some start → Opened events start
  anchor : ∀ anchor, state.anchor = some anchor → Anchored events anchor

theorem replayed_initial : Replayed [] {} where
  nodes := rfl
  surfaceTokens := rfl
  header := rfl
  stepStart _ hstart := by cases hstart
  anchor _ hanchor := by cases hanchor

/-! ## One event -/

variable {events before : List ReplayedEvent} {state state' : ReplayState} {e : ReplayedEvent} {start : StepStart}

theorem Opened.snoc (h : Opened events start) (hplain : e.isStep = false) : Opened (events ++ [e]) start := by
  obtain ⟨before, opening, after, nodes, rfl, hopens, hafter, hnodes, htokens⟩ := h
  refine ⟨before, opening, after ++ [e], nodes, by simp, hopens, ?_, hnodes, htokens⟩
  simpa [or_imp, forall_and, hplain] using hafter

variable {anchor : MeasurementAnchor}

theorem Anchored.snoc (h : Anchored events anchor) (hplain : e.isAssistant = false) :
    Anchored (events ++ [e]) anchor := by
  obtain ⟨before, message, after, start, usage, sources, tokens, rfl, hmessage, hafter, hrest⟩ := h
  refine ⟨before, message, after ++ [e], start, usage, sources, tokens, by simp, hmessage, ?_, hrest⟩
  simpa [or_imp, forall_and, hplain] using hafter

variable {after : List ReplayedEvent} {seq turn : Int}

theorem pushSources_earlier {step : Int}
    (hseq : seq = before.length) (sources seen : List Int) (assembler : BlockAssembler) :
    pushSources (before ++ after) seq turn step sources seen assembler
      = pushSources before seq turn step sources seen assembler := by
  induction sources generalizing seen assembler with
  | nil => rfl
  | cons source sources ih =>
    rw [pushSources, pushSources]
    split
    · rfl
    · next hearlier =>
      split
      · rfl
      · have hread : (if 0 ≤ source then (before ++ after)[source.toNat]? else none)
            = if 0 ≤ source then before[source.toNat]? else none := by
          split
          · next hpositive =>
            rw [getElem?_append_left]
            omega
          · rfl
        simp only [hread, ih]

variable {header : Option RequestHeader}

theorem nextAnchor_earlier {step : Int} {usage : Option ReportedUsage} {sources : Option (List Int)} {tokens : Nat}
    (hseq : seq = before.length) :
    nextAnchor (before ++ after) header start seq turn step usage sources tokens
      = nextAnchor before header start seq turn step usage sources tokens := by
  unfold nextAnchor estimateProviderAssistant
  simp only [pushSources_earlier hseq]

theorem Replayed.foldStep (h : Replayed events state) {stepStart : Option StepStart}
    (hstep : foldStep state e = .ok (header, stepStart)) :
    header = foldRequestHeader (events ++ [e]) ∧ ∀ start, stepStart = some start → Opened (events ++ [e]) start := by
  rw [foldRequestHeader_snoc]
  unfold TokenMeter.foldStep at hstep
  split at hstep
  · next hreplay =>
    cases hstep
    refine ⟨by rw [hreplay], fun start hstart => (h.stepStart start hstart).snoc ?_⟩
    simp [ReplayedEvent.isStep, hreplay]
  · next turn step hreplay =>
    split at hstep
    · cases hstep
    · cases hstep
      refine ⟨by rw [hreplay]; exact h.header, ?_⟩
      rintro start ⟨⟩
      exact ⟨events, e, [], state.surface, rfl, hreplay, forall_mem_nil _, h.nodes, h.surfaceTokens⟩
  · next turn step hreplay =>
    split at hstep
    · cases hstep
      exact ⟨by rw [hreplay]; exact h.header, nofun⟩
    · cases hstep
  · next hheader hstart hend =>
    cases hstep
    refine ⟨?_, fun start hopen => (h.stepStart start hopen).snoc ?_⟩
    · rw [h.header]
      split
      · next header hreplay => exact (hheader header hreplay).elim
      · rfl
    · unfold ReplayedEvent.isStep
      split
      · next turn step hreplay => exact (hstart turn step hreplay).elim
      · next turn step hreplay => exact (hend turn step hreplay).elim
      · rfl

theorem Replayed.foldAnchor (h : Replayed before state) {surface : Option SurfaceTokenFold}
    {anchor : Option MeasurementAnchor} (hseq : e.event.seq = before.length)
    (hheader : header = foldRequestHeader (before ++ [e]))
    (hsurface : ∀ fold, surface = some fold → priceEvent estimateMessage e.event = .ok fold.tokens)
    (hanchor : foldAnchor (before ++ e :: after) state header e surface = .ok anchor) :
    ∀ a, anchor = some a → Anchored (before ++ [e]) a := by
  unfold TokenMeter.foldAnchor at hanchor
  split at hanchor
  · next turn step usage sources hreplay =>
    split at hanchor
    · next start hstart =>
      split at hanchor
      · next hsame =>
        obtain ⟨rfl, rfl⟩ := hsame
        split at hanchor
        · next fold =>
          rw [nextAnchor_earlier hseq] at hanchor
          rw [hheader, foldRequestHeader_snoc, hreplay] at hanchor
          rintro a rfl
          obtain ⟨a', ha, hsome⟩ := except_map_ok hanchor
          cases hsome
          exact ⟨before, e, [], start, usage, sources, fold.tokens, rfl, hreplay, forall_mem_nil _,
            h.stepStart start hstart, hsurface fold rfl, ha⟩
        · cases hanchor
      · cases hanchor
    · cases hanchor
  · next hplain =>
    cases hanchor
    intro a ha
    apply (h.anchor a ha).snoc
    unfold ReplayedEvent.isAssistant
    split
    · next turn step usage sources hreplay => exact (hplain turn step usage sources hreplay).elim
    · rfl

/-- **One event.**  What the meter knows of the events consumed it knows of one more. -/
theorem Replayed.foldEvent (h : Replayed before state) (hseq : e.event.seq = before.length)
    (hfold : foldEvent (before ++ e :: after) state e = .ok state') (consumedEvents : Nat) :
    Replayed (before ++ [e]) { state' with consumedEvents } := by
  unfold TokenMeter.foldEvent at hfold
  rw [bind_eq_ok_iff] at hfold
  obtain ⟨⟨header, stepStart⟩, hstep, hfold⟩ := hfold
  rw [bind_eq_ok_iff] at hfold
  obtain ⟨surface, hsurface, hfold⟩ := hfold
  rw [bind_eq_ok_iff] at hfold
  obtain ⟨anchor, hanchor, hfold⟩ := hfold
  cases hfold
  obtain ⟨hheader, hopened⟩ := h.foldStep hstep
  have hlog : logOf (before ++ [e]) = logOf before ++ [e.event] := map_append
  unfold foldPlacement at hsurface
  split at hsurface
  · next heligible =>
    obtain ⟨fold, hplaced, rfl⟩ := except_map_ok hsurface
    obtain ⟨hnodes, hprice, htotal⟩ := foldSurface_spec hplaced
    refine ⟨?_, ?_, hheader, hopened, h.foldAnchor hseq hheader ?_ hanchor⟩
    · rw [hlog, measuredNodes_snoc, h.nodes, ok_bind, if_pos heligible, hnodes]
      rfl
    · show state.surfaceTokens + fold.deltaTokens = totalTokens fold.nodes
      rw [htotal, h.surfaceTokens]
    · rintro _ ⟨⟩
      exact hprice
  · next heligible =>
    cases hsurface
    refine ⟨?_, ?_, hheader, hopened, h.foldAnchor hseq hheader (fun _ hnone => by cases hnone) hanchor⟩
    · rw [hlog, measuredNodes_snoc, h.nodes, ok_bind, if_neg heligible]
      rfl
    · show state.surfaceTokens + 0 = totalTokens state.surface
      rw [Int.add_zero, h.surfaceTokens]

/-! ## Catching up -/

theorem syncFrom_replayed {rest : List ReplayedEvent} (h : Replayed before state)
    (hconsumed : state.consumedEvents = before.length)
    (hseqs : ∀ (k : Nat) (e : ReplayedEvent), (before ++ rest)[k]? = some e → e.event.seq = k) :
    ∃ more later, rest = more ++ later ∧ Replayed (before ++ more) (syncFrom (before ++ rest) rest state).1 ∧
      (syncFrom (before ++ rest) rest state).1.consumedEvents = (before ++ more).length ∧
      ((syncFrom (before ++ rest) rest state).2 = .ok () → later = []) := by
  induction rest generalizing before state with
  | nil => exact ⟨[], [], rfl, by simpa [syncFrom] using h, by simpa [syncFrom] using hconsumed, fun _ => rfl⟩
  | cons e rest ih =>
    rw [syncFrom]
    split
    · next error hfold => exact ⟨[], e :: rest, rfl, by simpa using h, by simpa using hconsumed, nofun⟩
    · next next hfold =>
      have hseq : e.event.seq = before.length := hseqs before.length e (by simp)
      have hassoc : before ++ e :: rest = (before ++ [e]) ++ rest := by simp
      have hnext := h.foldEvent hseq hfold (state.consumedEvents + 1)
      obtain ⟨more, later, hrest, hreplayed, hcount, hdone⟩ :=
        ih hnext (by simp [hconsumed]) (by rw [← hassoc]; exact hseqs)
      rw [hassoc]
      exact ⟨e :: more, later, by rw [hrest]; rfl, by simpa using hreplayed, by simpa using hcount, hdone⟩

namespace MeasuredSession

variable {m m' : MeasuredSession}

/-- The log is numbered, and the state of the meter is that of the events it has consumed. -/
structure Inv (m : MeasuredSession) : Prop where
  seqs : ∀ (k : Nat) (e : ReplayedEvent), m.events[k]? = some e → e.event.seq = k
  state : ∀ state, m.state = some state → ∃ before after, m.events = before ++ after ∧ Replayed before state ∧
    state.consumedEvents = before.length

theorem Inv.sync (h : Inv m) : Inv m.sync.1 ∧ m.sync.1.events = m.events ∧
    ∀ state, m.sync.2 = .ok state → Replayed m.events state ∧ state.consumedEvents = m.events.length := by
  obtain ⟨before, after, hevents, hreplayed, hconsumed⟩ : ∃ before after, m.events = before ++ after ∧
      Replayed before (m.state.getD {}) ∧ (m.state.getD {}).consumedEvents = before.length := by
    cases hstate : m.state with
    | none => exact ⟨[], m.events, rfl, replayed_initial, rfl⟩
    | some state => exact h.state state hstate
  have hrest : m.events.drop (m.state.getD {}).consumedEvents = after := by rw [hconsumed, hevents, drop_left]
  obtain ⟨more, later, hafter, hmore, hcount, hdone⟩ :=
    syncFrom_replayed hreplayed hconsumed (by rw [← hevents]; exact h.seqs)
  rw [← hevents] at hmore hcount hdone
  simp only [MeasuredSession.sync, hrest]
  refine ⟨⟨h.seqs, ?_⟩, trivial, ?_⟩
  · rintro _ ⟨⟩
    exact ⟨before ++ more, later, by rw [hevents, hafter, append_assoc], hmore, hcount⟩
  · intro state hok
    obtain ⟨_, hunit, rfl⟩ := except_map_ok hok
    have hall : m.events = before ++ more := by rw [hevents, hafter, hdone hunit, append_nil]
    exact ⟨hall ▸ hmore, hall ▸ hcount⟩

theorem Inv.append (h : Inv m) (hnext : m.append e = some m') : Inv m' := by
  simp only [MeasuredSession.append, Option.bind_eq_bind, Option.bind_eq_some_iff, Option.guard_eq_some',
    Option.pure_def, Option.some.injEq] at hnext
  obtain ⟨-, hseq, rfl⟩ := hnext
  have happended : Inv { m with events := m.events ++ [e] } := by
    refine ⟨fun k x hx => ?_, fun state hstate => ?_⟩
    · rcases Nat.lt_or_ge k m.events.length with hlt | hge
      · rw [getElem?_append_left hlt] at hx
        exact h.seqs k x hx
      · rw [getElem?_append_right hge, getElem?_singleton] at hx
        split at hx
        · cases hx
          rw [hseq]
          omega
        · cases hx
    · obtain ⟨before, after, hevents, hreplayed⟩ := h.state state hstate
      exact ⟨before, after ++ [e], by rw [hevents, append_assoc], hreplayed⟩
  split
  · exact happended.sync.1
  · exact happended

theorem inv_initial : Inv {} where
  seqs k e he := by cases he
  state _ hstate := by cases hstate

theorem Inv.step (h : Inv m) {act : MeterAct} (hnext : m.step act = some m') : Inv m' := by
  cases act with
  | append e => exact h.append hnext
  | measure requestHeader =>
    cases hnext
    exact h.sync.1

end MeasuredSession

/-! ## What is measured -/

def effectiveHeader (events : List ReplayedEvent) (requestHeader : Option RequestHeader) : Option RequestHeader :=
  match requestHeader with
  | none => foldRequestHeader events
  | some requestHeader => some requestHeader.canonical

/-- **An anchor is at least the heuristic price** of its envelope and of the surface it covers. -/
theorem Anchored.covers (h : Anchored events anchor) :
    estimateHeader anchor.header + anchor.surfaceTokens ≤ anchor.baseline.tokens := by
  obtain ⟨before, e, after, start, usage, sources, tokens, -, -, -, -, -, hanchor⟩ := h
  unfold nextAnchor at hanchor
  split at hanchor
  · rw [bind_eq_ok_iff] at hanchor
    obtain ⟨provider, -, hanchor⟩ := hanchor
    cases hanchor
    dsimp only
    split
    · next hreported => exact hreported
    · exact Int.le_refl _
  · cases hanchor
    exact Int.le_refl _

/-- What the provider has reported for the newest assistant message, the surface at the start of its step, and the
price of what was sent. -/
structure UsageAnchor (events : List ReplayedEvent) (usage : ReportedUsage) (anchor : MeasurementAnchor) : Prop where
  newest : ∃ before e after start sources tokens header provider, events = before ++ e :: after ∧
    e.replay = .assistant start.turn start.step (some usage) sources ∧ (∀ x ∈ after, x.isAssistant = false) ∧
    Opened before start ∧ priceEvent estimateMessage e.event = .ok tokens ∧
    foldRequestHeader before = some header ∧ anchor.header = some header ∧
    estimateProviderAssistant before e.event.seq start.turn start.step sources tokens = .ok provider ∧
    anchor.surfaceTokens = start.surfaceTokens + provider
  covers : estimateHeader anchor.header + anchor.surfaceTokens ≤ usageTokens usage

theorem Anchored.usage (h : Anchored events anchor) {reported : Int}
    {usage : ReportedUsage} (hbaseline : anchor.baseline = .usage reported usage) :
    UsageAnchor events usage anchor ∧ reported = usageTokens usage := by
  have hcovers := h.covers
  obtain ⟨before, e, after, start, usage', sources, tokens, hevents, hreplay, hafter, hopened, hprice, hanchor⟩ := h
  unfold nextAnchor at hanchor
  split at hanchor
  · next usage' header hheader =>
    rw [bind_eq_ok_iff] at hanchor
    obtain ⟨provider, hprovider, hanchor⟩ := hanchor
    cases hanchor
    dsimp only at hbaseline hcovers
    split at hbaseline
    · next hreported =>
      cases hbaseline
      refine ⟨⟨⟨before, e, after, start, sources, tokens, header, provider, hevents, hreplay, hafter, hopened, hprice,
        hheader, rfl, hprovider, rfl⟩, hreported⟩, rfl⟩
    · cases hbaseline
  · cases hanchor
    cases hbaseline

/-- The baseline with what the surface adds covers envelope and surface. -/
theorem Replayed.baseline (h : Replayed events state) (header : Option RequestHeader) :
    (estimateHeader header + totalTokens state.surface : Int)
        ≤ (measuredBaseline state header).1.tokens + (measuredBaseline state header).2 ∧
      ∀ reported usage, (measuredBaseline state header).1 = .usage reported usage →
        ∃ anchor, UsageAnchor events usage anchor ∧ optionalHeaderEquals anchor.header header = true ∧
          reported = usageTokens usage ∧
          (measuredBaseline state header).2 = totalTokens state.surface - anchor.surfaceTokens := by
  have htokens := h.surfaceTokens
  unfold measuredBaseline
  split
  · next anchor hanchor =>
    obtain ⟨hstate, hequal⟩ := filter_eq_some_iff.mp hanchor
    have hanchored := h.anchor anchor hstate
    have hcovers := hanchored.covers
    rw [estimateHeader_congr hequal] at hcovers
    refine ⟨?_, fun reported usage hbaseline => ?_⟩
    · show _ ≤ anchor.baseline.tokens + (state.surfaceTokens - anchor.surfaceTokens)
      omega
    · obtain ⟨husage, hreported⟩ := hanchored.usage hbaseline
      exact ⟨anchor, husage, hequal, hreported, congrArg (· - anchor.surfaceTokens) htokens⟩
  · split
    · next hnothing =>
      refine ⟨?_, fun _ _ hbaseline => by cases hbaseline⟩
      rw [isNone_iff_eq_none.mp hnothing.1, ← htokens, hnothing.2]
      exact Int.le_refl _
    · refine ⟨?_, fun _ _ hbaseline => by cases hbaseline⟩
      show _ ≤ (estimateHeader header : Int) + state.surfaceTokens + 0
      omega

/-- **A measurement never under-reports.**  What `measure` returns is at least the heuristic price of the envelope and
of the whole current surface. A usage anchor is taken for an equal envelope, is the report of the newest assistant
message, and is at least the heuristic price of what it was reported for; what the surface has gained or lost since is
added to it. -/
theorem measure_covers {acts : List MeterAct} {m : MeasuredSession}
    (hrun : Machine.exec MeasuredSession.step {} acts = some m)
    (requestHeader : Option RequestHeader) {measurement : TokenMeasurement}
    (hmeasure : (m.measure requestHeader).2 = .ok measurement) :
    ∃ nodes, measuredNodes estimateMessage (logOf m.events) = .ok nodes ∧ measurement.nodes = nodes ∧
      measurement.surfaceTokens = totalTokens nodes ∧
      (estimateHeader (effectiveHeader m.events requestHeader) + totalTokens nodes : Int) ≤ measurement.totalTokens ∧
      ∀ reported usage, measurement.baseline = .usage reported usage → ∃ anchor, UsageAnchor m.events usage anchor ∧
        optionalHeaderEquals anchor.header (effectiveHeader m.events requestHeader) = true ∧
        reported = usageTokens usage ∧
        measurement.totalTokens = reported + (totalTokens nodes - anchor.surfaceTokens) := by
  have h : m.Inv :=
    Machine.exec_invariant (I := MeasuredSession.Inv) (fun _ _ _ _ h hnext => h.step hnext) MeasuredSession.inv_initial hrun
  obtain ⟨state, hsync, rfl⟩ := except_map_ok hmeasure
  obtain ⟨hreplayed, -⟩ := h.sync.2.2 state hsync
  have hheader : MeasuredSession.measuredHeader state requestHeader = effectiveHeader m.events requestHeader := by
    cases requestHeader with
    | none => exact hreplayed.header
    | some requestHeader => rfl
  obtain ⟨hcovers, husage⟩ := hreplayed.baseline (MeasuredSession.measuredHeader state requestHeader)
  refine ⟨state.surface, hreplayed.nodes, rfl, hreplayed.surfaceTokens, ?_, fun reported usage hbaseline => ?_⟩
  · rw [← hheader]
    show _ ≤ max 0 _
    omega
  · obtain ⟨anchor, hanchor, hequal, hreported, hdelta⟩ := husage reported usage hbaseline
    refine ⟨anchor, hanchor, hheader ▸ hequal, hreported, ?_⟩
    have htokens : (MeasuredSession.measuredBaseline state
        (MeasuredSession.measuredHeader state requestHeader)).1.tokens = reported := congrArg _ hbaseline
    -- the sum is not negative: it is at least the price of the surface
    show max 0 _ = _
    omega

/-! One request over a message, and a shorter message in place of it afterwards. -/

def firstHeader : ReplayedEvent where
  event := {
    type := "request/header", seq := 0, time := 0
    data := .obj [("header", .obj [("config", .obj [("provider", .str "p"), ("model", .str "m")]), ("system", .str "abcd")])] }
  data := .header { system := some "abcd", tools := none }
  typed := rfl
  content := none
  derived := nofun
  replay := .header
    { system := some "abcd", tools := none, config := .obj [("provider", .str "p"), ("model", .str "m")] }
  replays := rfl

def question : ReplayedEvent where
  event := {
    type := "user/message", seq := 1, time := 0, surfaceOp := some (.str "append")
    data := .obj [("content", .arr [.obj [("type", .str "text"), ("text", .str "abcdefgh")]])] }
  data := .other
  typed := rfl
  content := some [.text "abcdefgh"]
  derived := fun _ => rfl
  replay := .other
  replays := rfl

def stepStarts : ReplayedEvent where
  event := {
    type := "step/start", seq := 2, time := 0
    data := .obj [("turn", .num (.int 0)), ("step", .num (.int 0))] }
  data := .other
  typed := rfl
  content := none
  derived := nofun
  replay := .stepStart 0 0
  replays := rfl

def answer : ReplayedEvent where
  event := {
    type := "assistant/message", seq := 3, time := 0, surfaceOp := some (.str "append")
    data := .obj [("turn", .num (.int 0)), ("step", .num (.int 0)),
      ("message", .obj [("content", .arr [.obj [("type", .str "text"), ("text", .str "abcd")]])]),
      ("usage", .obj [("inputTokens", .num (.int 100)), ("outputTokens", .num (.int 10))])] }
  data := .usage (some { inputTokens := 100, cacheReadTokens := none, cacheWriteTokens := none })
  typed := rfl
  content := some [.text "abcd"]
  derived := fun _ => rfl
  replay := .assistant 0 0
    (some { inputTokens := 100, cacheReadTokens := none, cacheWriteTokens := none, outputTokens := 10 }) none
  replays := rfl

def shorterQuestion : ReplayedEvent where
  event := {
    type := "user/message", seq := 4, time := 0
    data := .obj [("content", .arr [])]
    sourceEventSeqs := some (.arr [.num (.int 1)])
    surfaceOp := some (.obj [("op", .str "replace"), ("start", .num (.int 1)), ("end", .num (.int 1))]) }
  data := .other
  typed := rfl
  content := some []
  derived := fun _ => rfl
  replay := .other
  replays := rfl

theorem measure_covers_answered : ∃ m measurement, Machine.exec MeasuredSession.step {}
      [.append firstHeader, .measure none, .append question, .append stepStarts, .append answer] = some m ∧
    (m.measure none).2 = .ok measurement ∧
    (estimateHeader (effectiveHeader m.events none) + totalTokens measurement.nodes : Int) ≤ measurement.totalTokens := by
  refine ⟨_, _, rfl, rfl, ?_⟩
  obtain ⟨nodes, -, hnodes, -, hcovers, -⟩ := @measure_covers
    [.append firstHeader, .measure none, .append question, .append stepStarts, .append answer] _ rfl none _ rfl
  rw [hnodes]
  exact hcovers

/-- What a usage anchor covers is replaced, and the anchor is used all the same. -/
theorem anchor_replaced : ∃ m measurement reported usage anchored, Machine.exec MeasuredSession.step {}
      [.append firstHeader, .append question, .append stepStarts, .append answer, .append shorterQuestion] = some m ∧
    (m.measure none).2 = .ok measurement ∧ measurement.baseline = .usage reported usage ∧
    measuredNodes estimateMessage (logOf (m.events.take 4)) = .ok anchored ∧ ¬ anchored <+: measurement.nodes :=
  ⟨_, _, _, _, _, rfl, rfl, rfl, rfl, by decide⟩

end CocoHarness.TokenMeter
